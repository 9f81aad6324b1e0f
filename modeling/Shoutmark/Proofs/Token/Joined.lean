import Shoutmark.Proofs.Token.Layout

/-! Two texts, one after the other. Where no word can reach across the cut, the words of both are
the words of the first, then those of the second; a special word that is not valid is found in the
first text before the second. -/

namespace Shoutmark.Token
open Shoutmark.Text (takeWhile_run dropWhile_run not_head_dropWhile mem_takeWhile)

/-- No word reaches from the first text into the second: the first one is empty or ends in a
separator, or the second one is empty or begins with a separator or a mark. -/
def Apart (a b : List Char) : Prop :=
  (∀ c, a.getLast? = some c → isSeparator c = true) ∨
    ∀ c, b.head? = some c → isSeparator c = true ∨ c = specialMark

/-- The reading of a text with more text behind it. What is not valid is not read past. -/
def Scan.andThen (s : Scan) (b : List Char) : Scan :=
  match s.invalid with
  | none => (scan b).after s.tokens
  | some _ => { s with rest := s.rest ++ b }

theorem Scan.andThen_after (words : List String) (s : Scan) (b : List Char) :
    (s.after words).andThen b = (s.andThen b).after words := by
  obtain ⟨tokens, invalid, rest⟩ := s
  cases invalid with
  | none => simp [andThen, after]
  | some _ => rfl

theorem Apart.suffix {a a' b : List Char} (h : Apart a b) (ha : a' <:+ a) : Apart a' b := by
  obtain ⟨x, rfl⟩ := ha
  rcases h with h | h
  · left
    intro c hc
    exact h c (by rw [List.getLast?_append, hc]; rfl)
  · exact Or.inr h

variable {p : Char → Bool}

/-- A run inside a word ends in the first text or at the cut. -/
theorem Apart.run {c : Char} {cs b : List Char} (h : Apart (c :: cs) b)
    (hc : isSeparator c = false) (hp : ∀ d, p d = true → isSeparator d = false)
    (hm : p specialMark = false) :
    (cs ++ b).takeWhile p = cs.takeWhile p ∧ (cs ++ b).dropWhile p = cs.dropWhile p ++ b := by
  have hrun : ∀ d ∈ cs.takeWhile p, p d = true := fun d hd => mem_takeWhile hd
  have hstop : ∀ d, (cs.dropWhile p ++ b).head? = some d → p d = false := by
    intro d hd
    cases hcs : cs.dropWhile p with
    | cons e es =>
      have hhead : (cs.dropWhile p).head? = some d := by
        rw [hcs] at hd ⊢
        exact hd
      exact not_head_dropWhile hhead
    | nil =>
      rw [hcs, List.nil_append] at hd
      rcases h with ha | hb
      · -- the last character of the first text is in the word, so it is no separator
        have hall : ∀ e ∈ c :: cs, isSeparator e = false := by
          intro e he
          rcases List.mem_cons.mp he with rfl | he
          · exact hc
          · rw [← List.takeWhile_append_dropWhile (p := p) (l := cs), hcs, List.append_nil] at he
            exact hp e (hrun e he)
        have hlast := List.getLast?_eq_some_getLast (List.cons_ne_nil c cs)
        have hsep := ha _ hlast
        rw [hall _ (List.getLast_mem _)] at hsep
        cases hsep
      · rcases hb d hd with hs | rfl
        · cases hpd : p d with
          | false => rfl
          | true =>
            rw [hp d hpd] at hs
            cases hs
        · exact hm
  have hcut : cs ++ b = cs.takeWhile p ++ (cs.dropWhile p ++ b) := by
    rw [← List.append_assoc, List.takeWhile_append_dropWhile]
  rw [hcut]
  exact ⟨takeWhile_run hrun hstop, dropWhile_run hrun hstop⟩

/-- A text is read up to the cut and on from there. -/
theorem scan_append {a b : List Char} (h : Apart a b) : scan (a ++ b) = (scan a).andThen b := by
  fun_induction scan a with
  | case1 => rfl
  | case2 c cs hc ih =>
    rw [List.cons_append, scan, if_pos hc]
    exact ih (h.suffix (List.suffix_cons c cs))
  | case3 cs rest hc word hv ih =>
    obtain ⟨htake, hdrop⟩ := h.run (p := continuesSpecial) (by decide)
      (fun d hd => isSeparator_of_continues hd) continuesSpecial_mark
    have hrest : Apart rest b :=
      h.suffix ((List.dropWhile_suffix _).trans (List.suffix_cons specialMark cs))
    rw [List.cons_append, scan, if_neg hc, if_pos rfl]
    simp only [htake, hdrop]
    rw [if_pos hv, ih hrest, Scan.andThen_after]
  | case4 cs rest hc word hv =>
    obtain ⟨htake, hdrop⟩ := h.run (p := continuesSpecial) (by decide)
      (fun d hd => isSeparator_of_continues hd) continuesSpecial_mark
    rw [List.cons_append, scan, if_neg hc, if_pos rfl]
    simp only [htake, hdrop]
    rw [if_neg hv]
    rfl
  | case5 c cs hc hm ih =>
    obtain ⟨htake, hdrop⟩ := h.run (p := isPlain) (by simpa using hc)
      (fun d hd => (isPlain_iff.mp hd).1) (by decide)
    have hrest : Apart (cs.dropWhile isPlain) b :=
      h.suffix ((List.dropWhile_suffix _).trans (List.suffix_cons c cs))
    rw [List.cons_append, scan, if_neg hc, if_neg hm, htake, hdrop, ih hrest, Scan.andThen_after]

theorem tokenize_append {a b : String} (h : Apart a.toList b.toList) :
    tokenize (a ++ b) = (do
      let A ← tokenize a
      let B ← tokenize b
      return A ++ B) := by
  rw [tokenize, tokenize, tokenize, String.toList_append, scan_append h]
  cases hi : (scan a.toList).invalid with
  | some t => simp [Scan.andThen, hi, bind, Except.bind]
  | none =>
    cases hj : (scan b.toList).invalid with
    | some t => simp [Scan.andThen, Scan.after, hi, hj, bind, Except.bind]
    | none => simp [Scan.andThen, Scan.after, hi, hj, bind, Except.bind, pure, Except.pure]

theorem tokenize_gap {w : List Char} (hw : IsGap w) : tokenize (String.ofList w) = .ok [] := by
  rw [tokenize_ok_iff, String.toList_ofList]
  exact .gap hw

theorem apart_of_gap {w : List Char} (hw : IsGap w) (s : List Char) : Apart w s :=
  Or.inl fun c hc => hw c (List.mem_of_getLast? hc)

theorem tokenize_gap_between {w : List Char} (hw : IsGap w) (hne : w ≠ []) (a b : String) :
    tokenize (a ++ String.ofList w ++ b) = (do
      let A ← tokenize a
      let B ← tokenize b
      return A ++ B) := by
  have hgap : Apart (String.ofList w).toList b.toList := by
    rw [String.toList_ofList]
    exact apart_of_gap hw b.toList
  have hcut : Apart a.toList (String.ofList w ++ b).toList := by
    right
    intro c hc
    obtain ⟨d, v, rfl⟩ := List.exists_cons_of_ne_nil hne
    rw [String.toList_append, String.toList_ofList] at hc
    obtain rfl : d = c := Option.some.inj hc
    exact Or.inl (hw d List.mem_cons_self)
  have hb : tokenize (String.ofList w ++ b) = tokenize b := by
    rw [tokenize_append hgap, tokenize_gap hw]
    cases tokenize b <;> rfl
  rw [String.append_assoc, tokenize_append hcut, hb]

theorem isGap_space : IsGap [' '] := by decide

theorem tokenize_joined_ok {a b : String} {A B : List String} (ha : tokenize a = .ok A)
    (hb : tokenize b = .ok B) : tokenize (a ++ " " ++ b) = .ok (A ++ B) := by
  have h := tokenize_gap_between isGap_space (List.cons_ne_nil _ _) a b
  rw [ha, hb] at h
  exact h

theorem tokenize_joined_error {a b t : String} {A : List String} (ha : tokenize a = .ok A)
    (hb : tokenize b = .error t) : tokenize (a ++ " " ++ b) = .error t := by
  have h := tokenize_gap_between isGap_space (List.cons_ne_nil _ _) a b
  rw [ha, hb] at h
  exact h

end Shoutmark.Token
