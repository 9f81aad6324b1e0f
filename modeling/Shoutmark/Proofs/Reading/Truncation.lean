import Shoutmark.Proofs.Reading.Lists

/-! Programs that are cut short. Before the word that ends a program nothing has been refused and
nothing has ended, so what is cut off there is always told as the end of the input: a keyword is
missing, or the word of a construct is. -/

namespace Shoutmark.Cursor

/-- The tokens that are read: all but those that remain. -/
def passed (c : Cursor) : List String := c.tokens.toList.take (c.tokens.size - c.remaining)

theorem tokens_skip (c : Cursor) (n : Nat) : (c.skip n).tokens = c.tokens := by
  induction n generalizing c with
  | zero => rfl
  | succ n ih => rw [skip, ih, tokens_advance]

theorem Shows.remaining {c : Cursor} {u : List String} (h : c.Shows u) (hu : ∀ t ∈ u, t ≠ "") :
    c.remaining = u.length := by
  obtain ⟨ht, ha⟩ := h
  unfold Cursor.remaining
  rw [ha, ht]
  cases u with
  | nil => simp
  | cons t u => simp [hu t List.mem_cons_self]

theorem Shows.passed {c : Cursor} {v w : List String} (h : c.Shows w) (hw : ∀ t ∈ w, t ≠ "")
    (hc : c.tokens = (v ++ w).toArray) : c.passed = v := by
  unfold Cursor.passed
  rw [h.remaining hw, hc]
  simp

end Shoutmark.Cursor

namespace Shoutmark.Reading
open Shoutmark.Grammar

variable {lists : Bool}

/-- What is known of the token that has led to a progress. -/
def Progress.Owes (t : String) : Progress → Prop
  | .going (.construct _) _ => Keyword.ofWord? t = some .gimmeh
  | .finished _ => Keyword.ofWord? t = some .kthxbye
  | .refused (.notText word) _ => word = t ∧ t ≠ ""
  | _ => True

theorem owes_stepForms (f : Frame) (t : String) (s : Sheet) : (stepForms f t s).Owes t := by
  refine gather_of trivial (fun hne _ => ?_) fun hk => ?_
  · split
    · trivial
    · unfold stepForm
      split
      · assumption
      · trivial
      · trivial
      · split
        · trivial
        · exact ⟨rfl, hne⟩
  · cases f with
    | body => exact hk
    | paragraph => trivial
    | item => trivial

theorem owes_step (q : Place) (t : String) (s : Sheet) : (step lists q t s).Owes t := by
  cases q with
  | opening =>
    rw [step]
    split
    · trivial
    · trivial
    · exact owes_stepForms .body t s
  | forms f => exact owes_stepForms f t s
  | construct f =>
    rw [step, stepConstruct]
    split <;> trivial
  | block =>
    rw [step]
    split
    · trivial
    · exact require_of trivial fun _ => trivial
  | items =>
    rw [step]
    split
    · trivial
    · exact require_of trivial fun _ => trivial
  | head => exact gather_of trivial (fun _ _ => by split <;> trivial) fun _ => trivial
  | useEnd f n =>
    refine require_of trivial fun _ => ?_
    rw [useValue]
    split <;> trivial
  | address f m => trivial
  | name f => trivial
  | usedName f => trivial
  | comment words => exact gather_of trivial (fun _ _ => trivial) fun _ => trivial
  | titleText words => exact gather_of trivial (fun _ _ => trivial) fun _ => trivial
  | styled f style words => exact gather_of trivial (fun _ _ => trivial) fun _ => trivial
  | value f n words => exact gather_of trivial (fun _ _ => trivial) fun _ => trivial
  | _ => exact require_of trivial fun _ => trivial

theorem owes_of_step {q : Place} {t : String} {s : Sheet} {p : Progress}
    (h : step lists q t s = p) : p.Owes t := by
  rw [← h]
  exact owes_step q t s

/-- Tokens that have led to no end have not done so before either. -/
theorem going_of_append {p : Progress} {u w : List String} {q : Place} {s : Sheet}
    (h : feed lists p (u ++ w) = .going q s) : ∃ q' s', feed lists p u = .going q' s' := by
  rw [feed_append] at h
  cases hu : feed lists p u with
  | going q' s' => exact ⟨q', s', rfl⟩
  | finished s' =>
    rw [hu, feed_finished] at h
    cases h
  | refused f s' =>
    rw [hu, feed_refused] at h
    cases h

/-- The word of a construct is awaited right after the word that opens one. -/
theorem getLast?_of_construct {tokens : List String} {f : Frame} {s : Sheet}
    (h : feed lists .fresh tokens = .going (.construct f) s) :
    ∃ t, tokens.getLast? = some t ∧ Keyword.ofWord? t = some .gimmeh := by
  rcases List.eq_nil_or_concat tokens with rfl | ⟨u, t, rfl⟩
  · cases h
  · obtain ⟨q, s', hu⟩ := going_of_append (w := [t]) (by rwa [← List.concat_eq_append])
    rw [List.concat_eq_append, feed_append, hu] at h
    exact ⟨t, by simp, owes_of_step h⟩

/-- The tokens that an accepted program reads are the ones up to the word that ends it. -/
theorem passed_of_ok {T : List String} (hT : ∀ t ∈ T, t ≠ "") {d : Draft}
    (h : program lists (.start T) = .ok () d) :
    ∃ u t w q s, T = u ++ t :: w ∧ d.cursor.passed = u ++ [t] ∧
      feed lists .fresh u = .going q s ∧ step lists q t s = .finished d.sheet := by
  obtain ⟨u, t, w, q, s, rfl, hu, hs⟩ := feed_stops (feed_of_ok h) (by simp)
  refine ⟨u, t, w, q, s, rfl, ?_, hu, hs⟩
  have hd : d.cursor = ((Cursor.start (u ++ t :: w)).skip u.length).advance := by
    rw [program_at hu, hs, proceed] at h
    obtain ⟨-, hd⟩ := EStateM.Result.ok.inj h
    rw [← hd, Draft.cursor_draft]
  have hc : d.cursor.Shows w := by
    rw [hd]
    exact (Cursor.shows_start _).skip.advance
  have htokens : d.cursor.tokens = (u ++ t :: w).toArray := by
    rw [hd, Cursor.tokens_advance, Cursor.tokens_skip]
    rfl
  refine hc.passed (fun r hr => hT r ?_) ?_
  · exact List.mem_append_right u (List.mem_cons_of_mem t hr)
  · rw [htokens, List.append_assoc, List.singleton_append]

theorem feed_passed {T : List String} (hT : ∀ t ∈ T, t ≠ "") {d : Draft}
    (h : program lists (.start T) = .ok () d) :
    feed lists .fresh d.cursor.passed = .finished d.sheet := by
  obtain ⟨u, t, w, q, s, -, hp, hu, hs⟩ := passed_of_ok hT h
  rw [hp, feed_append, hu, feed_going_cons, hs, feed_nil]

/-- What an accepted program reads ends nowhere before its last token. -/
theorem going_of_passed {T : List String} (hT : ∀ t ∈ T, t ≠ "") {d : Draft}
    (h : program lists (.start T) = .ok () d) {P : List String} (hP : P <+: d.cursor.passed)
    (hne : P ≠ d.cursor.passed) : ∃ q s, feed lists .fresh P = .going q s := by
  obtain ⟨u, t, w, q, s, -, hp, hu, -⟩ := passed_of_ok hT h
  rw [hp] at hP hne
  rcases List.prefix_concat_iff.mp hP with he | ⟨v, rfl⟩
  · exact absurd he hne
  · exact going_of_append hu

/-- Where tokens are used up, a keyword is missing, or the word of a construct that is opened by the
last token. -/
theorem shortage_of_going {tokens : List String} {q : Place} {s : Sheet}
    (h : feed lists .fresh tokens = .going q s) :
    (∃ k : Keyword, q.shortage = .mismatch k.spelling "") ∨
      (q.shortage = .unknownConstruct "" ∧
        ∃ t, tokens.getLast? = some t ∧ Keyword.ofWord? t = some .gimmeh) := by
  unfold Place.shortage
  cases hq : q.awaited with
  | some k => exact Or.inl ⟨k, rfl⟩
  | none =>
    cases q with
    | construct f => exact Or.inr ⟨rfl, getLast?_of_construct h⟩
    | _ => cases hq

theorem notText_ne_empty {T : List String} {word : String} {d : Draft}
    (h : program lists (.start T) = .error (.notText word) d) : word ≠ "" := by
  cases hf : feed lists .fresh T with
  | finished s =>
    obtain ⟨c, hp⟩ := program_finished hf
    rw [h] at hp
    cases hp
  | going q s =>
    obtain ⟨s', c, hp, -⟩ := program_going hf
    rw [h] at hp
    have hq : Fault.notText word = q.shortage := (EStateM.Result.error.inj hp).1
    unfold Place.shortage at hq
    split at hq <;> cases hq
  | refused f s =>
    obtain ⟨c, hp⟩ := program_refused hf
    rw [h] at hp
    obtain ⟨rfl, -⟩ := EStateM.Result.error.inj hp
    obtain ⟨u, t, w, q, s', -, -, hs⟩ := feed_stops hf (by simp)
    obtain ⟨rfl, hne⟩ := owes_of_step hs
    exact hne

/-- Whatever is cut off an accepted program, so that its last word is missing, is found missing: the
fault is that of the end of the input. So no accepted program goes on after another one, with lists
or without. And a word that is refused as text is a word. -/
theorem truncation_found (lists : Bool) :
    (∀ (T : List String) (d : Draft), (∀ t ∈ T, t ≠ "") →
      program lists (.start T) = .ok () d →
        (∃ u t, d.cursor.passed = u ++ [t] ∧ Keyword.ofWord? t = some .kthxbye) ∧
        d.cursor.passed <+: T ∧
        ∀ P, P <+: d.cursor.passed → P ≠ d.cursor.passed →
          ∃ f d', program lists (.start P) = .error f d' ∧
            ((∃ k : Keyword, f = .mismatch k.spelling "") ∨
              (f = .unknownConstruct "" ∧
                ∃ t, P.getLast? = some t ∧ Keyword.ofWord? t = some .gimmeh))) ∧
    (∀ (lists' : Bool) (T T' : List String) (d d' : Draft), (∀ t ∈ T, t ≠ "") →
      (∀ t ∈ T', t ≠ "") → program lists (.start T) = .ok () d →
      program lists' (.start T') = .ok () d' → d.cursor.passed <+: d'.cursor.passed →
        d.cursor.passed = d'.cursor.passed) ∧
    (∀ (T : List String) (word : String) (d : Draft),
      program lists (.start T) = .error (.notText word) d → word ≠ "") := by
  refine ⟨fun T d hT h => ⟨?_, ?_, fun P hP hne => ?_⟩,
    fun lists' T T' d d' hT hT' h h' hP => Classical.byContradiction fun hne => ?_,
    fun T word d h => notText_ne_empty h⟩
  · obtain ⟨u, t, w, q, s, -, hp, -, hs⟩ := passed_of_ok hT h
    exact ⟨u, t, hp, owes_of_step hs⟩
  · obtain ⟨u, t, w, q, s, rfl, hp, -⟩ := passed_of_ok hT h
    rw [hp]
    exact ⟨w, by simp⟩
  · obtain ⟨q, s, hg⟩ := going_of_passed hT h hP hne
    obtain ⟨s', c, hp, -⟩ := program_going hg
    exact ⟨q.shortage, _, hp, shortage_of_going hg⟩
  · -- both are accepted with lists, and the longer one has not ended where the shorter one does
    obtain ⟨q, s, hg⟩ := going_of_passed hT' (program_with_lists h') hP hne
    rw [feed_passed hT (program_with_lists h)] at hg
    cases hg

/-- A program in bold, cut off after the word that opens the construct. -/
theorem truncation_found_in_construct :
    ∃ d, program true (.start ["#HAI", "#gimmeh", "bold", "a", "#MKAY", "#kthxbye", "b"]) =
        .ok () d ∧
      d.cursor.passed = ["#HAI", "#gimmeh", "bold", "a", "#MKAY", "#kthxbye"] ∧
      ∃ f d', program true (.start ["#HAI", "#gimmeh"]) = .error f d' ∧
        ((∃ k : Keyword, f = .mismatch k.spelling "") ∨ (f = .unknownConstruct "" ∧
          ∃ t, ["#HAI", "#gimmeh"].getLast? = some t ∧ Keyword.ofWord? t = some .gimmeh)) := by
  have hu : feed true .fresh ["#HAI", "#gimmeh", "bold", "a", "#MKAY"] =
      .going (.forms .body) ⟨#["<b>", "a ", "</b>"], .empty, none, #[]⟩ := by decide +kernel
  have hs : step true (.forms .body) "#kthxbye" ⟨#["<b>", "a ", "</b>"], .empty, none, #[]⟩ =
      .finished ⟨#["<b>", "a ", "</b>", "</body></html>"], .empty, none, #[]⟩ := by decide +kernel
  have hp := program_at (w := ["b"]) (t := "#kthxbye") hu
  rw [hs] at hp
  obtain ⟨-, -, hcut⟩ := (truncation_found true).1 _ _ (by decide) hp
  exact ⟨_, hp, by decide +kernel,
    hcut ["#HAI", "#gimmeh"] (by decide +kernel) (by decide +kernel)⟩

end Shoutmark.Reading
