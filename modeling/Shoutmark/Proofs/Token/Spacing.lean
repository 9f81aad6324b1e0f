import Shoutmark.Proofs.Token.Joined
import Shoutmark.Text.Lines

/-! Texts that are spaced out otherwise. What stands between two words says only that they are two,
so a text has the same words, and compiles to the same, whatever separators its gaps are made of;
a text with unified line ends is such a text. -/

namespace Shoutmark.Token
open Shoutmark.Text

/-- The second text has other separators where the first one has some, and is the same
elsewhere. -/
inductive Respaced : List Char → List Char → Prop
  | nil : Respaced [] []
  | char {s s' : List Char} (c : Char) : Respaced s s' → Respaced (c :: s) (c :: s')
  | gap {w v s s' : List Char} : IsGap w → w ≠ [] → IsGap v → v ≠ [] → Respaced s s' →
      Respaced (w ++ s) (v ++ s')

/-- The words of a text are those of the text with other separators, behind any text. -/
theorem tokenize_respaced {s s' : List Char} (h : Respaced s s') (x : List Char) :
    tokenize (String.ofList (x ++ s)) = tokenize (String.ofList (x ++ s')) := by
  -- a character goes over to the text in front; a gap cuts that text off
  induction h generalizing x with
  | nil => rfl
  | @char s s' c _ ih =>
    have hc : tokenize (String.ofList (x ++ [c] ++ s)) = tokenize (String.ofList (x ++ [c] ++ s')) :=
      ih (x ++ [c])
    rwa [← List.append_cons, ← List.append_cons] at hc
  | @gap w w' s s' hw hne hw' hne' _ ih =>
    have hs : tokenize (String.ofList s) = tokenize (String.ofList s') := ih []
    rw [← List.append_assoc, ← List.append_assoc, String.ofList_append, String.ofList_append,
      String.ofList_append, String.ofList_append, tokenize_gap_between hw hne,
      tokenize_gap_between hw' hne', hs]

theorem respaced_unifyLineEnds (cs : List Char) : Respaced cs (unifyLineEnds cs) := by
  have lf : IsGap ['\n'] := by decide
  fun_induction unifyLineEnds cs with
  | case1 => exact .nil
  | case2 rest ih =>
    have crlf : IsGap ['\r', '\n'] := by decide
    exact .gap crlf (List.cons_ne_nil _ _) lf (List.cons_ne_nil _ _) ih
  | case3 c rest _ ih =>
    split
    · rename_i hc
      have cr : IsGap [c] := by
        rw [hc]
        decide
      exact .gap cr (List.cons_ne_nil _ _) lf (List.cons_ne_nil _ _) ih
    · exact .char c ih

theorem tokenize_unifyLineEnds (cs : List Char) :
    tokenize (String.ofList (unifyLineEnds cs)) = tokenize (String.ofList cs) :=
  (tokenize_respaced (respaced_unifyLineEnds cs) []).symm

/-- A text compiles to the same once its line ends are unified. -/
theorem compile_unifyLineEnds (lists : Bool) (cs : List Char) :
    compile lists (String.ofList (unifyLineEnds cs)) = compile lists (String.ofList cs) := by
  rw [compile, compile, tokenize_unifyLineEnds]

/-- Texts that stand apart are read one after the other: what is not valid in the first one is
found first, what is not valid in the second one next, and otherwise the words of both are the words
of the whole. So the separators of a gap may be changed for any others, in one place or in all, and
line ends may be unified, and neither the words nor the word that is not valid change. -/
theorem tokenize_compositional :
    (∀ a b : String,
      ((a = "" ∨ ∃ c, a.toList.getLast? = some c ∧ isSeparator c = true) ∨
        (b = "" ∨ ∃ c, b.toList.head? = some c ∧ (isSeparator c = true ∨ c = '#'))) →
      (∀ t, tokenize a = .error t → tokenize (a ++ b) = .error t) ∧
        (∀ A t, tokenize a = .ok A → tokenize b = .error t → tokenize (a ++ b) = .error t) ∧
        ∀ A B, tokenize a = .ok A → tokenize b = .ok B → tokenize (a ++ b) = .ok (A ++ B)) ∧
    (∀ x w w' y : String, IsGap w.toList → w ≠ "" → IsGap w'.toList → w' ≠ "" →
      tokenize (x ++ w ++ y) = tokenize (x ++ w' ++ y)) ∧
    (∀ s s' : String, Respaced s.toList s'.toList → tokenize s = tokenize s') ∧
    ∀ s : String, tokenize (String.ofList (unifyLineEnds s.toList)) = tokenize s := by
  refine ⟨fun a b h => ?_, fun x w w' y hw hne hw' hne' => ?_, fun s s' h => ?_, fun s => ?_⟩
  · have hcut : Apart a.toList b.toList := by
      rcases h with (rfl | ⟨c, hc, hs⟩) | (rfl | ⟨c, hc, hs⟩)
      · exact Or.inl (nofun)
      · left
        intro d hd
        rw [hc] at hd
        exact Option.some.inj hd ▸ hs
      · exact Or.inr (nofun)
      · right
        intro d hd
        rw [hc] at hd
        exact Option.some.inj hd ▸ hs
    have hab := tokenize_append hcut
    refine ⟨fun t ha => ?_, fun A t ha hb => ?_, fun A B ha hb => ?_⟩
    · rw [hab, ha]
      rfl
    · rw [hab, ha, hb]
      rfl
    · rw [hab, ha, hb]
      rfl
  · have hgap := tokenize_gap_between hw (mt String.toList_eq_nil_iff.mp hne) x y
    have hgap' := tokenize_gap_between hw' (mt String.toList_eq_nil_iff.mp hne') x y
    rw [String.ofList_toList] at hgap hgap'
    rw [hgap, hgap']
  · have hsame := tokenize_respaced h []
    rw [List.nil_append, List.nil_append, String.ofList_toList, String.ofList_toList] at hsame
    exact hsame
  · rw [tokenize_unifyLineEnds, String.ofList_toList]

/-- A word that is not valid is found before the cut or after it, and a mark begins a new word
there. -/
theorem tokenize_compositional_cases :
    tokenize ("a #nope\n" ++ "#worse") = .error "#nope" ∧
      tokenize ("#HAI" ++ "#worse b") = .error "#worse" ∧
      tokenize ("a!" ++ "#mkay") = .ok ["a!", "#mkay"] ∧
      tokenize ("#HAI" ++ " \t" ++ "#worse") = tokenize ("#HAI" ++ "\n" ++ "#worse") ∧
      tokenize "a \t#HAI\r\nb" = tokenize "a\n#HAI  b" := by
  obtain ⟨hcut, hgap, hspace, -⟩ := tokenize_compositional
  have hnope : tokenize "a #nope\n" = .error "#nope" :=
    tokenize_error_iff.mpr ⟨[], [], by decide, nofun, by decide⟩
  have hworse : tokenize "#worse b" = .error "#worse" :=
    tokenize_error_iff.mpr ⟨[], [], by decide, nofun, by decide⟩
  have special {t : String} (ht : IsSpecialWord t) : tokenize t = .ok [t] := by
    have hl : LaidOut none [t] ([] ++ (t.toList ++ [])) :=
      .word (nofun) (Or.inr ht) (nofun) (.gap (nofun))
    rw [List.nil_append, List.append_nil] at hl
    exact tokenize_ok_iff.mpr hl
  have hhai : tokenize "#HAI" = .ok ["#HAI"] := special (by decide)
  have hmkay : tokenize "#mkay" = .ok ["#mkay"] := special (by decide)
  have ha : tokenize "a!" = .ok ["a!"] := by cbv
  have hspaced : Respaced "a \t#HAI\r\nb".toList "a\n#HAI  b".toList :=
    .char 'a' (.gap (w := [' ', '\t']) (v := ['\n']) (by decide) (by decide) (by decide)
      (by decide) (.char '#' (.char 'H' (.char 'A' (.char 'I'
        (.gap (w := ['\r', '\n']) (v := [' ', ' ']) (by decide) (by decide) (by decide)
          (by decide) (.char 'b' .nil)))))))
  exact ⟨(hcut _ _ (Or.inl (Or.inr ⟨'\n', by decide, by decide⟩))).1 _ hnope,
    (hcut _ _ (Or.inr (Or.inr ⟨'#', by decide, Or.inr rfl⟩))).2.1 _ _ hhai hworse,
    (hcut _ _ (Or.inr (Or.inr ⟨'#', by decide, Or.inr rfl⟩))).2.2 _ _ ha hmkay,
    hgap _ _ _ _ (by decide) (by decide) (by decide) (by decide), hspace _ _ hspaced⟩

end Shoutmark.Token
