import Mathlib
import Shoutmark.Proofs.Reading.Continuation
import Shoutmark.Proofs.Reading.Growth

/-! Programs with lists and without. Whether lists are allowed is asked at one place only, after
the word that opens a block, and there only the word LIST makes a difference; so a program that is
read without lists is read the same with them, up to the first list. -/

namespace Shoutmark.Reading
open Shoutmark.Grammar

/-- Without lists a block that starts like one is refused, and nothing else is done otherwise. -/
theorem step_lists (q : Place) (t : String) (s : Sheet) :
    step false q t s = step true q t s ∨
      (Keyword.ofWord? t = some .list ∧
        step false q t s = .refused (.mismatch Keyword.paragraf.spelling t) s) := by
  cases q with
  | block =>
    by_cases ht : Keyword.ofWord? t = some .list
    · right
      refine ⟨ht, ?_⟩
      rw [step, if_neg (by simp), require, if_neg (by simp [ht])]
    · left
      rw [step, step, if_neg (by simp), if_neg fun h => ht h.2]
  | _ => exact Or.inl rfl

/-- The words that start a list where none is allowed are refused; what was done before is done
with lists, too. -/
def StopsAtList (r r' : EStateM.Result Fault Draft Unit) : Prop :=
  ∃ found d, r = .error (.mismatch Keyword.paragraf.spelling found) d ∧
    Keyword.ofWord? found = some .list ∧ d.sheet.Grows (draftOf r').sheet

/-- From any place on, reading without lists does what reading with them does, or stops at one. -/
theorem resume_lists (q : Place) (d : Draft) :
    resume false q d = resume true q d ∨ StopsAtList (resume false q d) (resume true q d) := by
  fun_induction resume false q d with
  | case1 q d q' s h ih =>
    rcases step_lists q d.cursor.token d.sheet with he | ⟨-, hr⟩
    · have ht : resume true q d = resume true q' (s.draft d.cursor.advance) := by
        rw [resume_eq, ← he, h, proceed]
      rw [ht]
      exact ih
    · rw [h] at hr
      cases hr
  | case2 q d s h =>
    rcases step_lists q d.cursor.token d.sheet with he | ⟨-, hr⟩
    · left
      rw [resume_eq, ← he, h, proceed]
    · rw [h] at hr
      cases hr
  | case3 q d f s h =>
    rcases step_lists q d.cursor.token d.sheet with he | ⟨hl, hr⟩
    · left
      rw [resume_eq, ← he, h, proceed]
    · right
      rw [h] at hr
      cases hr
      exact ⟨d.cursor.token, d, rfl, hl, resume_grows q d⟩

theorem program_lists (d : Draft) :
    program false d = program true d ∨ StopsAtList (program false d) (program true d) := by
  rw [program_eq_resume, program_eq_resume]
  exact resume_lists .start d

/-- What is accepted is accepted with lists, and the draft is the same. -/
theorem program_with_lists {lists : Bool} {d d' : Draft} (h : program lists d = .ok () d') :
    program true d = .ok () d' := by
  cases lists with
  | true => exact h
  | false =>
    rcases program_lists d with he | ⟨found, d'', hr, -⟩
    · rw [← he, h]
    · rw [h] at hr
      cases hr

/-- Allowing lists changes nothing but what is done with them. A program ends the same with lists
and without, or it is refused without them at the word that starts a list, and then all that was
written, named and told by then is so with lists, too. A source that is compiled without lists is
compiled to the same. -/
theorem lists_conservative :
    (∀ T : List String, program false (.start T) = program true (.start T) ∨
      ∃ found d, program false (.start T) = .error (.mismatch "PARAGRAF" found) d ∧
        Text.upper found = "LIST" ∧
        d.html.toList <+: (draftOf (program true (.start T))).html.toList ∧
        d.values.names <+: (draftOf (program true (.start T))).values.names ∧
        d.diagnostics <+: (draftOf (program true (.start T))).diagnostics) ∧
    (∀ (source : String) (page : Page), (compile false source).outcome = .ok page →
      compile true source = compile false source) := by
  constructor
  · intro T
    refine (program_lists (.start T)).imp id ?_
    rintro ⟨found, d, hr, hl, hg⟩
    have hu : Text.upper found = "LIST" := Keyword.ofWord?_eq_some_iff.mp hl
    exact ⟨found, d, hr, hu, hg.html, hg.names, diagnostics_prefix hg⟩
  · intro source page hok
    obtain ⟨T, d, hT, hne, hp, -⟩ := compile_ok_iff.mp hok
    have ht : program true (.start T) = program false (.start T) := by
      rw [hp, program_with_lists hp]
    unfold compile
    rw [hT]
    cases T with
    | nil => exact absurd rfl hne
    | cons t T => simp only [ht]

def shopping : List String :=
  ["#HAI", "Buy", "#MAEK", "List", "#GIMMEH", "ITEM", "eggs", "#MKAY", "#OIC", "#KTHXBYE"]

/-- The list is where the two part; a source without one is compiled to the same. -/
theorem lists_conservative_shopping :
    (∃ d d', program false (.start shopping) = .error (.mismatch "PARAGRAF" "List") d ∧
      program true (.start shopping) = .ok () d' ∧ d.html.toList <+: d'.html.toList) ∧
    compile true "#HAI a #KTHXBYE" = compile false "#HAI a #KTHXBYE" := by
  have hfalse : feed false .fresh shopping =
      .refused (.mismatch "PARAGRAF" "List") ⟨#["Buy "], .empty, none, #[]⟩ := by decide +kernel
  have htrue : feed true .fresh shopping = .finished ⟨#["Buy ", "<ul>\n", "<li>", "eggs ",
      "</li>\n", "</ul>\n", "</body></html>"], .empty, none, #[]⟩ := by decide +kernel
  obtain ⟨c, hp⟩ := program_refused hfalse
  obtain ⟨c', hp'⟩ := program_finished htrue
  have hT : Token.tokenize "#HAI a #KTHXBYE" = .ok ["#HAI", "a", "#KTHXBYE"] := by cbv
  have hend : feed false .fresh ["#HAI", "a", "#KTHXBYE"] =
      .finished ⟨#["a ", "</body></html>"], .empty, none, #[]⟩ := by decide +kernel
  obtain ⟨c'', hp''⟩ := program_finished hend
  have hok := compile_ok_iff.mpr ⟨_, _, hT, by decide, hp'', rfl⟩
  refine ⟨?_, lists_conservative.2 _ _ hok⟩
  rcases lists_conservative.1 shopping with he | ⟨found, d, hr, -, hh, -⟩
  · rw [hp, hp'] at he
    cases he
  · rw [hp] at hr
    cases hr
    rw [hp'] at hh
    exact ⟨_, _, hp, hp', hh⟩

end Shoutmark.Reading
