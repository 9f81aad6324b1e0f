import Shoutmark.Proofs.Reading.Outcome
import Shoutmark.Proofs.Token.Joined

/-! More tokens after a program's end, or after a fault that the tokens were not too few for, are
not looked at. -/

namespace Shoutmark.Reading
open Shoutmark.Grammar

variable {lists : Bool}

/-- A program that has ended ends the same with more tokens after it. -/
theorem program_append_ok {T : List String} {d : Draft} (S : List String)
    (h : program lists (.start T) = .ok () d) :
    ∃ d', program lists (.start (T ++ S)) = .ok () d' ∧ d'.sheet = d.sheet := by
  have hf : feed lists .fresh (T ++ S) = .finished d.sheet := by
    rw [feed_append, feed_of_ok h, feed_finished]
  obtain ⟨c, hp⟩ := program_finished hf
  exact ⟨_, hp, Draft.sheet_draft c d.sheet⟩

/-- So does one with a fault that names no empty token. -/
theorem program_append_error {T : List String} {f : Fault} {d : Draft} (S : List String)
    (hf : f.token? ≠ some "") (h : program lists (.start T) = .error f d) :
    ∃ d', program lists (.start (T ++ S)) = .error f d' ∧ d'.sheet = d.sheet := by
  obtain hr | ⟨-, -, he⟩ := feed_of_error h
  · have hr' : feed lists .fresh (T ++ S) = .refused f d.sheet := by
      rw [feed_append, hr, feed_refused]
    obtain ⟨c, hp⟩ := program_refused hr'
    exact ⟨_, hp, Draft.sheet_draft c d.sheet⟩
  · exact absurd he hf

theorem page_eq_of_sheet {d d' : Draft} (h : d'.sheet = d.sheet) : d'.page = d.page := by
  have hh : d'.html = d.html := congrArg Sheet.html h
  rw [Draft.page, Draft.page, hh]

theorem diagnostics_eq_of_sheet {d d' : Draft} (h : d'.sheet = d.sheet) :
    d'.diagnostics = d.diagnostics := by
  have he : d'.events = d.events := congrArg Sheet.events h
  rw [Draft.diagnostics, Draft.diagnostics, he]

theorem compile_ok_iff {source : String} {page : Page} :
    (compile lists source).outcome = .ok page ↔
      ∃ T d, Token.tokenize source = .ok T ∧ T ≠ [] ∧ program lists (.start T) = .ok () d ∧
        d.toPage T = page := by
  rw [compile]
  constructor
  · intro h
    split at h
    · cases h
    · cases h
    · rename_i T hne hT
      simp only at h
      split at h
      · cases h
      · rename_i d hp
        exact ⟨T, d, hT, hne, hp, Except.ok.inj h⟩
  · rintro ⟨T, d, hT, hne, hp, rfl⟩
    rw [hT]
    cases T with
    | nil => exact absurd rfl hne
    | cons t T => simp only [hp]

/-- How a program ends is settled by the tokens read so far: what is written and told by then does
not depend on the tokens after them, and a source is not looked at past the end of its program
but for words that are not valid. -/
theorem outcome_settled (lists : Bool) :
    (∀ (T S : List String) (d : Draft), program lists (.start T) = .ok () d →
      ∃ d', program lists (.start (T ++ S)) = .ok () d' ∧ d'.sheet = d.sheet) ∧
    (∀ (T S : List String) (f : Fault) (d : Draft), program lists (.start T) = .error f d →
      f.token? ≠ some "" →
        ∃ d', program lists (.start (T ++ S)) = .error f d' ∧ d'.sheet = d.sheet) ∧
    (∀ (a b : String) (page : Page), (compile lists a).outcome = .ok page →
      (∀ B, Token.tokenize b = .ok B →
        ∃ page', (compile lists (a ++ " " ++ b)).outcome = .ok page' ∧ page'.html = page.html ∧
          page'.values = page.values ∧ page'.title = page.title ∧
          page'.diagnostics = page.diagnostics) ∧
      (∀ word, Token.tokenize b = .error word →
        (compile lists (a ++ " " ++ b)).outcome = .error (.lexical word))) := by
  refine ⟨fun T S d => program_append_ok S, fun T S f d h hf => program_append_error S hf h,
    fun a b page ha => ?_⟩
  obtain ⟨T, d, hT, hne, hp, rfl⟩ := compile_ok_iff.mp ha
  constructor
  · intro B hB
    obtain ⟨d', hp', hs⟩ := program_append_ok B hp
    have hc : (compile lists (a ++ " " ++ b)).outcome = .ok (d'.toPage (T ++ B)) :=
      compile_ok_iff.mpr ⟨T ++ B, d', Token.tokenize_joined_ok hT hB, by simp [hne], hp', rfl⟩
    exact ⟨_, hc, page_eq_of_sheet hs, congrArg Sheet.values hs, congrArg Sheet.title hs,
      diagnostics_eq_of_sheet hs⟩
  · intro word hb
    exact Token.compile_lexical_iff.mpr (Token.tokenize_joined_error hT hb)

/-- Nothing is read after the end of a program, nor after a variable that has no value; but a word
that is not valid is found there. -/
theorem outcome_settled_early :
    (∃ d, program true (.start ["#HAI", "a", "#LEMME", "SEE", "x", "#MKAY", "#OIC"]) =
      .error (.undefinedVariable "x") d ∧ d.html = #["a "]) ∧
    (compile true "#HAI a#KTHXBYE b#nope").outcome = .error (.lexical "#nope") := by
  have hf : feed true .fresh ["#HAI", "a", "#LEMME", "SEE", "x", "#MKAY"] =
      .refused (.undefinedVariable "x") ⟨#["a "], .empty, none, #[]⟩ := by decide +kernel
  obtain ⟨c, hp⟩ := program_refused hf
  obtain ⟨d, hd, hs⟩ := (outcome_settled true).2.1 _ ["#OIC"] _ _ hp (by decide +kernel)
  have hT : Token.tokenize "#HAI a#KTHXBYE" = .ok ["#HAI", "a", "#KTHXBYE"] :=
    Token.tokenize_ok_iff.mpr (.word (w := []) (nofun) (Or.inr (by decide)) (nofun)
      (.word (w := [' ']) (by decide) (Or.inl (by decide)) (nofun)
        (.word (w := []) (nofun) (Or.inr (by decide)) (fun _ _ _ => Or.inl rfl) (.gap (nofun)))))
  have hend : feed true .fresh ["#HAI", "a", "#KTHXBYE"] =
      .finished ⟨#["a ", "</body></html>"], .empty, none, #[]⟩ := by decide +kernel
  obtain ⟨c', hp'⟩ := program_finished hend
  have hok := compile_ok_iff.mpr ⟨_, _, hT, by decide +kernel, hp', rfl⟩
  have hb : Token.tokenize "b#nope" = .error "#nope" :=
    Token.tokenize_error_iff.mpr ⟨[], [], by decide +kernel, nofun, by decide +kernel⟩
  exact ⟨⟨d, hd, congrArg Sheet.html hs⟩, ((outcome_settled true).2.2 _ "b#nope" _ hok).2 _ hb⟩

end Shoutmark.Reading
