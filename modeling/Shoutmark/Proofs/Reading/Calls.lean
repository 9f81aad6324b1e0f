import Mathlib.Data.List.Induction
import Shoutmark.Proofs.Reading.Moves

/-! Productions called one by one, in any order, from wherever the calls before have left the draft
and whether or not these ended in a fault. Each call only adds to the draft; what a fault may leave
behind is said of each. -/

namespace Shoutmark.Reading
open Shoutmark.Grammar

/-- What may be asked of a draft. -/
inductive Call
  | look
  | advance
  | setToken (token : String)
  | matchWord (word : String)
  | collect (word : String)
  | write (piece : String)
  | program
  | comment
  | head
  | title
  | body
  | block
  | paragraph
  | paragraphContent
  | listContent
  | listItem
  | inline
  | styled (word tag : String)
  | bold
  | italics
  | newline
  | media (word : String)
  | audio
  | video
  | text
  | defineVariable
  | useVariable
  deriving DecidableEq, Repr

namespace Call

def run (lists : Bool) : Call → Production Unit
  | look => do let _ ← Grammar.token
  | advance => Grammar.advance
  | setToken token => Grammar.setToken token
  | matchWord word => Grammar.matchWord word
  | collect word => do let _ ← Grammar.collect word
  | write piece => Grammar.write piece
  | program => Grammar.program lists
  | comment => Grammar.comment
  | head => Grammar.head
  | title => Grammar.title
  | body => Grammar.body lists
  | block => Grammar.block lists
  | paragraph => Grammar.paragraph
  | paragraphContent => Grammar.paragraphContent
  | listContent => Grammar.listContent
  | listItem => Grammar.listItem
  | inline => Grammar.inline
  | styled word tag => Grammar.styled word tag
  | bold => Grammar.bold
  | italics => Grammar.italics
  | newline => Grammar.newline
  | media word => do let _ ← Grammar.media word
  | audio => Grammar.audio
  | video => Grammar.video
  | text => Grammar.text
  | defineVariable => Grammar.defineVariable
  | useVariable => Grammar.useVariable

def next (lists : Bool) (d : Draft) (c : Call) : Draft := draftOf (c.run lists d)

/-- The call writes and tells only when nothing can go wrong any more. -/
def isClean : Call → Bool
  | title | comment | media _ | audio | video | useVariable => true
  | _ => false

end Call

def after (lists : Bool) (tokens : List String) (history : List Call) : Draft :=
  history.foldl (Call.next lists) (.start tokens)

variable {lists : Bool}

theorem after_concat (tokens : List String) (history : List Call) (c : Call) :
    after lists tokens (history ++ [c]) = c.next lists (after lists tokens history) := by
  simp [after]

/-! ### One call -/

theorem moves_run {c : Call} (h : ∀ token, c ≠ .setToken token) : Respects Moves (c.run lists) := by
  cases c with
  | look => exact onward_moves.bind onward_moves.token fun _ => onward_moves.pure _
  | advance => exact onward_moves.pass
  | setToken token => exact absurd rfl (h token)
  | matchWord word => exact onward_moves.matchWord word
  | collect word => exact onward_moves.bind (onward_moves.collect word) fun _ => onward_moves.pure _
  | write piece => exact moves_write piece
  | program => exact moves_program lists
  | comment => exact moves_comment
  | head => exact moves_head
  | title => exact moves_title
  | body => exact moves_body lists
  | block => exact moves_block lists
  | paragraph => exact moves_paragraph
  | paragraphContent => exact moves_paragraphContent
  | listContent => exact moves_listContent
  | listItem => exact moves_listItem
  | inline => exact moves_inline
  | styled word tag => exact moves_styled word tag
  | bold => exact moves_styled _ _
  | italics => exact moves_styled _ _
  | newline => exact moves_newline
  | media word => exact onward_moves.bind (moves_media word) fun _ => onward_moves.pure _
  | audio => exact moves_audio
  | video => exact moves_video
  | text => exact moves_text
  | defineVariable => exact moves_defineVariable
  | useVariable => exact moves_useVariable

theorem moves_next (c : Call) (d : Draft) :
    Moves d (c.next lists d) ∨
      ∃ token, c.next lists d = { d with cursor := d.cursor.set token } := by
  by_cases h : ∃ token, c = .setToken token
  · obtain ⟨token, rfl⟩ := h
    exact Or.inr ⟨token, rfl⟩
  · exact Or.inl (moves_run (fun token hc => h ⟨token, hc⟩) d)

theorem onto_next (c : Call) (d : Draft) : Onto d.cursor (c.next lists d).cursor := by
  rcases moves_next c d with h | ⟨token, h⟩
  · exact h.further.onto
  · rw [h]
    exact ⟨rfl, Nat.le_refl _, id⟩

theorem grows_next (c : Call) (d : Draft) : d.sheet.Grows (c.next lists d).sheet := by
  rcases moves_next c d with h | ⟨token, h⟩
  · exact h.grows
  · rw [h]
    exact .refl d.sheet

theorem failsClean_run {c : Call} (h : c.isClean = true) : FailsClean (c.run lists) := by
  cases c with
  | title => exact failsClean_title
  | comment => exact failsClean_comment
  | media word => exact failsClean_bind (failsClean_media word) nofun
  | audio => exact failsClean_audio
  | video => exact failsClean_video
  | useVariable => exact failsClean_useVariable
  | _ => cases h

/-- A definition that ends in a fault leaves nothing behind, or it is at its closing word and the
variable has its value already. -/
theorem defineVariable_error {d d' : Draft} {f : Fault} (h : defineVariable d = .error f d') :
    (∃ k ∈ [Keyword.i, .haz, .it, .iz], f = .mismatch k.spelling d'.cursor.token) ∧
        d'.sheet = d.sheet ∨
      f = .mismatch Keyword.mkay.spelling "" ∧ ∃ words d₁,
        collect Keyword.mkay.spelling (valueStart d) = .ok words d₁ ∧
          d'.sheet = d.sheet.define (definedName d) (phraseOf words) := by
  have hend := definitionEnd d
  rw [h] at hend
  cases hend with
  | refused hk hs => exact Or.inl ⟨⟨_, hk, rfl⟩, hs⟩
  | unclosed hw hs => exact Or.inr ⟨rfl, _, _, hw, hs ▸ rfl⟩

/-! ### Any calls -/

theorem onto_after (tokens : List String) (history : List Call) :
    Onto (Cursor.start tokens) (after lists tokens history).cursor := by
  induction history using List.reverseRecOn with
  | nil => exact .refl _
  | append_singleton history c ih =>
    rw [after_concat]
    exact ih.trans (onto_next c _)

/-- What a call does to a draft, however it ends. -/
structure Call.Effect (lists : Bool) (c : Call) (d : Draft) : Prop where
  html : d.html.toList <+: (c.next lists d).html.toList
  diagnostics : d.diagnostics <+: (c.next lists d).diagnostics
  names : d.values.names <+: (c.next lists d).values.names
  tokens : (c.next lists d).cursor.tokens = d.cursor.tokens
  position : d.cursor.position ≤ (c.next lists d).cursor.position
  /-- A title is the work of a title that was read up to its closing word. -/
  title : (c.next lists d).title ≠ d.title → ∃ x y, Moves d x ∧ Grammar.title x = .ok () y ∧
    Moves y (c.next lists d) ∧ (c.next lists d).title = y.title
  /-- A value is the work of a definition of its name. -/
  value (name : String) : (c.next lists d).values.get? name ≠ d.values.get? name →
    ∃ x value, Moves d x ∧ Defines x name value ∧
      Moves (draftOf (Grammar.defineVariable x)) (c.next lists d) ∧
        (c.next lists d).values.get? name = some value
  clean : c.isClean = true → ∀ f d', c.run lists d = .error f d' → d'.sheet = d.sheet
  define : c = .defineVariable → ∀ f d', c.run lists d = .error f d' →
    d'.html = d.html ∧ d'.title = d.title ∧ d'.events = d.events ∧
      ((∀ token, f ≠ .mismatch Keyword.mkay.spelling token) ∧ d'.values = d.values ∨
        f = .mismatch Keyword.mkay.spelling "" ∧ ∃ words d₁,
          Grammar.collect Keyword.mkay.spelling (valueStart d) = .ok words d₁ ∧
            d'.values = d.values.set (definedName d) (phraseOf words))

theorem Call.effect (c : Call) (d : Draft) : c.Effect lists d where
  html := (grows_next c d).html
  diagnostics := diagnostics_prefix (grows_next c d)
  names := (grows_next c d).names
  tokens := (onto_next c d).tokens
  position := (onto_next c d).position
  title ht := by
    rcases moves_next c d with h | ⟨token, h⟩
    · exact h.title_eq_or.resolve_left ht
    · rw [h] at ht
      exact absurd rfl ht
  value name hv := by
    rcases moves_next c d with h | ⟨token, h⟩
    · exact (h.value_eq_or name).resolve_left hv
    · rw [h] at hv
      exact absurd rfl hv
  clean hc := failsClean_run hc d
  define := by
    rintro rfl f d' h
    rcases defineVariable_error h with ⟨⟨k, hk, rfl⟩, hs⟩ | ⟨rfl, words, d₁, hw, hs⟩
    · refine ⟨congrArg Sheet.html hs, congrArg Sheet.title hs, congrArg Sheet.events hs,
        Or.inl ⟨fun token ht => ?_, congrArg Sheet.values hs⟩⟩
      have hmkay : k = .mkay := Keyword.spelling_injective (Fault.mismatch.inj ht).1
      rw [hmkay] at hk
      exact absurd hk (by decide)
    · exact ⟨congrArg Sheet.html hs, congrArg Sheet.title hs, congrArg Sheet.events hs,
        Or.inr ⟨rfl, words, d₁, hw, congrArg Sheet.values hs⟩⟩

/-- After any calls on a fresh draft, the next one only adds to it and stays among its tokens. -/
theorem calls_only_add (lists : Bool) (tokens : List String) (history : List Call) (c : Call) :
    c.Effect lists (after lists tokens history) ∧
      (c.next lists (after lists tokens history)).cursor.tokens.toList = tokens ∧
      (c.next lists (after lists tokens history)).cursor.position < max 1 tokens.length := by
  have h : Onto (Cursor.start tokens) (after lists tokens (history ++ [c])).cursor :=
    onto_after tokens _
  rw [after_concat] at h
  refine ⟨c.effect _, ?_, ?_⟩
  · rw [h.tokens]
    rfl
  · exact h.inside (Nat.lt_of_lt_of_le Nat.zero_lt_one (Nat.le_max_left _ _))

/-- A definition of which only the closing word is missing. -/
def unclosed : List String := ["#I", "HAZ", "name", "#IT", "IZ", "Ada"]

/-- It holds, and the page and its title are as they were. -/
theorem calls_only_add_unclosed :
    ∃ d', Call.defineVariable.run false (after false unclosed [.title]) =
        .error (.mismatch "#MKAY" "") d' ∧
      d'.values = ⟨[("name", "Ada")]⟩ ∧ d'.html = #[] ∧ d'.title = none := by
  have hd : after false unclosed [.title] = .start unclosed := rfl
  have hvalue : collect "#MKAY" (valueStart (.start unclosed)) =
      .ok ["Ada"] (valueStart (.start unclosed)).advance := by
    rw [collect, if_neg (by decide), collect, if_pos (by decide)]
    rfl
  have hphrase : phrase .mkay (valueStart (.start unclosed)) =
      .ok "Ada" (valueStart (.start unclosed)).advance :=
    (bind_ok hvalue).trans rfl
  have h : Call.defineVariable.run false (.start unclosed) = .error (.mismatch "#MKAY" "")
      ((valueStart (.start unclosed)).advance.define "name" "Ada") := by
    refine (expect_at (by decide)).trans ((expect_at (by decide)).trans ?_)
    refine (bind_ok rfl).trans ((expect_at (by decide)).trans ((expect_at (by decide)).trans ?_))
    exact (bind_ok hphrase).trans rfl
  have effect := (calls_only_add false unclosed [.title] .defineVariable).1
  rw [hd] at effect ⊢
  obtain ⟨hhtml, htitle, -, -⟩ := effect.define rfl _ _ h
  exact ⟨_, h, rfl, hhtml, htitle⟩

end Shoutmark.Reading
