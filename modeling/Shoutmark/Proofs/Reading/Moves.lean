import Mathlib.Logic.Relation
import Shoutmark.Proofs.Reading.Onward
import Shoutmark.Proofs.Reading.Outcome

/-! Whatever is read moves on in small moves: a token is passed, a piece is written, something is
told, a title is read to its end, a variable is defined. No move takes anything back, and only the
last two change the title or a value. -/

namespace Shoutmark.Reading
open Shoutmark.Grammar

/-- A small step from one draft to another. -/
inductive Move : Draft → Draft → Prop
  | pass (d : Draft) : Move d d.advance
  | write (piece : String) (d : Draft) : Move d (d.write piece)
  | remark (m : Diagnostic) (d : Draft) : Move d (d.tell (.diagnostic m))
  /-- A title is read up to its closing word. -/
  | title {d d' : Draft} : Grammar.title d = .ok () d' → Move d d'
  /-- A variable is defined, or its definition ends in a fault. -/
  | define (d : Draft) : Move d (draftOf (defineVariable d))

abbrev Moves : Draft → Draft → Prop := Relation.ReflTransGen Move

theorem onward_moves : Onward Moves := ⟨fun _ => .refl, .trans, fun d => .single (.pass d)⟩

theorem moves_write (piece : String) : Respects Moves (write piece) :=
  fun d => .single (.write piece d)

theorem moves_writeSpaced (words : List String) : Respects Moves (writeSpaced words) := by
  intro d
  induction words generalizing d with
  | nil =>
    have h : writeSpaced [] d = .ok () d := by simp [writeSpaced]
    rw [h]
    exact .refl
  | cons w words ih =>
    have h : writeSpaced (w :: words) d = writeSpaced words (d.write (w ++ " ")) := by
      simp [writeSpaced, Draft.write]
    rw [h]
    exact .head (.write _ d) (ih _)

theorem moves_report (m : Diagnostic) : Respects Moves (report m) :=
  fun d => .single (.remark m d)

theorem moves_defineVariable : Respects Moves defineVariable := fun d => .single (.define d)

theorem moves_comment : Respects Moves comment :=
  onward_moves.bind (onward_moves.expect _) fun _ => onward_moves.bind (onward_moves.phrase _)
    fun _ => onward_moves.bind (onward_moves.expect _) fun _ => moves_report _

/-- A title that is not read to its end only passes tokens. -/
theorem moves_title : Respects Moves title := by
  intro d
  cases h : title d with
  | ok _ d' => exact .single (.title h)
  | error f d' =>
    have hd := respects_titleText onward_moves d
    rw [title_error h] at hd
    exact hd

theorem moves_headItem : Respects Moves headItem := by
  refine onward_moves.bind onward_moves.keyword? fun k => ?_
  split
  · exact moves_title
  · exact onward_moves.pass

theorem moves_head : Respects Moves head := by
  refine onward_moves.bind onward_moves.keyword? fun k => ?_
  split
  · exact onward_moves.bind (onward_moves.expect _) fun _ =>
      onward_moves.bind (onward_moves.expect _) fun _ =>
        onward_moves.bind (onward_moves.repeatWhile _ moves_headItem) fun _ =>
          onward_moves.expect _
  · exact onward_moves.pure _

theorem moves_text : Respects Moves text := by
  refine onward_moves.bind onward_moves.token fun word => ?_
  split
  · exact onward_moves.bind (moves_write _) fun _ => onward_moves.pass
  · exact onward_moves.fail _

theorem moves_styled (word tag : String) : Respects Moves (styled word tag) :=
  onward_moves.bind (onward_moves.matchWord _) fun _ => onward_moves.bind (moves_write _) fun _ =>
    onward_moves.bind (onward_moves.collect _) fun _ =>
      onward_moves.bind (moves_writeSpaced _) fun _ =>
        onward_moves.bind (onward_moves.expect _) fun _ => moves_write _

theorem moves_newline : Respects Moves newline :=
  onward_moves.bind (onward_moves.expect _) fun _ => moves_write _

theorem moves_media (word : String) : Respects Moves (media word) :=
  onward_moves.bind (onward_moves.matchWord _) fun _ => onward_moves.bind onward_moves.take fun _ =>
    onward_moves.bind (onward_moves.expect _) fun _ => onward_moves.pure _

theorem moves_audio : Respects Moves audio :=
  onward_moves.bind (moves_media _) fun _ => onward_moves.bind (moves_write _) fun _ =>
    moves_report _

theorem moves_video : Respects Moves video :=
  onward_moves.bind (moves_media _) fun _ => onward_moves.bind (moves_write _) fun _ =>
    moves_report _

theorem moves_writeValue (name : String) : Respects Moves (writeValue name) := by
  intro d
  rw [writeValue_apply]
  split
  · exact .single (.write _ d)
  · exact .refl

theorem moves_useVariable : Respects Moves useVariable :=
  onward_moves.bind (onward_moves.expect _) fun _ => onward_moves.bind (onward_moves.expect _)
    fun _ => onward_moves.bind onward_moves.take fun _ =>
      onward_moves.bind (onward_moves.expect _) fun _ => moves_writeValue _

theorem moves_construct : Respects Moves construct := by
  refine onward_moves.bind onward_moves.keyword? fun k => ?_
  split
  · exact moves_styled _ _
  · exact moves_styled _ _
  · exact moves_newline
  · exact moves_audio
  · exact moves_video
  · exact onward_moves.bind onward_moves.token fun _ => onward_moves.fail _

theorem moves_inline : Respects Moves inline := by
  refine onward_moves.bind onward_moves.keyword? fun k => ?_
  split
  · exact onward_moves.bind onward_moves.pass fun _ => moves_construct
  · exact moves_useVariable
  · exact moves_defineVariable
  · exact moves_text

theorem moves_paragraphContent : Respects Moves paragraphContent :=
  onward_moves.bind (onward_moves.expect _) fun _ => onward_moves.bind (moves_write _) fun _ =>
    onward_moves.bind (onward_moves.repeatWhile _ moves_inline) fun _ =>
      onward_moves.bind (moves_write _) fun _ => onward_moves.expect _

theorem moves_paragraph : Respects Moves paragraph :=
  onward_moves.bind (onward_moves.expect _) fun _ => moves_paragraphContent

theorem moves_listItem : Respects Moves listItem :=
  onward_moves.bind (onward_moves.expect _) fun _ => onward_moves.bind (onward_moves.expect _)
    fun _ => onward_moves.bind (moves_write _) fun _ =>
      onward_moves.bind (onward_moves.repeatWhile _ moves_inline) fun _ =>
        onward_moves.bind (moves_write _) fun _ => onward_moves.expect _

theorem moves_listContent : Respects Moves listContent :=
  onward_moves.bind (onward_moves.expect _) fun _ => onward_moves.bind (moves_write _) fun _ =>
    onward_moves.bind (onward_moves.repeatWhile _ moves_listItem) fun _ =>
      onward_moves.bind (moves_write _) fun _ => onward_moves.expect _

theorem moves_block (lists : Bool) : Respects Moves (block lists) := by
  refine onward_moves.bind (onward_moves.expect _) fun _ =>
    onward_moves.bind onward_moves.keyword? fun k => ?_
  split
  · exact moves_listContent
  · exact moves_paragraphContent

theorem moves_bodyItem (lists : Bool) : Respects Moves (bodyItem lists) := by
  refine onward_moves.bind onward_moves.keyword? fun k => ?_
  split
  · exact moves_block lists
  · exact moves_inline
  · exact moves_useVariable
  · exact moves_defineVariable
  · exact moves_text

theorem moves_body (lists : Bool) : Respects Moves (body lists) :=
  onward_moves.bind (onward_moves.repeatWhile _ (moves_bodyItem lists)) fun _ => moves_write _

theorem moves_program (lists : Bool) : Respects Moves (program lists) :=
  onward_moves.bind (onward_moves.expect _) fun _ =>
    onward_moves.bind (onward_moves.repeatWhile _ moves_comment) fun _ =>
      onward_moves.bind moves_head fun _ =>
        onward_moves.bind (moves_body lists) fun _ => onward_moves.expect _

/-! ### What moves leave as it is -/

/-- The second cursor is the first one some tokens further on. -/
def Further (c c' : Cursor) : Prop := ∃ n, c' = c.skip n

theorem Further.refl (c : Cursor) : Further c c := ⟨0, rfl⟩

theorem Further.trans {c c' c'' : Cursor} (h : Further c c') (h' : Further c' c'') :
    Further c c'' := by
  obtain ⟨m, rfl⟩ := h
  obtain ⟨n, rfl⟩ := h'
  exact ⟨m + n, (Cursor.skip_add c m n).symm⟩

theorem onward_further : Onward fun d d' => Further d.cursor d'.cursor :=
  ⟨fun d => .refl d.cursor, .trans, fun _ => ⟨1, rfl⟩⟩

theorem further_title : Respects (fun d d' => Further d.cursor d'.cursor) title := by
  rw [title_eq]
  exact onward_further.bind (respects_titleText onward_further) fun _ d => .refl d.cursor

theorem further_defineVariable :
    Respects (fun d d' => Further d.cursor d'.cursor) defineVariable :=
  onward_further.bind (onward_further.expect _) fun _ =>
    onward_further.bind (onward_further.expect _) fun _ =>
      onward_further.bind onward_further.take fun _ =>
        onward_further.bind (onward_further.expect _) fun _ =>
          onward_further.bind (onward_further.expect _) fun _ =>
            onward_further.bind (onward_further.phrase _) fun _ =>
              onward_further.bind (fun d => .refl d.cursor) fun _ =>
                onward_further.bind (onward_further.expect _) fun _ d => .refl d.cursor

theorem Move.further {d d' : Draft} (h : Move d d') : Further d.cursor d'.cursor := by
  cases h with
  | pass => exact ⟨1, rfl⟩
  | write => exact .refl d.cursor
  | remark => exact .refl d.cursor
  | title h =>
    have hd := further_title d
    rw [h] at hd
    exact hd
  | define => exact further_defineVariable d

theorem Moves.further {d d' : Draft} (h : Moves d d') : Further d.cursor d'.cursor := by
  induction h with
  | refl => exact .refl d.cursor
  | tail _ hm ih => exact ih.trans hm.further

/-- How a cursor moves: never back, and never past the last token. -/
structure Onto (c c' : Cursor) : Prop where
  tokens : c'.tokens = c.tokens
  position : c.position ≤ c'.position
  inside : c.position < max 1 c.tokens.size → c'.position < max 1 c.tokens.size

theorem Onto.refl (c : Cursor) : Onto c c := ⟨rfl, Nat.le_refl _, id⟩

theorem Onto.trans {c c' c'' : Cursor} (h : Onto c c') (h' : Onto c' c'') : Onto c c'' := by
  refine ⟨h'.tokens.trans h.tokens, Nat.le_trans h.position h'.position, fun hc => ?_⟩
  have := h'.inside
  rw [h.tokens] at this
  exact this (h.inside hc)

theorem onto_advance (c : Cursor) : Onto c c.advance := by
  unfold Cursor.advance
  split
  · rename_i ht
    have hlt : c.position + 1 < c.tokens.size := (Array.getElem?_eq_some_iff.mp ht).choose
    exact ⟨rfl, Nat.le_succ _, fun _ => Nat.lt_of_lt_of_le hlt (Nat.le_max_right _ _)⟩
  · exact ⟨rfl, Nat.le_refl _, id⟩

theorem Further.onto {c c' : Cursor} (h : Further c c') : Onto c c' := by
  obtain ⟨n, rfl⟩ := h
  induction n generalizing c with
  | zero => exact .refl c
  | succ n ih => exact (onto_advance c).trans ih

theorem Move.grows {d d' : Draft} (h : Move d d') : d.sheet.Grows d'.sheet := by
  have same := Sheet.Grows.refl d.sheet
  cases h with
  | pass => exact same
  | write piece => exact same.write piece
  | remark m => exact same.tell (.diagnostic m)
  | title h =>
    obtain ⟨words, hs⟩ := sheet_title h
    rw [hs]
    exact same.headline words
  | define =>
    rcases sheet_defineVariable d with hs | ⟨words, -, -, hs | hs⟩
    · rw [hs]
      exact same
    · rw [hs]
      exact same.define _ _
    · rw [hs]
      exact (same.define _ _).tell _

theorem Moves.grows {d d' : Draft} (h : Moves d d') : d.sheet.Grows d'.sheet := by
  induction h with
  | refl => exact .refl d.sheet
  | tail _ hm ih => exact ih.trans hm.grows

theorem Move.title_eq_or {d d' : Draft} (h : Move d d') :
    d'.title = d.title ∨ Grammar.title d = .ok () d' := by
  cases h with
  | pass => exact Or.inl rfl
  | write => exact Or.inl rfl
  | remark => exact Or.inl rfl
  | title h => exact Or.inr h
  | define =>
    left
    show (draftOf (defineVariable d)).sheet.title = d.sheet.title
    rcases sheet_defineVariable d with hs | ⟨words, -, -, hs | hs⟩
    · rw [hs]
    · rw [hs]
      rfl
    · rw [hs]
      rfl

/-- The title is the one given by the last title that is read to its end. -/
theorem Moves.title_eq_or {d d' : Draft} (h : Moves d d') :
    d'.title = d.title ∨
      ∃ x y, Moves d x ∧ title x = .ok () y ∧ Moves y d' ∧ d'.title = y.title := by
  induction h with
  | refl => exact Or.inl rfl
  | @tail e e' hd hm ih =>
    rcases hm.title_eq_or with he | ht
    · rcases ih with ih | ⟨x, y, hx, ht, hy, hxy⟩
      · exact Or.inl (he.trans ih)
      · exact Or.inr ⟨x, y, hx, ht, hy.tail hm, he.trans hxy⟩
    · exact Or.inr ⟨e, e', hd, ht, .refl, rfl⟩

/-- A definition that starts here gives the name this value, be its closing word there or not. -/
structure Defines (d : Draft) (name value : String) : Prop where
  name_eq : definedName d = name
  value_eq : ∃ words d', collect Keyword.mkay.spelling (valueStart d) = .ok words d' ∧
    value = phraseOf words
  values : (draftOf (defineVariable d)).values = d.values.set name value

theorem Move.value_eq_or {d d' : Draft} (h : Move d d') (name : String) :
    d'.values.get? name = d.values.get? name ∨
      d' = draftOf (defineVariable d) ∧ ∃ value, Defines d name value := by
  cases h with
  | pass => exact Or.inl rfl
  | write => exact Or.inl rfl
  | remark => exact Or.inl rfl
  | title h =>
    obtain ⟨words, hs⟩ := sheet_title h
    left
    show d'.sheet.values.get? name = d.sheet.values.get? name
    rw [hs]
    rfl
  | define =>
    rcases sheet_defineVariable d with hs | ⟨words, y, hw, hs⟩
    · left
      show (draftOf (defineVariable d)).sheet.values.get? name = d.sheet.values.get? name
      rw [hs]
    · have hv : (draftOf (defineVariable d)).values =
          d.values.set (definedName d) (phraseOf words) := by
        show (draftOf (defineVariable d)).sheet.values = _
        rcases hs with hs | hs
        · rw [hs]
          rfl
        · rw [hs]
          rfl
      by_cases hn : definedName d = name
      · exact Or.inr ⟨rfl, phraseOf words, hn, ⟨words, y, hw, rfl⟩, hn ▸ hv⟩
      · left
        rw [hv, Variables.get?_set_of_ne (Ne.symm hn)]

/-- A value is the one given by the last definition of its name. -/
theorem Moves.value_eq_or {d d' : Draft} (h : Moves d d') (name : String) :
    d'.values.get? name = d.values.get? name ∨
      ∃ x value, Moves d x ∧ Defines x name value ∧ Moves (draftOf (defineVariable x)) d' ∧
        d'.values.get? name = some value := by
  induction h with
  | refl => exact Or.inl rfl
  | @tail e e' hd hm ih =>
    rcases hm.value_eq_or name with he | ⟨rfl, value, hv⟩
    · rcases ih with ih | ⟨x, value, hx, hv, hy, hxy⟩
      · exact Or.inl (he.trans ih)
      · exact Or.inr ⟨x, value, hx, hv, hy.tail hm, he.trans hxy⟩
    · refine Or.inr ⟨e, value, hd, hv, .refl, ?_⟩
      rw [hv.values, Variables.get?_set_self]

end Shoutmark.Reading
