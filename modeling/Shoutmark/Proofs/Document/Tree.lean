import Mathlib.Data.List.Forall2
import Shoutmark.Proofs.Reading.Place

/-! Documents as trees. A tree says what a page is made of, yields the words it is written in, and
is rendered part by part from left to right; how a text is read does not come into it. -/

namespace Shoutmark.Document
open Shoutmark.Grammar Shoutmark.Reading

/-- Tokens without a keyword among them. -/
def Words (k : Keyword) : Type := { ws : List String // ∀ w ∈ ws, Keyword.ofWord? w ≠ some k }

inductive Form
  | text (word : String) (fits : isText word = true)
  | styled (style : Style) (words : Words .mkay)
  | newline
  | media (m : Medium) (address : String)
  | define (name : String) (value : Words .mkay)
  | use (name : String)

/-- A title, or a token that no one asks for. -/
inductive HeadItem
  | title (words : Words .mkay)
  | junk (token : String) (noEnd : Keyword.ofWord? token ≠ some .oic)
      (noTitle : Keyword.ofWord? token ≠ some .gimmeh)

/-- A form of the body, or a block of forms. Lists are there only if they are allowed. -/
inductive BodyItem (lists : Bool)
  | form (f : Form)
  | paragraph (forms : List Form)
  | list (allowed : lists = true) (items : List (List Form))

def BodyItem.isBlock {lists : Bool} : BodyItem lists → Bool
  | .form _ => false
  | .paragraph _ | .list _ _ => true

/-- A whole document. A block at the start of the body would be taken for the head. -/
structure Tree (lists : Bool) where
  comments : List (Words .tldr)
  head : Option (List HeadItem)
  body : List (BodyItem lists)
  noBlock : head = none → ∀ b, body.head? = some b → b.isBlock = false

variable {lists : Bool}

/-! ### The words of a document -/

/-- A keyword, in any ASCII case, or just this token. -/
inductive Symbol
  | word (k : Keyword)
  | token (t : String)
  deriving DecidableEq, Repr

def Spells (t : String) : Symbol → Prop
  | .word k => Keyword.ofWord? t = some k
  | .token a => t = a

instance (t : String) : (y : Symbol) → Decidable (Spells t y)
  | .word k => inferInstanceAs (Decidable (Keyword.ofWord? t = some k))
  | .token a => inferInstanceAs (Decidable (t = a))

/-- The tokens stand for the symbols, one for each. -/
abbrev Spelling (u : List String) (ys : List Symbol) : Prop := List.Forall₂ Spells u ys

def Words.yield {k : Keyword} (ws : Words k) : List Symbol := ws.val.map .token

def Form.yield : Form → List Symbol
  | .text w _ => [.token w]
  | .styled style ws => .word .gimmeh :: .word style.word :: (ws.yield ++ [.word .mkay])
  | .newline => [.word .gimmeh, .word .newline]
  | .media m a => [.word .gimmeh, .word m.word, .token a, .word .mkay]
  | .define n ws => .word .i :: .word .haz :: .token n :: .word .it :: .word .iz ::
      (ws.yield ++ [.word .mkay])
  | .use n => [.word .lemme, .word .see, .token n, .word .mkay]

def formsYield (fs : List Form) : List Symbol := fs.flatMap Form.yield

def itemYield (fs : List Form) : List Symbol :=
  .word .gimmeh :: .word .item :: (formsYield fs ++ [.word .mkay])

def BodyItem.yield : BodyItem lists → List Symbol
  | .form f => f.yield
  | .paragraph fs => .word .maek :: .word .paragraf :: (formsYield fs ++ [.word .oic])
  | .list _ items => .word .maek :: .word .list :: (items.flatMap itemYield ++ [.word .oic])

def bodyYield (body : List (BodyItem lists)) : List Symbol := body.flatMap BodyItem.yield

def HeadItem.yield : HeadItem → List Symbol
  | .title ws => .word .gimmeh :: .word .title :: (ws.yield ++ [.word .mkay])
  | .junk t _ _ => [.token t]

def headYield : Option (List HeadItem) → List Symbol
  | none => []
  | some items => .word .maek :: .word .head :: (items.flatMap HeadItem.yield ++ [.word .oic])

def commentYield (ws : Words .tldr) : List Symbol :=
  .word .obtw :: (ws.yield ++ [.word .tldr])

def Tree.yield (D : Tree lists) : List Symbol :=
  .word .hai :: (D.comments.flatMap commentYield ++
    (headYield D.head ++ (bodyYield D.body ++ [.word .kthxbye])))

/-! ### The page of a document -/

/-- Writes a form. The value of a variable is the one it was given last. -/
def Form.render : Form → Sheet → Sheet
  | .text w _, s => s.write (textPiece w)
  | .styled style ws, s =>
    ((s.write ("<" ++ style.tag ++ ">")).writeSpaced ws.val).write ("</" ++ style.tag ++ ">")
  | .newline, s => s.write "<br/>\n"
  | .media m a, s => (s.write (m.player a)).tell (.diagnostic (m.diagnostic a))
  | .define n ws, s =>
    (s.define n (phraseOf ws.val)).tell (.variableDefined n (phraseOf ws.val))
  | .use n, s =>
    match s.values.get? n with
    | some value => s.write (value ++ " ")
    | none => s

def renderForms (fs : List Form) (s : Sheet) : Sheet := fs.foldl (fun s f => f.render s) s

def renderItem (fs : List Form) (s : Sheet) : Sheet :=
  (renderForms fs (s.write "<li>")).write Frame.item.tail

def renderItems (items : List (List Form)) (s : Sheet) : Sheet :=
  items.foldl (fun s fs => renderItem fs s) s

def BodyItem.render : BodyItem lists → Sheet → Sheet
  | .form f, s => f.render s
  | .paragraph fs, s => (renderForms fs (s.write "<p>")).write Frame.paragraph.tail
  | .list _ items, s => (renderItems items (s.write "<ul>\n")).write "</ul>\n"

def renderBody (body : List (BodyItem lists)) (s : Sheet) : Sheet :=
  body.foldl (fun s b => b.render s) s

def HeadItem.render : HeadItem → Sheet → Sheet
  | .title ws, s => s.headline ws.val
  | .junk _ _ _, s => s

def renderHead : Option (List HeadItem) → Sheet → Sheet
  | none, s => s
  | some items, s => items.foldl (fun s h => h.render s) s

/-- A comment is told and not written. -/
def renderComments (comments : List (Words .tldr)) (s : Sheet) : Sheet :=
  comments.foldl (fun s ws => s.tell (.diagnostic (.comment (phraseOf ws.val)))) s

def Tree.render (D : Tree lists) : Sheet :=
  (renderBody D.body (renderHead D.head (renderComments D.comments .blank))).write Frame.body.tail

/-! ### The variables of a document -/

def BodyItem.forms : BodyItem lists → List Form
  | .form f => [f]
  | .paragraph fs => fs
  | .list _ items => items.flatten

def Tree.forms (D : Tree lists) : List Form := D.body.flatMap BodyItem.forms

/-- A definition of the variable comes before every use of it. -/
def DefinedBeforeUse (fs : List Form) : Prop :=
  ∀ before name after, fs = before ++ .use name :: after →
    ∃ value, Form.define name value ∈ before

/-- The values of variables after a form. -/
def Form.bind : Form → Variables → Variables
  | .define n ws, v => v.set n (phraseOf ws.val)
  | _, v => v

def bindForms (fs : List Form) (v : Variables) : Variables := fs.foldl (fun v f => f.bind v) v

def Form.Has : Form → Variables → Prop
  | .use n, v => (v.get? n).isSome = true
  | _, _ => True

/-- Every variable has a value where it is used. -/
def Ready : List Form → Variables → Prop
  | [], _ => True
  | f :: fs, v => f.Has v ∧ Ready fs (f.bind v)

instance (v : Variables) : (f : Form) → Decidable (f.Has v)
  | .use n => inferInstanceAs (Decidable ((v.get? n).isSome = true))
  | .text _ _ | .styled _ _ | .newline | .media _ _ | .define _ _ => isTrue trivial

instance decidableReady : (fs : List Form) → (v : Variables) → Decidable (Ready fs v)
  | [], _ => isTrue trivial
  | f :: fs, v =>
    have := decidableReady fs (f.bind v)
    inferInstanceAs (Decidable (f.Has v ∧ Ready fs (f.bind v)))

@[simp] theorem ready_nil (v : Variables) : Ready [] v := trivial

theorem ready_append {fs gs : List Form} {v : Variables} :
    Ready (fs ++ gs) v ↔ Ready fs v ∧ Ready gs (bindForms fs v) := by
  induction fs generalizing v with
  | nil => simp [bindForms]
  | cons f fs ih => rw [List.cons_append, Ready, Ready, ih, and_assoc, bindForms, bindForms,
      List.foldl_cons]

theorem Form.values_render (f : Form) (s : Sheet) : (f.render s).values = f.bind s.values := by
  cases f with
  | use n =>
    show (match s.values.get? n with
      | some value => s.write (value ++ " ")
      | none => s).values = s.values
    split <;> rfl
  | _ => rfl

theorem has_bind {f : Form} {n : String} {v : Variables} :
    ((f.bind v).get? n).isSome = true ↔ (v.get? n).isSome = true ∨ ∃ ws, f = .define n ws := by
  cases f with
  | define m ws =>
    by_cases h : m = n
    · subst h
      simp [Form.bind, Variables.get?_set_self]
    · have hne : (v.set m (phraseOf ws.val)).get? n = v.get? n :=
        Variables.get?_set_of_ne (Ne.symm h) _ v
      simp [Form.bind, hne, h]
  | _ => simp [Form.bind]

/-- Every variable has a value where it is used if the ones without a value are defined before. -/
theorem ready_iff {fs : List Form} {v : Variables} :
    Ready fs v ↔ ∀ before name after, fs = before ++ .use name :: after →
      (v.get? name).isSome = true ∨ ∃ value, Form.define name value ∈ before := by
  -- a value the first form gives counts as one from before for the forms after it
  induction fs generalizing v with
  | nil => simp
  | cons f fs ih =>
    rw [Ready, ih]
    constructor
    · rintro ⟨hf, hfs⟩ before name after he
      cases before with
      | nil =>
        cases he
        exact Or.inl hf
      | cons g before =>
        cases he
        rcases hfs before name after rfl with h | ⟨value, h⟩
        · rcases has_bind.mp h with h | ⟨ws, rfl⟩
          · exact Or.inl h
          · exact Or.inr ⟨ws, List.mem_cons_self⟩
        · exact Or.inr ⟨value, List.mem_cons_of_mem f h⟩
    · intro h
      constructor
      · cases f with
        | use n =>
          rcases h [] n fs rfl with hv | ⟨value, hm⟩
          · exact hv
          · cases hm
        | _ => trivial
      · rintro before name after rfl
        rcases h (f :: before) name after rfl with hv | ⟨value, hm⟩
        · exact Or.inl (has_bind.mpr (Or.inl hv))
        · rcases List.mem_cons.mp hm with rfl | hm
          · exact Or.inl (has_bind.mpr (Or.inr ⟨value, rfl⟩))
          · exact Or.inr ⟨value, hm⟩

theorem definedBeforeUse_iff {fs : List Form} : DefinedBeforeUse fs ↔ Ready fs .empty := by
  rw [ready_iff]
  have he (name : String) : (Variables.empty.get? name).isSome = false := rfl
  constructor
  · exact fun h before name after hfs => Or.inr (h before name after hfs)
  · intro h before name after hfs
    rcases h before name after hfs with hv | hd
    · rw [he] at hv
      cases hv
    · exact hd

instance (fs : List Form) : Decidable (DefinedBeforeUse fs) :=
  decidable_of_iff (Ready fs .empty) definedBeforeUse_iff.symm

/-! ### Parts in a row -/

/-- What may stand several times in a row: its words, its share of the page and its forms. -/
structure Part (α : Type) where
  yield : α → List Symbol
  render : α → Sheet → Sheet
  forms : α → List Form
  yield_ne_nil : ∀ x, yield x ≠ []
  values_render : ∀ x s, (render x s).values = bindForms (forms x) s.values

namespace Part

variable {α : Type} (P : Part α)

def yieldAll (xs : List α) : List Symbol := xs.flatMap P.yield

def renderAll (xs : List α) (s : Sheet) : Sheet := xs.foldl (fun s x => P.render x s) s

def formsAll (xs : List α) : List Form := xs.flatMap P.forms

theorem values_renderAll (xs : List α) (s : Sheet) :
    (P.renderAll xs s).values = bindForms (P.formsAll xs) s.values := by
  induction xs generalizing s with
  | nil => rfl
  | cons x xs ih =>
    show (P.renderAll xs (P.render x s)).values = _
    rw [ih, P.values_render, formsAll, formsAll, List.flatMap_cons, bindForms, bindForms,
      bindForms, List.foldl_append]

theorem ready_formsAll_cons {x : α} {xs : List α} {s : Sheet} :
    Ready (P.formsAll (x :: xs)) s.values ↔
      Ready (P.forms x) s.values ∧ Ready (P.formsAll xs) (P.render x s).values := by
  rw [formsAll, List.flatMap_cons, ready_append, P.values_render, formsAll]

theorem formsAll_eq_nil (h : ∀ x, P.forms x = []) (xs : List α) : P.formsAll xs = [] :=
  List.flatMap_eq_nil_iff.mpr fun x _ => h x

end Part

theorem Form.yield_ne_nil (form : Form) : form.yield ≠ [] := by
  cases form <;> exact List.cons_ne_nil _ _

def formPart : Part Form := ⟨Form.yield, Form.render, fun f => [f], Form.yield_ne_nil,
  Form.values_render⟩

@[simp] theorem formsAll_formPart (fs : List Form) : formPart.formsAll fs = fs :=
  List.flatMap_singleton' fs

theorem values_renderForms (fs : List Form) (s : Sheet) :
    (renderForms fs s).values = bindForms fs s.values := by
  have h : (renderForms fs s).values = bindForms (formPart.formsAll fs) s.values :=
    formPart.values_renderAll fs s
  rw [h, formsAll_formPart]

def itemPart : Part (List Form) := ⟨itemYield, renderItem, id, fun _ => List.cons_ne_nil _ _,
  fun fs s => values_renderForms fs (s.write "<li>")⟩

@[simp] theorem formsAll_itemPart (items : List (List Form)) :
    itemPart.formsAll items = items.flatten :=
  List.flatMap_id

theorem values_renderItems (items : List (List Form)) (s : Sheet) :
    (renderItems items s).values = bindForms items.flatten s.values := by
  have h : (renderItems items s).values = bindForms (itemPart.formsAll items) s.values :=
    itemPart.values_renderAll items s
  rw [h, formsAll_itemPart]

theorem BodyItem.yield_ne_nil (b : BodyItem lists) : b.yield ≠ [] := by
  cases b with
  | form f => exact f.yield_ne_nil
  | paragraph fs => exact List.cons_ne_nil _ _
  | list _ items => exact List.cons_ne_nil _ _

theorem BodyItem.values_render (b : BodyItem lists) (s : Sheet) :
    (b.render s).values = bindForms b.forms s.values := by
  cases b with
  | form f => exact f.values_render s
  | paragraph fs => exact values_renderForms fs (s.write "<p>")
  | list _ items => exact values_renderItems items (s.write "<ul>\n")

def bodyPart : Part (BodyItem lists) := ⟨BodyItem.yield, BodyItem.render, BodyItem.forms,
  BodyItem.yield_ne_nil, BodyItem.values_render⟩

def headPart : Part HeadItem where
  yield := HeadItem.yield
  render := HeadItem.render
  forms _ := []
  yield_ne_nil h := by cases h <;> exact List.cons_ne_nil _ _
  values_render h s := by cases h <;> rfl

def commentPart : Part (Words .tldr) where
  yield := commentYield
  render ws s := s.tell (.diagnostic (.comment (phraseOf ws.val)))
  forms _ := []
  yield_ne_nil _ := List.cons_ne_nil _ _
  values_render _ _ := rfl

theorem formsAll_headPart (items : List HeadItem) : headPart.formsAll items = [] :=
  headPart.formsAll_eq_nil (fun _ => rfl) items

theorem formsAll_commentPart (comments : List (Words .tldr)) : commentPart.formsAll comments = [] :=
  commentPart.formsAll_eq_nil (fun _ => rfl) comments

theorem values_renderHead (head : Option (List HeadItem)) (s : Sheet) :
    (renderHead head s).values = s.values := by
  cases head with
  | none => rfl
  | some items =>
    have h := headPart.values_renderAll items s
    rw [formsAll_headPart] at h
    exact h

theorem values_renderComments (comments : List (Words .tldr)) (s : Sheet) :
    (renderComments comments s).values = s.values := by
  have h := commentPart.values_renderAll comments s
  rw [formsAll_commentPart] at h
  exact h

end Shoutmark.Document
