import Shoutmark.Proofs.Reading.Growth

/-! What single productions do to a draft, wherever it stands and however they end: relations that
lead from a draft to what comes of it, productions whose faults leave nothing behind, and the two
productions that change more than the page. -/

namespace Shoutmark.Reading
open Shoutmark.Grammar

/-! ### Relations that productions respect -/

/-- The production leads from every draft to a related one, after a fault too. -/
def Respects (R : Draft → Draft → Prop) {α : Type} (p : Production α) : Prop :=
  ∀ d, R d (draftOf (p d))

/-- Holds between a draft and itself and across tokens, and is handed on. -/
structure Onward (R : Draft → Draft → Prop) : Prop where
  refl (d : Draft) : R d d
  trans {d d' d'' : Draft} : R d d' → R d' d'' → R d d''
  advance (d : Draft) : R d d.advance

variable {R : Draft → Draft → Prop} {α β : Type}

namespace Onward

theorem bind (hR : Onward R) {p : Production α} {f : α → Production β} (hp : Respects R p)
    (hf : ∀ a, Respects R (f a)) : Respects R (p >>= f) := by
  intro d
  have hd := hp d
  rw [bind_apply]
  cases h : p d with
  | ok a d' =>
    rw [h] at hd
    exact hR.trans hd (hf a d')
  | error e d' =>
    rw [h] at hd
    exact hd

theorem pure (hR : Onward R) (a : α) : Respects R (Pure.pure a : Production α) := hR.refl
theorem fail (hR : Onward R) (f : Fault) : Respects R (Grammar.fail f : Production α) := hR.refl
theorem token (hR : Onward R) : Respects R Grammar.token := hR.refl
theorem keyword? (hR : Onward R) : Respects R Grammar.keyword? := hR.refl
theorem pass (hR : Onward R) : Respects R Grammar.advance := hR.advance
theorem take (hR : Onward R) : Respects R Grammar.take := hR.advance

theorem matchWord (hR : Onward R) (word : String) : Respects R (Grammar.matchWord word) := by
  intro d
  unfold Grammar.matchWord
  split
  · exact hR.advance d
  · exact hR.refl d

theorem expect (hR : Onward R) (k : Keyword) : Respects R (Grammar.expect k) :=
  hR.matchWord k.spelling

theorem collect (hR : Onward R) (word : String) : Respects R (Grammar.collect word) := by
  intro d
  fun_induction Grammar.collect word d with
  | case1 d _ => exact hR.refl d
  | case2 d _ tokens d' hr ih =>
    rw [hr] at ih
    exact hR.trans (hR.advance d) ih
  | case3 d _ e d' hr ih =>
    rw [hr] at ih
    exact hR.trans (hR.advance d) ih

theorem phrase (hR : Onward R) (k : Keyword) : Respects R (Grammar.phrase k) :=
  hR.bind (hR.collect _) fun _ => hR.pure _

theorem repeatWhile (hR : Onward R) {go : Draft → Bool} {body : Production Unit}
    (h : ConsumesIf go body) (hb : Respects R body) : Respects R (repeatWhile go body h) := by
  intro d
  fun_induction Grammar.repeatWhile go body h d with
  | case1 d _ d' hs ih =>
    have hd := hb d
    rw [hs] at hd
    exact hR.trans hd ih
  | case2 d _ e d' hs =>
    have hd := hb d
    rw [hs] at hd
    exact hd
  | case3 d _ => exact hR.refl d

end Onward

/-! ### What is only read -/

theorem onward_sameSheet : Onward fun d d' => d'.sheet = d.sheet :=
  ⟨fun _ => rfl, fun h h' => h'.trans h, fun _ => rfl⟩

/-- A fault leaves the sheet as it was. -/
def FailsClean (p : Production α) : Prop := ∀ d f d', p d = .error f d' → d'.sheet = d.sheet

theorem error_of_bind {p : Production α} {f : α → Production β} {d d' : Draft} {e : Fault}
    (h : (p >>= f) d = .error e d') :
    p d = .error e d' ∨ ∃ a d₁, p d = .ok a d₁ ∧ f a d₁ = .error e d' := by
  rw [bind_apply] at h
  cases hp : p d with
  | ok a d₁ =>
    rw [hp] at h
    exact Or.inr ⟨a, d₁, rfl, h⟩
  | error e₁ d₁ =>
    rw [hp] at h
    cases h
    exact Or.inl rfl

theorem ok_of_bind {p : Production α} {f : α → Production β} {d d' : Draft} {b : β}
    (h : (p >>= f) d = .ok b d') : ∃ a d₁, p d = .ok a d₁ ∧ f a d₁ = .ok b d' := by
  rw [bind_apply] at h
  cases hp : p d with
  | ok a d₁ =>
    rw [hp] at h
    exact ⟨a, d₁, rfl, h⟩
  | error e d₁ =>
    rw [hp] at h
    cases h

/-- What only reads may come before what fails clean. -/
theorem FailsClean.after {p : Production α} {f : α → Production β}
    (hp : Respects (fun d d' => d'.sheet = d.sheet) p) (hf : ∀ a, FailsClean (f a)) :
    FailsClean (p >>= f) := by
  intro d e d' h
  have hd := hp d
  rcases error_of_bind h with h | ⟨a, d₁, h, h'⟩
  · rw [h] at hd
    exact hd
  · rw [h] at hd
    exact (hf a d₁ e d' h').trans hd

theorem failsClean_comment : FailsClean comment :=
  .after (onward_sameSheet.expect _) fun _ => .after (onward_sameSheet.phrase _) fun _ =>
    .after (onward_sameSheet.expect _) fun _ => nofun

theorem failsClean_media (word : String) : FailsClean (media word) :=
  .after (onward_sameSheet.matchWord _) fun _ => .after onward_sameSheet.take fun _ =>
    .after (onward_sameSheet.expect _) fun _ => nofun

theorem failsClean_bind {p : Production α} {f : α → Production β} (hp : FailsClean p)
    (hf : ∀ a d e d', f a d ≠ .error e d') : FailsClean (p >>= f) := by
  intro d e d' h
  rcases error_of_bind h with h | ⟨a, d₁, -, h⟩
  · exact hp d e d' h
  · exact absurd h (hf a d₁ e d')

theorem failsClean_audio : FailsClean audio := failsClean_bind (failsClean_media _) nofun

theorem failsClean_video : FailsClean video := failsClean_bind (failsClean_media _) nofun

theorem failsClean_writeValue (name : String) : FailsClean (writeValue name) := by
  intro d f d' h
  rw [writeValue_apply] at h
  split at h
  · cases h
  · cases h
    rfl

theorem failsClean_useVariable : FailsClean useVariable :=
  .after (onward_sameSheet.expect _) fun _ => .after (onward_sameSheet.expect _) fun _ =>
    .after onward_sameSheet.take fun _ => .after (onward_sameSheet.expect _) fun _ =>
      failsClean_writeValue _

/-! ### The definition of a variable -/

theorem expect_of {P : EStateM.Result Fault Draft α → Prop} {k : Keyword} {F : Production α}
    {d : Draft} (refused : P (.error (.mismatch k.spelling d.cursor.token) d))
    (passed : P (F d.advance)) : P ((expect k >>= fun _ => F) d) := by
  rw [bind_apply, expect_apply]
  by_cases h : Keyword.ofWord? d.cursor.token = some k
  · rw [if_pos h]
    exact passed
  · rw [if_neg h]
    exact refused

theorem collect_ok (word : String) (d : Draft) :
    ∃ words d', collect word d = .ok words d' ∧ d'.sheet = d.sheet ∧
      (Text.sameWord d'.cursor.token word = true ∨ d'.cursor.token = "") := by
  fun_induction collect word d with
  | case1 d h => exact ⟨[], d, rfl, rfl, by simpa using h⟩
  | case2 d h tokens d' hr ih =>
    obtain ⟨words, e, he, hs, ht⟩ := ih
    rw [hr] at he
    cases he
    exact ⟨_, _, rfl, hs, ht⟩
  | case3 d h e d' hr ih =>
    obtain ⟨words, d'', he, -⟩ := ih
    rw [hr] at he
    cases he

/-- The name that a definition reads if it starts here. -/
def definedName (d : Draft) : String := d.advance.advance.cursor.token

/-- Where a definition that starts here reads the words of its value. -/
def valueStart (d : Draft) : Draft := d.advance.advance.advance.advance.advance

@[simp] theorem sheet_valueStart (d : Draft) : (valueStart d).sheet = d.sheet := by
  simp [valueStart]

/-- How a definition may end. One that lacks one of its first words changes nothing; one that has
them gives the variable its value, and then its closing word is there or the input is at its
end. -/
inductive DefinitionEnd (d : Draft) : EStateM.Result Fault Draft Unit → Prop
  | refused {k : Keyword} {d' : Draft} : k ∈ [Keyword.i, .haz, .it, .iz] →
      d'.sheet = d.sheet →
      DefinitionEnd d (.error (.mismatch k.spelling d'.cursor.token) d')
  | closed {words : List String} {d' : Draft} :
      collect Keyword.mkay.spelling (valueStart d) = .ok words d' → d'.sheet = d.sheet →
      DefinitionEnd d (.ok () ((d'.define (definedName d) (phraseOf words)).advance.tell
        (.variableDefined (definedName d) (phraseOf words))))
  | unclosed {words : List String} {d' : Draft} :
      collect Keyword.mkay.spelling (valueStart d) = .ok words d' → d'.sheet = d.sheet →
      DefinitionEnd d (.error (.mismatch Keyword.mkay.spelling "")
        (d'.define (definedName d) (phraseOf words)))

def definitionRest (name : String) : Production Unit := do
  let value ← phrase .mkay
  define name value
  expect .mkay
  tell (.variableDefined name value)

theorem definitionRest_cases (name : String) (d : Draft) :
    ∃ words d', collect Keyword.mkay.spelling d = .ok words d' ∧ d'.sheet = d.sheet ∧
      (definitionRest name d = .ok () ((d'.define name (phraseOf words)).advance.tell
          (.variableDefined name (phraseOf words))) ∨
        definitionRest name d = .error (.mismatch Keyword.mkay.spelling "")
          (d'.define name (phraseOf words))) := by
  obtain ⟨words, d', hw, hs, ht⟩ := collect_ok Keyword.mkay.spelling d
  have hphrase : phrase .mkay d = .ok (phraseOf words) d' := bind_ok hw
  have hrest : definitionRest name d =
      (expect .mkay >>= fun _ => tell (.variableDefined name (phraseOf words)))
        (d'.define name (phraseOf words)) := (bind_ok hphrase).trans (bind_ok rfl)
  have htoken : (d'.define name (phraseOf words)).cursor.token = d'.cursor.token := rfl
  refine ⟨words, d', hw, hs, ?_⟩
  rw [hrest]
  rcases ht with ht | ht
  · exact Or.inl (expect_at (Keyword.sameWord_spelling_iff.mp ht))
  · right
    refine bind_error ?_
    rw [expect_apply, htoken, ht, if_neg (by simp)]

theorem definitionEnd (d : Draft) : DefinitionEnd d (defineVariable d) := by
  rw [defineVariable]
  refine expect_of (P := DefinitionEnd d) (.refused (by decide) rfl) ?_
  refine expect_of (P := DefinitionEnd d) (.refused (by decide) rfl) ?_
  rw [bind_apply]
  refine expect_of (P := DefinitionEnd d) (.refused (by decide) rfl) ?_
  refine expect_of (P := DefinitionEnd d) (.refused (by decide) rfl) ?_
  show DefinitionEnd d (definitionRest (definedName d) (valueStart d))
  obtain ⟨words, d', hw, hs, hend⟩ := definitionRest_cases (definedName d) (valueStart d)
  rw [sheet_valueStart] at hs
  rcases hend with hend | hend
  · rw [hend]
    exact .closed hw hs
  · rw [hend]
    exact .unclosed hw hs

/-- What a definition does to the sheet: nothing, or it gives the variable its value and maybe
tells so. -/
theorem sheet_defineVariable (d : Draft) :
    (draftOf (defineVariable d)).sheet = d.sheet ∨
      ∃ words d', collect Keyword.mkay.spelling (valueStart d) = .ok words d' ∧
        ((draftOf (defineVariable d)).sheet = d.sheet.define (definedName d) (phraseOf words) ∨
          (draftOf (defineVariable d)).sheet =
            (d.sheet.define (definedName d) (phraseOf words)).tell
              (.variableDefined (definedName d) (phraseOf words))) := by
  have hend := definitionEnd d
  generalize defineVariable d = r at hend ⊢
  cases hend with
  | refused _ hs => exact Or.inl hs
  | @closed words d' hw hs =>
    refine Or.inr ⟨words, d', hw, Or.inr ?_⟩
    rw [← hs]
    rfl
  | @unclosed words d' hw hs =>
    refine Or.inr ⟨words, d', hw, Or.inl ?_⟩
    rw [← hs]
    rfl

/-! ### Titles -/

/-- The part of a title that may end in a fault. -/
def titleText : Production (List String) := do
  expect .gimmeh
  expect .title
  let words ← collect Keyword.mkay.spelling
  expect .mkay
  return words

def announceTitle (words : String) : Production Unit := do
  entitle words
  report (.title words)
  write ("<html><head><title>" ++ words ++ "</title></head><body>\n")

theorem title_eq : title = titleText >>= fun words => announceTitle (phraseOf words) := by
  simp only [title, titleText, phrase, phraseOf, announceTitle, bind_assoc, pure_bind]

theorem respects_titleText (hR : Onward R) : Respects R titleText :=
  hR.bind (hR.expect _) fun _ => hR.bind (hR.expect _) fun _ => hR.bind (hR.collect _) fun _ =>
    hR.bind (hR.expect _) fun _ => hR.pure _

/-- A title that is read to its end opens the page with its words. -/
theorem sheet_title {d d' : Draft} (h : title d = .ok () d') :
    ∃ words, d'.sheet = d.sheet.headline words := by
  rw [title_eq] at h
  obtain ⟨words, d₁, ht, h⟩ := ok_of_bind h
  have hd := respects_titleText onward_sameSheet d
  rw [ht] at hd
  cases h
  refine ⟨words, ?_⟩
  rw [← show d₁.sheet = d.sheet from hd]
  rfl

theorem title_error {d d' : Draft} {f : Fault} (h : title d = .error f d') :
    titleText d = .error f d' := by
  rw [title_eq] at h
  rcases error_of_bind h with h | ⟨words, d₁, -, h⟩
  · exact h
  · cases h

theorem failsClean_title : FailsClean title := by
  intro d f d' h
  have hd := respects_titleText onward_sameSheet d
  rw [title_error h] at hd
  exact hd

end Shoutmark.Reading
