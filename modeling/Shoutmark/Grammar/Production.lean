import Shoutmark.Error
import Shoutmark.Grammar.Draft
import Shoutmark.Text.Blank

/-! What the rules of the grammar are built from. A production reads tokens and extends a draft;
what it did before a fault stays done. A production that consumes leaves less to read whenever it
succeeds, so a loop over it ends without a bound being given. -/

namespace Shoutmark.Grammar

abbrev Production (α : Type) := EStateM Fault Draft α

/-- The draft that a production leaves, after a fault too. -/
def draftOf {α : Type} : EStateM.Result Fault Draft α → Draft
  | .ok _ d => d
  | .error _ d => d

/-- Never leaves more to read than it found, not even after a fault. -/
def Keeps {α : Type} (p : Production α) : Prop :=
  ∀ d, (draftOf (p d)).remaining ≤ d.remaining

/-- Leaves less to read whenever it succeeds. -/
def Consumes {α : Type} (p : Production α) : Prop :=
  ∀ d a d', p d = .ok a d' → d'.remaining < d.remaining

/-- Leaves less to read whenever it succeeds from a draft with the given property. -/
def ConsumesIf {α : Type} (go : Draft → Bool) (p : Production α) : Prop :=
  ∀ d a d', go d = true → p d = .ok a d' → d'.remaining < d.remaining

theorem Consumes.consumesIf {α : Type} {p : Production α} (h : Consumes p) (go : Draft → Bool) :
    ConsumesIf go p :=
  fun d a d' _ hd => h d a d' hd

theorem Keeps.le {α : Type} {p : Production α} (h : Keeps p) {d d' : Draft} {a : α}
    (hd : p d = .ok a d') : d'.remaining ≤ d.remaining := by
  have := h d
  rw [hd] at this
  exact this

theorem bind_apply {α β : Type} (p : Production α) (f : α → Production β) (d : Draft) :
    (p >>= f) d = match p d with
      | .ok a d' => f a d'
      | .error e d' => .error e d' := by
  simp only [bind, EStateM.bind]
  cases p d <;> rfl

theorem Keeps.bind {α β : Type} {p : Production α} {f : α → Production β} (hp : Keeps p)
    (hf : ∀ a, Keeps (f a)) : Keeps (p >>= f) := by
  intro d
  rw [bind_apply]
  cases h : p d with
  | ok a d' => exact Nat.le_trans (hf a d') (hp.le h)
  | error e d' =>
    have := hp d
    rw [h] at this
    exact this

theorem Consumes.bind {α β : Type} {p : Production α} {f : α → Production β} (hp : Consumes p)
    (hf : ∀ a, Keeps (f a)) : Consumes (p >>= f) := by
  intro d b d' h
  rw [bind_apply] at h
  cases hd : p d with
  | ok a d₁ =>
    rw [hd] at h
    exact Nat.lt_of_le_of_lt ((hf a).le h) (hp d a d₁ hd)
  | error e d₁ =>
    rw [hd] at h
    cases h

theorem Keeps.bind_consumes {α β : Type} {p : Production α} {f : α → Production β} (hp : Keeps p)
    (hf : ∀ a, Consumes (f a)) : Consumes (p >>= f) := by
  intro d b d' h
  rw [bind_apply] at h
  cases hd : p d with
  | ok a d₁ =>
    rw [hd] at h
    exact Nat.lt_of_lt_of_le (hf a d₁ b d' h) (hp.le hd)
  | error e d₁ =>
    rw [hd] at h
    cases h

/-! ### Single steps -/

def token : Production String := fun d => .ok d.cursor.token d

/-- The keyword at hand, if the token at hand is one. -/
def keyword? : Production (Option Keyword) := fun d => .ok (Keyword.ofWord? d.cursor.token) d

def advance : Production Unit := fun d => .ok () d.advance

def setToken (token : String) : Production Unit :=
  fun d => .ok () { d with cursor := d.cursor.set token }

def write (piece : String) : Production Unit := fun d => .ok () (d.write piece)

/-- Adds one piece to the page for every token, each with a space after it. -/
def writeSpaced (tokens : List String) : Production Unit :=
  fun d => .ok () { d with html := d.html ++ tokens.map (· ++ " ") }

def tell (e : Event) : Production Unit := fun d => .ok () (d.tell e)

/-- Reports a diagnostic. -/
def report (m : Diagnostic) : Production Unit := tell (.diagnostic m)

def define (name value : String) : Production Unit := fun d => .ok () (d.define name value)

def entitle (title : String) : Production Unit := fun d => .ok () (d.entitle title)

def fail {α : Type} (f : Fault) : Production α := fun d => .error f d

/-- Passes the token at hand, which must be the same word as the one given. -/
def matchWord (expected : String) : Production Unit := fun d =>
  if Text.sameWord d.cursor.token expected then .ok () d.advance
  else .error (.mismatch expected d.cursor.token) d

/-- Passes the token at hand, which must be this keyword. -/
def expect (k : Keyword) : Production Unit := matchWord k.spelling

/-- Takes the token at hand, whatever it is. -/
def take : Production String := fun d => .ok d.cursor.token d.advance

/-- Takes the tokens up to the given word or the end of the input, and leaves that word. -/
def collect (terminator : String) : Production (List String) := fun d =>
  if Text.sameWord d.cursor.token terminator || d.cursor.exhausted then .ok [] d
  else
    match collect terminator d.advance with
    | .ok tokens d' => .ok (d.cursor.token :: tokens) d'
    | .error e d' => .error e d'
termination_by d => d.remaining
decreasing_by
  rename_i h
  exact Draft.remaining_advance_lt fun ht => h (by simp [Cursor.exhausted, ht])

/-- The tokens up to a keyword as one text, a space between two of them and no blanks around. -/
def phrase (terminator : Keyword) : Production String := do
  let tokens ← collect terminator.spelling
  return Text.strip (" ".intercalate tokens)

/-- Repeats a step as long as the draft has the given property. -/
def repeatWhile (go : Draft → Bool) (step : Production Unit) (h : ConsumesIf go step) :
    Production Unit := fun d =>
  if _ : go d = true then
    match _ : step d with
    | .ok () d' => repeatWhile go step h d'
    | .error e d' => .error e d'
  else .ok () d
termination_by d => d.remaining
decreasing_by exact h _ _ _ ‹_› ‹_›

section

variable {go : Draft → Bool} {step : Production Unit} {h : ConsumesIf go step} {d d' : Draft}

theorem repeatWhile_done (hg : go d = false) : repeatWhile go step h d = .ok () d := by
  rw [repeatWhile, dif_neg (by rw [hg]; decide)]

theorem repeatWhile_turn (hg : go d = true) (hs : step d = .ok () d') :
    repeatWhile go step h d = repeatWhile go step h d' := by
  rw [repeatWhile, dif_pos hg]
  split <;> simp_all

theorem repeatWhile_fault {e : Fault} (hg : go d = true) (hs : step d = .error e d') :
    repeatWhile go step h d = .error e d' := by
  rw [repeatWhile, dif_pos hg]
  split <;> simp_all

end

/-! ### How much they read -/

theorem keeps_token : Keeps token := fun _ => Nat.le_refl _
theorem keeps_keyword? : Keeps keyword? := fun _ => Nat.le_refl _
theorem keeps_advance : Keeps advance := fun d => d.remaining_advance_le
theorem keeps_write (piece : String) : Keeps (write piece) := fun _ => Nat.le_refl _
theorem keeps_writeSpaced (tokens : List String) : Keeps (writeSpaced tokens) :=
  fun _ => Nat.le_refl _
theorem keeps_tell (e : Event) : Keeps (tell e) := fun _ => Nat.le_refl _
theorem keeps_report (m : Diagnostic) : Keeps (report m) := keeps_tell _
theorem keeps_define (name value : String) : Keeps (define name value) := fun _ => Nat.le_refl _
theorem keeps_entitle (title : String) : Keeps (entitle title) := fun _ => Nat.le_refl _
theorem keeps_fail {α : Type} (f : Fault) : Keeps (fail f : Production α) := fun _ => Nat.le_refl _
theorem keeps_pure {α : Type} (a : α) : Keeps (pure a : Production α) := fun _ => Nat.le_refl _
theorem keeps_take : Keeps take := fun d => d.remaining_advance_le

theorem consumes_fail {α : Type} (f : Fault) : Consumes (fail f : Production α) := by
  intro d a d' h
  cases h

theorem keeps_matchWord (expected : String) : Keeps (matchWord expected) := by
  intro d
  unfold matchWord
  split
  · exact d.remaining_advance_le
  · exact Nat.le_refl _

theorem consumes_matchWord {expected : String} (h : expected ≠ "") :
    Consumes (matchWord expected) := by
  intro d a d' hd
  unfold matchWord at hd
  split at hd
  · rename_i hs
    cases hd
    exact Draft.remaining_advance_lt (Text.ne_empty_of_sameWord h hs)
  · cases hd

theorem keeps_expect (k : Keyword) : Keeps (expect k) := keeps_matchWord _

theorem consumes_expect (k : Keyword) : Consumes (expect k) :=
  consumes_matchWord k.spelling_ne_empty

theorem keeps_collect (terminator : String) : Keeps (collect terminator) := by
  intro d
  fun_induction collect terminator d with
  | case1 d h => exact Nat.le_refl _
  | case2 d h tokens d' hr ih =>
    rw [hr] at ih
    exact Nat.le_trans ih d.remaining_advance_le
  | case3 d h e d' hr ih =>
    rw [hr] at ih
    exact Nat.le_trans ih d.remaining_advance_le

theorem keeps_phrase (k : Keyword) : Keeps (phrase k) :=
  (keeps_collect _).bind fun _ => keeps_pure _

theorem keeps_repeatWhile {go : Draft → Bool} {step : Production Unit}
    (h : ConsumesIf go step) (hk : Keeps step) : Keeps (repeatWhile go step h) := by
  intro d
  fun_induction repeatWhile go step h d with
  | case1 d hg d' hs ih => exact Nat.le_trans ih (hk.le hs)
  | case2 d hg e d' hs =>
    have := hk d
    rw [hs] at this
    exact this
  | case3 d hg => exact Nat.le_refl _

end Shoutmark.Grammar
