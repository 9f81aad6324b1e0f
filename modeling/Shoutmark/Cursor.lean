/-! A place in a list of tokens. Reading past the end never fails: the token at hand becomes empty
and stays so. -/

namespace Shoutmark

/-- The tokens being read, the place among them and the token at hand. The token at hand is kept
apart, for it may be replaced, and it is empty once the tokens are used up. -/
structure Cursor where
  tokens : Array String
  position : Nat
  token : String
  deriving DecidableEq, Repr

namespace Cursor

/-- At the first token, or exhausted when there is none. -/
def start (tokens : List String) : Cursor := ⟨tokens.toArray, 0, tokens.headD ""⟩

/-- The tokens after the place. -/
def ahead (c : Cursor) : List String := c.tokens.toList.drop (c.position + 1)

/-- Moves to the next token. At the last one the place stays and the token at hand is empty. -/
def advance (c : Cursor) : Cursor :=
  match c.tokens[c.position + 1]? with
  | some token => { c with position := c.position + 1, token }
  | none => { c with token := "" }

def set (token : String) (c : Cursor) : Cursor := { c with token }

def exhausted (c : Cursor) : Bool := c.token == ""

/-- How much is left to read: the tokens after the place, and the one at hand. -/
def remaining (c : Cursor) : Nat := c.ahead.length + if c.token = "" then 0 else 1

@[simp] theorem exhausted_iff (c : Cursor) : c.exhausted = true ↔ c.token = "" := by
  simp [exhausted]

@[simp] theorem tokens_advance (c : Cursor) : c.advance.tokens = c.tokens := by
  unfold advance
  split <;> rfl

theorem ahead_advance (c : Cursor) : c.advance.ahead = c.ahead.tail := by
  unfold advance ahead
  split
  · simp [List.tail_drop]
  · rename_i h
    have hl : c.tokens.toList.length ≤ c.position + 1 := Array.getElem?_eq_none_iff.mp h
    simp [List.drop_eq_nil_of_le hl]

theorem token_advance (c : Cursor) : c.advance.token = c.ahead.headD "" := by
  unfold advance ahead
  split
  · rename_i t h
    simp [List.headD_eq_head?_getD, List.head?_drop, h]
  · rename_i h
    simp [List.headD_eq_head?_getD, List.head?_drop, h]

theorem remaining_advance_le (c : Cursor) : c.advance.remaining ≤ c.remaining := by
  unfold remaining
  rw [ahead_advance, token_advance]
  cases c.ahead with
  | nil => simp
  | cons t rest =>
    simp only [List.tail_cons, List.headD_cons, List.length_cons]
    grind

theorem remaining_advance_lt {c : Cursor} (h : c.token ≠ "") :
    c.advance.remaining < c.remaining := by
  unfold remaining
  rw [ahead_advance, token_advance, if_neg h]
  cases c.ahead with
  | nil => simp
  | cons t rest =>
    simp only [List.tail_cons, List.headD_cons, List.length_cons]
    grind

end Cursor

end Shoutmark
