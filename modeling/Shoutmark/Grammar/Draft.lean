import Shoutmark.Cursor
import Shoutmark.Event
import Shoutmark.Keyword
import Shoutmark.Variables

/-! A page in the making. -/

namespace Shoutmark

/-- What has been read and written so far: the tokens left, the pieces of the page in order, the
values of the variables, the title given last, and what there is to tell. -/
structure Draft where
  cursor : Cursor
  html : Array String
  values : Variables
  title : Option String
  events : Array Event

namespace Draft

/-- Nothing is read and nothing is written. -/
def start (tokens : List String) : Draft := ⟨.start tokens, #[], .empty, none, #[]⟩

def page (d : Draft) : String := String.join d.html.toList

def diagnostics (d : Draft) : List String := diagnosticLines d.events.toList

def remaining (d : Draft) : Nat := d.cursor.remaining

/-- The token at hand is this keyword, in any ASCII case. -/
def at? (d : Draft) (k : Keyword) : Bool := Text.sameWord d.cursor.token k.spelling

/-- There is a token at hand, and it is not this keyword. -/
def before? (d : Draft) (k : Keyword) : Bool := !d.at? k && !d.cursor.exhausted

def advance (d : Draft) : Draft := { d with cursor := d.cursor.advance }

def write (piece : String) (d : Draft) : Draft := { d with html := d.html.push piece }

def tell (e : Event) (d : Draft) : Draft := { d with events := d.events.push e }

def define (name value : String) (d : Draft) : Draft :=
  { d with values := d.values.set name value }

def entitle (title : String) (d : Draft) : Draft := { d with title := some title }

theorem remaining_advance_le (d : Draft) : d.advance.remaining ≤ d.remaining :=
  Cursor.remaining_advance_le d.cursor

theorem remaining_advance_lt {d : Draft} (h : d.cursor.token ≠ "") :
    d.advance.remaining < d.remaining :=
  Cursor.remaining_advance_lt h

theorem at?_iff {d : Draft} {k : Keyword} :
    d.at? k = true ↔ Keyword.ofWord? d.cursor.token = some k :=
  Keyword.sameWord_spelling_iff

theorem token_ne_empty_of_before? {d : Draft} {k : Keyword} (h : d.before? k = true) :
    d.cursor.token ≠ "" := by
  simp only [before?, Cursor.exhausted, Bool.and_eq_true, Bool.not_eq_true',
    beq_eq_false_iff_ne] at h
  exact h.2

end Draft

end Shoutmark
