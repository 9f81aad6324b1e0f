import Shoutmark.Text.Blank

/-! Patterns that a text is tried against from its start. Letters match in either case, and beside
the ASCII letters a few others count as an s, a k or an i. -/

namespace Shoutmark.Highlight

/-- How many characters a pattern takes from the start of a text, if it fits there. -/
abbrev Pattern := List Char → Option Nat

/-- The letter outside ASCII counts as the ASCII letter: the long s as an s, the Kelvin sign as a
k, and the dotted capital and the dotless small i as an i. -/
def standsFor (c letter : Char) : Bool :=
  (c == '\u017F' && letter.toLower == 's') || (c == '\u212A' && letter.toLower == 'k') ||
    ((c == '\u0130' || c == '\u0131') && letter.toLower == 'i')

/-- The character matches the letter of a pattern. -/
def fitsLetter (letter c : Char) : Bool := letter.toLower == c.toLower || standsFor c letter

/-- A fixed text in any case. -/
def literal : List Char → Pattern
  | [], _ => some 0
  | _ :: _, [] => none
  | l :: ls, c :: cs => if fitsLetter l c then (literal ls cs).map (· + 1) else none

/-- The longest run of characters of a sort, one at least. -/
def run (p : Char → Bool) : Pattern := fun cs =>
  match (cs.takeWhile p).length with
  | 0 => none
  | n + 1 => some (n + 1)

def single (p : Char → Bool) : Pattern
  | c :: _ => if p c then some 1 else none
  | [] => none

/-- The first pattern and after it the second. -/
def Pattern.followedBy (p q : Pattern) : Pattern := fun cs => do
  let n ← p cs
  let m ← q (cs.drop n)
  return n + m

def Pattern.orNothing (p : Pattern) : Pattern := fun cs => some ((p cs).getD 0)

/-- No word goes on here. -/
def atWordEnd : List Char → Bool
  | [] => true
  | c :: _ => Text.isBlank c

/-- The pattern where it ends with a word. -/
def Pattern.toWordEnd (p : Pattern) : Pattern := fun cs =>
  (p cs).filter fun n => atWordEnd (cs.drop n)

def firstOf (ps : List Pattern) : Pattern := fun cs => ps.findSome? fun p => p cs

def isWordChar (c : Char) : Bool := !Text.isBlank c

def blanks : Pattern := run Text.isBlank

def word : Pattern := run isWordChar

/-- A web address with or without a '#' before it. -/
def link : Pattern :=
  (literal ['#']).orNothing.followedBy <| (literal "http".toList).followedBy <|
    (literal ['s']).orNothing.followedBy <| (literal "://".toList).followedBy word

end Shoutmark.Highlight
