import Shoutmark.Text.Blank

/-! Browsers by name. A name with the mark '%s' in it is a command line, in which the mark stands for
the address of the page; any other name is looked up, and its first word is the program to look
for. -/

namespace Shoutmark.Browser

/-- Why a name can be neither taken as a command line nor looked up. -/
inductive Fault
  /-- There is no word in the name. -/
  | noWord
  /-- The command line ends inside a quotation. -/
  | openQuotation
  /-- The command line ends behind a backslash. -/
  | openEscape
  deriving DecidableEq, Repr

def Fault.message : Fault → String
  | .noWord => "list index out of range"
  | .openQuotation => "No closing quotation"
  | .openEscape => "No escaped character"

/-- What comes of asking for a browser by name. -/
inductive Answer
  | found
  /-- No browser goes by the name. -/
  | unknown
  | faulty (fault : Fault)
  deriving DecidableEq, Repr

def isCommand : List Char → Bool
  | '%' :: 's' :: _ => true
  | _ :: rest => isCommand rest
  | [] => false

/-- Where in a command line a character stands: the mark of the quotation it is in, and whether a
backslash stands right before it. -/
structure Quoting where
  mark : Option Char := none
  escaped : Bool := false
  deriving DecidableEq, Repr

/-- What a character does to the quotation. In single quotes a backslash is a character like any
other. -/
def Quoting.after (q : Quoting) (c : Char) : Quoting :=
  if q.escaped then { q with escaped := false }
  else if c = '\\' ∧ q.mark ≠ some '\'' then { q with escaped := true }
  else
    match q.mark with
    | none => if c = '\'' ∨ c = '"' then { q with mark := some c } else q
    | some mark => if c = mark then { q with mark := none } else q

/-- What is wrong with a command line that ends here. -/
def Quoting.fault? (q : Quoting) : Option Fault :=
  if q.escaped then some .openEscape else if q.mark.isSome then some .openQuotation else none

def commandFault? (command : List Char) : Option Fault :=
  (command.foldl Quoting.after {}).fault?

/-- Asks for a browser by name, where some names are known. Whether the program of a command line is
there shows only when it is run. -/
def named (known : String → Bool) (name : String) : Answer :=
  if isCommand name.toList then
    match commandFault? name.toList with
    | some fault => .faulty fault
    | none => .found
  else if known name then .found
  else if name.toList.all Text.isBlank then .faulty .noWord
  else .unknown

end Shoutmark.Browser
