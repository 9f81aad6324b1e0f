import Shoutmark.Text.Blank
import Shoutmark.Text.Lines

/-! Files that list settings, one NAME=value a line. A line may begin with the word export, a '#'
opens a comment, and a value may stand in single or double quotes, where it may run over several
lines. A line of any other form is passed over, and so is a byte order mark at the start. -/

namespace Shoutmark.EnvironmentFile

/-- A name with its value; a name that stands alone has none. -/
structure Entry where
  name : String
  value : Option String
  deriving DecidableEq, Repr

def isInlineBlank (c : Char) : Bool := Text.isBlank c && c != '\n'

def skipInline (cs : List Char) : List Char := cs.dropWhile isInlineBlank

/-- The text after the line on which it starts. -/
def skipLine (cs : List Char) : List Char := (cs.dropWhile (· != '\n')).drop 1

/-- The text after an optional comment and the end of the line, if nothing else stands before. -/
def endOfLine (cs : List Char) : Option (List Char) :=
  match skipInline cs with
  | [] => some []
  | '\n' :: rest => some rest
  | '#' :: rest => some (skipLine rest)
  | _ => none

/-- The text after the word export and the blanks behind it. -/
def skipExport (cs : List Char) : List Char :=
  let rest := cs.drop 6
  if cs.take 6 = "export".toList ∧ (rest.head?.any isInlineBlank) then skipInline rest else cs

/-- A name, in single quotes or up to the next blank, '=' or '#'. -/
def name (cs : List Char) : Option (List Char × List Char) :=
  let nonempty (part rest : List Char) := if part = [] then none else some (part, rest)
  match cs with
  | '\'' :: inside =>
    match inside.dropWhile (· != '\'') with
    | _ :: rest => nonempty (inside.takeWhile (· != '\'')) rest
    | [] => none
  | _ =>
    let stays (c : Char) := c != '=' && c != '#' && !Text.isBlank c
    nonempty (cs.takeWhile stays) (cs.dropWhile stays)

/-- The text up to the mark that closes a quotation and the text after it. A backslash and the
character behind it stand together, so such a mark closes nothing. -/
def quotation (mark : Char) : List Char → Option (List Char × List Char)
  | [] => none
  | '\\' :: c :: rest => (quotation mark rest).map fun r => ('\\' :: c :: r.1, r.2)
  | c :: rest =>
    if c = mark then some ([], rest) else (quotation mark rest).map fun r => (c :: r.1, r.2)

/-- What a letter behind a backslash stands for in double quotes. -/
def escapes : List (Char × Char) :=
  [('\\', '\\'), ('\'', '\''), ('"', '"'), ('a', '\x07'), ('b', '\x08'), ('f', '\x0c'),
   ('n', '\n'), ('r', '\r'), ('t', '\t'), ('v', '\x0b')]

def unescape (table : List (Char × Char)) : List Char → List Char
  | '\\' :: c :: rest =>
    match table.lookup c with
    | some d => d :: unescape table rest
    | none => '\\' :: unescape table (c :: rest)
  | c :: rest => c :: unescape table rest
  | [] => []

/-- A value without quotes ends before a comment that follows a blank. -/
def cutComment : List Char → List Char
  | [] => []
  | c :: rest =>
    if Text.isBlank c && (rest.dropWhile Text.isBlank).head? = some '#' then []
    else c :: cutComment rest

def trimEnd (cs : List Char) : List Char := (cs.reverse.dropWhile Text.isBlank).reverse

/-- A value without quotes: the rest of the line less its comment and the blanks at both ends. -/
def bareValue (cs : List Char) : List Char :=
  skipInline (trimEnd (cutComment (cs.takeWhile (· != '\n'))))

def value (cs : List Char) : Option (List Char × List Char) :=
  match skipInline cs with
  | '\'' :: inside =>
    (quotation '\'' inside).map fun r => (unescape (escapes.take 2) r.1, r.2)
  | '"' :: inside => (quotation '"' inside).map fun r => (unescape escapes r.1, r.2)
  | _ => some (bareValue cs, cs.dropWhile (· != '\n'))

/-- The entry at the start of a text that starts with no blank, and the text after its line; no
entry if the line is a comment or of another form. -/
def line (cs : List Char) : Option Entry × List Char :=
  let cs := skipExport cs
  match cs with
  | '#' :: rest => (none, skipLine rest)
  | _ =>
    match name cs with
    | none => (none, skipLine cs)
    | some (part, rest) =>
      match skipInline rest with
      | '=' :: rest =>
        match value rest with
        | none => (none, skipLine rest)
        | some (v, rest) =>
          match endOfLine rest with
          | some after => (some ⟨String.ofList part, some (String.ofList v)⟩, after)
          | none => (none, skipLine rest)
      | rest =>
        match endOfLine rest with
        | some after => (some ⟨String.ofList part, none⟩, after)
        | none => (none, skipLine rest)

/-- The entries of a text, line after line. Every line takes something of the text; a text of which
nothing were taken would end the reading. -/
def entriesOf (cs : List Char) : List Entry :=
  let text := cs.dropWhile Text.isBlank
  let (entry, rest) := line text
  if rest.length < cs.length then entry.toList ++ entriesOf rest else entry.toList
termination_by cs.length

def entries (content : String) : List Entry :=
  entriesOf (Text.unifyLineEnds (Text.dropByteOrderMark content.toList))

end Shoutmark.EnvironmentFile
