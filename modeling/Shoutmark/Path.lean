import Shoutmark.Text.Lines
import Shoutmark.Text.Utf8

/-! Paths of files, kept in their shortest spelling: without empty parts and without the part '.',
while '..' is kept, for what it leads to is for the file system to say. -/

namespace Shoutmark

/-- The parts of a path, and how many slashes before them count: none for a path from the working
directory, one or exactly two for a path from the root. -/
structure Path where
  slashes : Nat
  parts : List String
  deriving DecidableEq, Repr

namespace Path

def root : Path := ⟨1, []⟩

def current : Path := ⟨0, []⟩

def ofString (s : String) : Path :=
  let slashes := (s.toList.takeWhile (· == '/')).length
  ⟨if slashes ≤ 2 then slashes else 1,
    ((Text.splitOn '/' s.toList).map String.ofList).filter fun part => part ≠ "" ∧ part ≠ "."⟩

instance : ToString Path where
  toString p :=
    if p.slashes = 0 ∧ p.parts = [] then "."
    else String.ofList (List.replicate p.slashes '/') ++ "/".intercalate p.parts

def isAbsolute (p : Path) : Bool := p.slashes ≠ 0

/-- The second path seen from the first. A path from the root stays as it is. -/
def join (p q : Path) : Path := if q.isAbsolute then q else { p with parts := p.parts ++ q.parts }

/-- The last part, empty if there is none. -/
def name (p : Path) : String := p.parts.getLastD ""

/-- A name with the character NUL in it. Nothing goes by such a name, nor can it be given one. -/
def holdsNul (p : Path) : Bool := p.parts.any fun part => part.toList.contains '\x00'

/-- The path without its last part. -/
def parent (p : Path) : Path := { p with parts := p.parts.dropLast }

/-- The names from the root down, seen from a working directory, with every '..' carried out. -/
def resolve (workingDirectory : List String) (p : Path) : List String :=
  let step (names : List String) (part : String) : List String :=
    if part = ".." then names.dropLast else names ++ [part]
  p.parts.foldl step (if p.isAbsolute then [] else workingDirectory)

/-- The octet may stand in a file URL as the character it is. -/
def isUrlOctet (b : UInt8) : Bool :=
  let c := Char.ofNat b.toNat
  b < 0x80 && (c.isAlphanum || ['_', '.', '-', '~', '/'].contains c)

/-- An octet of a file URL: itself, or a percent sign and two hexadecimal digits. -/
def urlOctet (b : UInt8) : List Char :=
  if isUrlOctet b then [Char.ofNat b.toNat]
  else ['%', (Nat.digitChar (b.toNat / 16)).toUpper, (Nat.digitChar (b.toNat % 16)).toUpper]

def url (workingDirectory : List String) (p : Path) : String :=
  let place := "/" ++ "/".intercalate (p.resolve workingDirectory)
  "file://" ++ String.ofList ((Text.Utf8.encode place).flatMap urlOctet)

end Path

end Shoutmark
