import Shoutmark.Path
import Shoutmark.Text.Quoted

/-! A tree of files as a value. A path is followed part by part, and each part but the last must
lead to a directory. -/

namespace Shoutmark

/-- Why a file operation is refused. -/
inductive FileFault
  | missing
  | exists
  | notDirectory
  | isDirectory
  deriving DecidableEq, Repr

def FileFault.code : FileFault → Nat
  | .missing => 2
  | .exists => 17
  | .notDirectory => 20
  | .isDirectory => 21

def FileFault.reason : FileFault → String
  | .missing => "No such file or directory"
  | .exists => "File exists"
  | .notDirectory => "Not a directory"
  | .isDirectory => "Is a directory"

/-- A refused operation with the path it was tried on. -/
structure FileError where
  fault : FileFault
  path : Path
  deriving DecidableEq, Repr

def FileError.message (e : FileError) : String :=
  "[Errno " ++ toString e.fault.code ++ "] " ++ e.fault.reason ++ ": " ++
    Text.quoted (toString e.path)

inductive Entry
  | directory
  | file (octets : List UInt8)
  deriving DecidableEq, Repr

/-- Directories and files by the names that lead to them from the root, which is a directory and is
not listed; and the working directory, from which paths that do not start at the root are
followed. -/
structure FileTree where
  workingDirectory : List String
  entries : List (List String × Entry)
  deriving DecidableEq, Repr

namespace FileTree

def lookup (t : FileTree) (place : List String) : Option Entry :=
  if place = [] then some .directory else t.entries.lookup place

/-- Puts an entry at a place, in the stead of the one that is there. -/
def insert (place : List String) (e : Entry) (t : FileTree) : FileTree :=
  { t with entries := (place, e) :: t.entries.filter fun old => old.1 ≠ place }

/-- Follows the parts of a path from a place. The last part need not lead to anything. -/
def walk (t : FileTree) (place : List String) : List String → Except FileFault (List String)
  | [] => .ok place
  | part :: rest =>
    match t.lookup place with
    | some .directory =>
      if part = ".." then t.walk place.dropLast rest else t.walk (place ++ [part]) rest
    | some (.file _) => .error .notDirectory
    | none => .error .missing

/-- The place that a path leads to. -/
def locate (t : FileTree) (p : Path) : Except FileFault (List String) :=
  t.walk (if p.isAbsolute then [] else t.workingDirectory) p.parts

def find (t : FileTree) (p : Path) : Except FileFault Entry := do
  let place ← t.locate p
  match t.lookup place with
  | some e => return e
  | none => .error .missing

/-- A path leads to a file. One that holds NUL leads nowhere. -/
def isFile (t : FileTree) (p : Path) : Bool :=
  !p.holdsNul && match t.find p with
    | .ok (.file _) => true
    | _ => false

def isDirectory (t : FileTree) (p : Path) : Bool :=
  !p.holdsNul && match t.find p with
    | .ok .directory => true
    | _ => false

def contains (t : FileTree) (p : Path) : Bool := t.isFile p || t.isDirectory p

def read (t : FileTree) (p : Path) : Except FileError (List UInt8) :=
  match t.find p with
  | .ok (.file octets) => .ok octets
  | .ok .directory => .error ⟨.isDirectory, p⟩
  | .error f => .error ⟨f, p⟩

/-- Makes the file at a path hold these octets, be it there or not. -/
def write (p : Path) (octets : List UInt8) (t : FileTree) : Except FileError FileTree :=
  match t.locate p with
  | .error f => .error ⟨f, p⟩
  | .ok place =>
    match t.lookup place with
    | some .directory => .error ⟨.isDirectory, p⟩
    | _ => .ok (t.insert place (.file octets))

def makeDirectory (p : Path) (t : FileTree) : Except FileFault FileTree :=
  match t.locate p with
  | .error f => .error f
  | .ok place =>
    match t.lookup place with
    | some _ => .error .exists
    | none => .ok (t.insert place .directory)

/-- What comes of a refusal to make the directory at a path. Where the directory may be there
already and is, the refusal does not count. -/
def afterRefusal (mayExist : Bool) (p : Path) (f : FileFault) (t : FileTree) :
    FileTree × Option FileError :=
  if mayExist && t.isDirectory p then (t, none) else (t, some ⟨f, p⟩)

/-- Makes a directory and, where they are missing, those above it. Those above may come to be there
in the course of it. What was made before a refusal stays. -/
def makeDirectories (mayExist : Bool) (slashes : Nat) (parts : List String) (t : FileTree) :
    FileTree × Option FileError :=
  let p : Path := ⟨slashes, parts⟩
  match t.makeDirectory p with
  | .ok made => (made, none)
  | .error .missing =>
    if parts = [] then (t, some ⟨.missing, p⟩)
    else
      match makeDirectories true slashes parts.dropLast t with
      | (t', some e) => (t', some e)
      | (t', none) =>
        match t'.makeDirectory p with
        | .ok made => (made, none)
        | .error .missing => (t', some ⟨.missing, p⟩)
        | .error f => t'.afterRefusal mayExist p f
  | .error f => t.afterRefusal mayExist p f
termination_by parts.length
decreasing_by
  rename_i h
  have := List.length_pos_iff.mpr h
  simp [List.length_dropLast]
  omega

/-- Makes the directory at a path with those above it, unless it is there. -/
def ensureDirectory (p : Path) (t : FileTree) : FileTree × Option FileError :=
  t.makeDirectories true p.slashes p.parts

/-- Makes the directory at a path, which must not be there, with those above it. -/
def createDirectory (p : Path) (t : FileTree) : FileTree × Option FileError :=
  t.makeDirectories false p.slashes p.parts

end FileTree

end Shoutmark
