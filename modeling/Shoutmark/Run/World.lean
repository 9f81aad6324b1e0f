import Shoutmark.Browser
import Shoutmark.Error
import Shoutmark.Event
import Shoutmark.FileTree
import Shoutmark.Listing
import Shoutmark.Settings.Basic

/-! What surrounds a run: what it finds, and what it changes. -/

namespace Shoutmark

/-- What a run finds and cannot change. -/
structure Surroundings where
  settings : Settings
  /-- What comes of asking for a browser by name. -/
  browserNamed : String → Browser.Answer
  /-- The answer of every browser that is asked to show a page. -/
  browserAccepts : Bool
  /-- The style sheet of a listing. -/
  styleSheet : String

/-- A page that a browser was asked to show; without a name it is the usual browser. -/
structure Visit where
  browser : Option String
  url : String
  deriving DecidableEq, Repr

/-- What a run changes: files, what it printed, what it told and the pages it opened. -/
structure World where
  files : FileTree
  stdout : String := ""
  stderr : String := ""
  events : List Event := []
  visits : List Visit := []
  deriving DecidableEq, Repr

def World.log (verbosity : Int) (w : World) : List String := logLines verbosity w.events

/-- Why a run stops early. -/
inductive Stop
  /-- The run has said what is wrong and ends with this exit code. -/
  | exit (code : Nat)
  | file (e : FileError)
  | style (e : Listing.UnknownStyle)
  /-- The browser that the settings name cannot even be looked for. -/
  | browser (fault : Browser.Fault)
  /-- A path holds the character NUL. -/
  | nulInPath
  /-- A page is said to be written, and there is no page. -/
  | noPage
  /-- A word of the command line that names a place stands for none. -/
  | noPlace
  /-- The word for the source stands for no name; `strict` tells whether its extension was about to
  be looked at. -/
  | noSourceName (strict : Bool)
  deriving DecidableEq, Repr

/-- A step of a run. What it did before it stopped stays done. -/
abbrev Run (α : Type) := EStateM Stop World α

namespace Run

/-- Prints a line for the reader of the results. -/
def say (line : String) : Run Unit :=
  fun w => .ok () { w with stdout := w.stdout ++ line ++ "\n" }

/-- Prints a line for the reader of the errors. -/
def complain (line : String) : Run Unit :=
  fun w => .ok () { w with stderr := w.stderr ++ line ++ "\n" }

def tell (e : Event) : Run Unit := fun w => .ok () { w with events := w.events ++ [e] }

def tellAll (es : List Event) : Run Unit := fun w => .ok () { w with events := w.events ++ es }

def visit (v : Visit) : Run Unit := fun w => .ok () { w with visits := w.visits ++ [v] }

def stop {α : Type} (s : Stop) : Run α := fun w => .error s w

/-- Says what is wrong and ends the run. -/
def giveUp {α : Type} (line : String) : Run α := do
  complain line
  stop (.exit 1)

def files : Run FileTree := fun w => .ok w.files w

/-- A path that is handed to the file system must not hold NUL. -/
def checkPath (p : Path) : Run Unit := if p.holdsNul then stop .nulInPath else pure ()

/-- Changes the directories; what could be made of them stays. -/
def changeDirectories (change : FileTree → FileTree × Option FileError) : Run Unit := fun w =>
  match change w.files with
  | (files, none) => .ok () { w with files }
  | (files, some e) => .error (.file e) { w with files }

/-- Makes a directory with those above it, unless it is there. -/
def ensureDirectory (p : Path) : Run Unit := do
  checkPath p
  changeDirectories (FileTree.ensureDirectory p)

/-- Makes a directory, which must not be there, with those above it. -/
def createDirectory (p : Path) : Run Unit := do
  checkPath p
  changeDirectories (FileTree.createDirectory p)

/-- Writes a file. A refusal ends the run with a message. -/
def writeFile (p : Path) (content : String) : Run Unit := do
  checkPath p
  fun w =>
    match w.files.write p (Text.Utf8.encode content) with
    | .ok files => .ok () { w with files }
    | .error e => giveUp ("Error writing output: " ++ e.message) w

end Run

end Shoutmark
