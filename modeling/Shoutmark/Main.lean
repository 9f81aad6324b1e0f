import Shoutmark.CommandLine.Program
import Shoutmark.Settings.Load

/-! The program on a real machine. What it may need to know is looked up first, the run is worked
out on that, and what the run changed is carried out. -/

namespace Shoutmark.Main

/-- How a listing is shown. -/
def styleSheet : String :=
  ".k, .kd \x7b font-weight: bold \x7d\n.cm \x7b font-style: italic; color: gray \x7d\n" ++
  ".nf, .nb \x7b color: navy \x7d\n.nv \x7b color: teal \x7d\n.sx \x7b color: green \x7d"

def readFile? (path : String) : IO (Option String) := do
  try
    let octets ← IO.FS.readBinFile path
    return (Text.Utf8.decode octets.toList).toOption.map String.ofList
  catch _ => return none

/-- The variables of the environment that set something, and those that the settings file refers
to. -/
def environment (file : List EnvironmentFile.Entry) : IO (List (String × String)) := do
  let names := Settings.Field.all.flatMap fun f => [f.variableName, Text.upper f.variableName]
  (names ++ EnvironmentFile.namesReferredTo file).eraseDups.filterMapM fun name =>
    return (← IO.getEnv name).map fun value => (name, value)

/-- The settings of this machine and directory. -/
def settings : IO (Except (List Settings.Rejection) Settings) := do
  let file := ((← readFile? ".env").map EnvironmentFile.entries).getD []
  return Settings.load ⟨[], ← environment file, file⟩

/-- The names from the root down, as a path of the machine. -/
def machinePath (place : List String) : String := "/" ++ "/".intercalate place

/-- What stands at a place of the machine. -/
def entryAt? (place : List String) : IO (Option Entry) := do
  try
    let octets ← IO.FS.readBinFile (machinePath place)
    return some (.file octets.toList)
  catch e =>
    match e with
    | .inappropriateType none 21 _ => return some .directory
    | _ => return none

/-- A place and every place above it but the root. -/
def placesAbove (place : List String) : List (List String) :=
  (List.range place.length).map fun i => place.take (i + 1)

/-- The places that a command line makes a run look at. -/
def placesOf (workingDirectory : List String) (s : Settings) (o : CommandLine.Options) :
    List (List String) :=
  let job := o.toJob (o.inputFile.getD "")
  let source := job.sourceName
  let output := job.outputPlace
  let paths := [job.inputDirectory.getD .current, source, output,
    output.join (.ofString (s.outputName source.name)),
    output.join (.ofString (s.listingName source.name))]
  let places := paths.flatMap fun p => placesAbove (p.resolve workingDirectory)
  (placesAbove workingDirectory ++ places).eraseDups

/-- The part of the machine's files that a run may look at. -/
def lookAround (workingDirectory : List String) (places : List (List String)) : IO FileTree := do
  let entries ← places.filterMapM fun place => return (← entryAt? place).map fun e => (place, e)
  return ⟨workingDirectory, entries⟩

/-- Makes the machine's files as they are after a run. -/
def carryOut (before after : FileTree) : IO Unit := do
  for (place, e) in after.entries.mergeSort fun a b => a.1.length ≤ b.1.length do
    unless before.lookup place = some e do
      match e with
      | .directory => IO.FS.createDirAll (machinePath place)
      | .file octets => IO.FS.writeBinFile (machinePath place) ⟨octets.toArray⟩

def print (verbosity : Int) (w : World) : IO Unit := do
  for line in w.log verbosity do
    IO.eprintln line
  IO.eprint w.stderr
  IO.print w.stdout

/-- The exit code of a run, once its reason to stop is said. -/
def close : Option Stop → IO UInt32
  | none => return 0
  | some (.exit code) => return code.toUInt32
  | some (.file e) => do
    IO.eprintln e.message
    return 1
  | some (.style e) => do
    IO.eprintln e.message
    return 1
  | some (.browser fault) => do
    IO.eprintln fault.message
    return 1
  | some .noPage => do
    IO.eprintln "there is no page"
    return 1
  | some .nulInPath => do
    IO.eprintln "a path holds NUL"
    return 1
  | some .noPlace => do
    IO.eprintln "a place is missing"
    return 1
  | some (.noSourceName _) => do
    IO.eprintln "the name of the source is missing"
    return 1

/-- Works out a run on this machine and carries it out. -/
def run (words : List String) : IO UInt32 := do
  match ← settings with
  | .error rejections =>
    for r in rejections do
      IO.eprintln ("invalid setting: " ++ r.name)
    return 1
  | .ok s =>
    let workingDirectory := (Path.ofString (← IO.currentDir).toString).parts
    let places := match CommandLine.read words with
      | .ok o => placesOf workingDirectory s o
      | .error _ => []
    let before ← lookAround workingDirectory places
    let surroundings : Surroundings := ⟨s, Browser.named fun _ => false, false, styleSheet⟩
    let (stop, after) := match CommandLine.run surroundings words { files := before } with
      | .ok () w => (none, w)
      | .error stop w => (some stop, w)
    carryOut before after.files
    print (CommandLine.verbosity words) after
    close stop

end Shoutmark.Main

/-- Reads the command line and ends with the run's exit code. -/
def main (words : List String) : IO UInt32 := Shoutmark.Main.run words
