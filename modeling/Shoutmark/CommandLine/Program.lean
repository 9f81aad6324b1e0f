import Shoutmark.CommandLine.Options
import Shoutmark.Run.Stage

/-! The program as it is called: a command line is read, the two directories are seen to, and the
stages are carried out. -/

namespace Shoutmark.CommandLine

def versionText : String := "lolmark 1.0.0"

def usage : String :=
  "usage: lolmark [-h] --inputFile INPUTFILE [--listing] [--open] [-v] [-V] inputdir outputdir"

/-- The job that a command line asks for, with the source of the given name. -/
def Options.toJob (o : Options) (inputFile : String) : Job :=
  Job.between (some (.ofString o.inputDirectory)) (some (.ofString o.outputDirectory))
    { verbosity := o.verbosity, inputFile, listing := o.listing, openBrowser := o.openBrowser }

/-- What the program says of a path that should be a directory and is not. -/
def notDirectory (p : Path) : String := "Not a directory: " ++ toString p

/-- Makes the output directory with those above it, unless something is there already. A path that
comes to lead somewhere only while it is made is refused. -/
def prepareOutput (p : Path) : Run Unit := do
  let files ← Run.files
  if files.contains p then
    unless files.isDirectory p do Run.giveUp (notDirectory p)
  else Run.createDirectory p

/-- The input directory must be there. -/
def requireInput (p : Path) : Run Unit := do
  unless (← Run.files).isDirectory p do Run.giveUp (notDirectory p)

/-- Carries out what a command line asks for. A source without a name is missed once the run has
begun. -/
def carryOut (s : Surroundings) (o : Options) : Run Unit := do
  prepareOutput (.ofString o.outputDirectory)
  requireInput (.ofString o.inputDirectory)
  match o.inputFile with
  | some name => discard <| Run.stages s (o.toJob name) Stage.inOrder
  | none => do
    Stage.begin o.verbosity
    Run.stop (.noSourceName s.settings.strictExtension)

/-- Ends the program as a command line that is not carried out asks. -/
def close : Ending → Run Unit
  | .help => Run.say usage
  | .version => Run.say versionText
  | .refused message => do
    Run.complain ("lolmark: error: " ++ message)
    Run.stop (.exit 2)
  | .noPlace => Run.stop .noPlace

/-- The whole program. -/
def run (s : Surroundings) (words : List String) : Run Unit :=
  match read words with
  | .ok o => carryOut s o
  | .error e => close e

/-- The verbosity that a command line asks for. A command line that is not carried out tells
nothing, whatever the verbosity. -/
def verbosity (words : List String) : Int :=
  match read words with
  | .ok o => o.verbosity
  | .error _ => 0

end Shoutmark.CommandLine
