import Shoutmark.Run.Job
import Shoutmark.Run.World

/-! The stages of a run. Each takes a job and gives it back with what it has found or made; one
that stops leaves the job as it was. -/

namespace Shoutmark

inductive Stage
  | checkEnvironment
  | readSource
  | compileSource
  | writeOutput
  | launchBrowser
  | reportResults
  deriving DecidableEq, Repr

namespace Stage

/-- The stages in the order in which they make a page. -/
def inOrder : List Stage :=
  [.checkEnvironment, .readSource, .compileSource, .writeOutput, .launchBrowser, .reportResults]

/-- The source that a job means, if its name is admitted and it is there. -/
def findSource (settings : Settings) (files : FileTree) (job : Job) : Except InputFault Path :=
  if settings.admits job.inputFile then
    if files.isFile job.sourceName then .ok job.sourceName
    else .error (.missingFile (toString job.sourceName))
  else .error (.wrongExtension settings.sourceExtension job.inputFile)

def begin (verbosity : Int) : Run Unit := do
  if 2 ≤ verbosity then Run.tell .banner
  Run.tell .checkingEnvironment

/-- Finds the source, makes the output directory and settles the paths of the output. Nothing is
made when the source is not found. -/
def check (s : Surroundings) (job : Job) : Run Job := do
  begin job.verbosity
  match findSource s.settings (← Run.files) job with
  | .error fault => Run.giveUp (CompileError.input fault).message
  | .ok sourcePath =>
    Run.tell (.inputFile (toString sourcePath))
    let place := job.outputPlace
    Run.ensureDirectory place
    let pagePath := place.join (.ofString (s.settings.outputName sourcePath.name))
    let listingPath := place.join (.ofString (s.settings.listingName sourcePath.name))
    Run.tell (.outputFile (toString pagePath))
    return { job with sourcePath, pagePath, listingPath, environmentChecked := true }

/-- The text of a file, with its line ends unified. -/
def readText (files : FileTree) (p : Path) : Except String String :=
  match files.read p with
  | .error e => .error e.message
  | .ok octets =>
    match Text.Utf8.decode octets with
    | .error r => .error r.message
    | .ok cs => .ok (String.ofList (Text.unifyLineEnds cs))

def readSourceText (job : Job) : Run Job := do
  Run.tell .reading
  Run.checkPath job.sourcePath
  match readText (← Run.files) job.sourcePath with
  | .error reason =>
    Run.giveUp ("Error: could not read file '" ++ toString job.sourcePath ++ "': " ++ reason)
  | .ok text =>
    Run.tell (.charactersRead text.length job.sourcePath.name)
    return { job with source := some text }

/-- Makes the page of the source. An error is said and ends the run. -/
def makePage (s : Surroundings) (job : Job) : Run Job := do
  Run.tell .compiling
  match job.source with
  | none => Run.giveUp "Error: No source text available"
  | some source =>
    let c := compile s.settings.listsEnabled source
    Run.tellAll c.events
    match c.outcome with
    | .error e => Run.giveUp e.message
    | .ok page =>
      Run.tell (.tokensCompiled page.tokens.length)
      return { job with page := some page }

/-- Writes the page, and after it the listing if one is wished. -/
def write (s : Surroundings) (job : Job) : Run Job := do
  match job.page with
  | none => Run.giveUp "Error: Compilation failed"
  | some page =>
    Run.writeFile job.pagePath page.html
    Run.tell (.wrote (toString job.pagePath))
    if job.listing then
      match Listing.render s.styleSheet s.settings.listingStyle (some job.sourcePath.name)
          (job.source.getD "") with
      | .error e => Run.stop (.style e)
      | .ok listing =>
        Run.writeFile job.listingPath listing
        Run.tell (.wrote (toString job.listingPath))
    return { job with pageWritten := true }

/-- The name of the browser to ask; the usual one has none. -/
def browserName (settings : Settings) : Option String := settings.browser.filter (· ≠ "")

/-- What comes of asking for the browser. The usual one is always there to be asked. -/
def askForBrowser (s : Surroundings) : Browser.Answer :=
  match browserName s.settings with
  | none => .found
  | some name => s.browserNamed name

/-- Asks a browser to show the page, if the caller or the settings wish it. That no browser goes by
the name is a warning and no more; a name that cannot be looked for ends the run. -/
def launch (s : Surroundings) (job : Job) : Run Job := do
  if job.openBrowser || s.settings.openBrowser then
    Run.checkPath job.pagePath
    let url := job.pagePath.url (← Run.files).workingDirectory
    Run.tell (.opening url)
    match askForBrowser s with
    | .found =>
      Run.visit ⟨browserName s.settings, url⟩
      return { job with browserOpened := s.browserAccepts }
    | .unknown =>
      Run.complain "Warning: could not open browser: could not locate runnable browser"
      return job
    | .faulty fault => Run.stop (.browser fault)
  else return job

/-- Says where the page is, and tells what it holds. -/
def report (job : Job) : Run Job := do
  if job.pageWritten then
    Run.say ("\nParsing completed successfully. HTML saved as " ++ toString job.pagePath)
    if job.listing then Run.tell (.listingAt (toString job.listingPath))
    match job.page with
    | none => Run.stop .noPage
    | some page =>
      match page.title with
      | some title => Run.tell (.titled title)
      | none => pure ()
      Run.tell (.variableCount page.values.entries.length)
      return job
  else Run.giveUp "Error: Compilation failed"

def perform (s : Surroundings) (job : Job) : Stage → Run Job
  | .checkEnvironment => check s job
  | .readSource => readSourceText job
  | .compileSource => makePage s job
  | .writeOutput => write s job
  | .launchBrowser => launch s job
  | .reportResults => report job

end Stage

/-- Carries out stages one after the other, each on the job the one before gives. -/
def Run.stages (s : Surroundings) (job : Job) (stages : List Stage) : Run Job :=
  stages.foldlM (Stage.perform s) job

end Shoutmark
