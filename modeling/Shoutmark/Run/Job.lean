import Shoutmark.Compile
import Shoutmark.Path

/-! What one run of the program knows. -/

namespace Shoutmark

/-- The wishes of the caller, and what the stages of a run have found and made so far. -/
structure Job where
  inputDirectory : Option Path := none
  outputDirectory : Option Path := none
  verbosity : Int := 1
  /-- The source, seen from the input directory. -/
  inputFile : String := ""
  listing : Bool := false
  openBrowser : Bool := false
  environmentChecked : Bool := false
  sourcePath : Path := .root
  pagePath : Path := .root
  listingPath : Path := .root
  source : Option String := none
  page : Option Page := none
  pageWritten : Bool := false
  browserOpened : Bool := false
  deriving DecidableEq, Repr

namespace Job

def between (inputDirectory outputDirectory : Option Path) (job : Job) : Job :=
  { job with inputDirectory, outputDirectory }

def sourceName (job : Job) : Path :=
  (job.inputDirectory.getD .current).join (.ofString job.inputFile)

def outputPlace (job : Job) : Path := job.outputDirectory.getD .current

end Job

end Shoutmark
