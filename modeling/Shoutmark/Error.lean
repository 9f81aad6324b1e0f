/-! Why a source is refused. The first fault ends a compilation, and no page is produced. -/

namespace Shoutmark

/-- Faults found while reading the words of a source one after the other. -/
inductive Fault
  /-- The word at hand is not the one required; it is empty at the end of the input. -/
  | mismatch (expected found : String)
  /-- No construct goes by this word. -/
  | unknownConstruct (token : String)
  /-- Plain text was required. -/
  | notText (token : String)
  /-- The variable has no value yet. -/
  | undefinedVariable (name : String)
  deriving DecidableEq, Repr

/-- Why there is nothing to compile. -/
inductive InputFault
  /-- The source holds no word. -/
  | noTokens
  /-- The name of the source does not end as required. -/
  | wrongExtension (required name : String)
  | missingFile (path : String)
  /-- Any other reason, in words. -/
  | stated (reason : String)
  deriving DecidableEq, Repr

inductive CompileError
  | general (detail : String)
  | input (fault : InputFault)
  /-- A special word that is neither a keyword nor a web address. -/
  | lexical (token : String)
  | grammar (detail : String)
  | fault (fault : Fault)
  | semantic (detail : String)
  deriving DecidableEq, Repr

def InputFault.detail : InputFault → String
  | .noTokens => "Empty input file."
  | .wrongExtension required name =>
    "Only " ++ required ++ " files are accepted. '" ++ name ++ "' is invalid."
  | .missingFile path => "Input file not found: " ++ path
  | .stated reason => reason

def Fault.detail : Fault → String
  | .mismatch expected found => "Expected '" ++ expected ++ "', found '" ++ found ++ "'"
  | .unknownConstruct token => "Unknown GIMMEH construct '" ++ token ++ "'"
  | .notText token => "Expected text, found '" ++ token ++ "'"
  | .undefinedVariable name => "Undefined variable '" ++ name ++ "'"

namespace CompileError

/-- The sort of error, as a reader is told it. -/
def label : CompileError → String
  | .general _ => "Error"
  | .input _ => "Input Error"
  | .lexical _ => "Lexical Error"
  | .grammar _ => "Syntax Error"
  | .fault (.undefinedVariable _) => "Semantic Error"
  | .fault _ => "Syntax Error"
  | .semantic _ => "Semantic Error"

/-- What is wrong, without the sort of error. -/
def detail : CompileError → String
  | .general d => d
  | .input f => f.detail
  | .lexical token => "Invalid token '" ++ token ++ "'"
  | .grammar d => d
  | .fault f => f.detail
  | .semantic d => d

def message (e : CompileError) : String := e.label ++ ": " ++ e.detail

end CompileError

end Shoutmark
