import Shoutmark.Text.Quoted

/-! What a run tells about itself. Each event has a level, and a reader who asks for verbosity n
is told the events of level n and below, in the order in which they happened. -/

namespace Shoutmark

/-- What a page's author is told about the page: its comments, its titles and the addresses it
plays. -/
inductive Diagnostic
  | comment (text : String)
  | title (text : String)
  | audio (address : String)
  | video (address : String)
  deriving DecidableEq, Repr

def Diagnostic.message : Diagnostic → String
  | .comment text => "Comment: " ++ text
  | .title text => "Parsed Title: " ++ text
  | .audio address => "Audio URL: " ++ address
  | .video address => "Video URL: " ++ address

inductive Event
  | banner
  | checkingEnvironment
  | inputFile (path : String)
  | outputFile (path : String)
  | reading
  | charactersRead (count : Nat) (name : String)
  | compiling
  | tokenizing
  | tokensProduced (count : Nat)
  | parsing (count : Nat)
  | diagnostic (d : Diagnostic)
  | variableDefined (name value : String)
  | charactersGenerated (count : Nat)
  | tokensCompiled (count : Nat)
  | wrote (path : String)
  | opening (url : String)
  | listingAt (path : String)
  | titled (title : String)
  | variableCount (count : Nat)
  deriving DecidableEq, Repr

/-- The program's name in large letters, with what it does below. -/
def bannerText : String :=
  "\n  _       _                      _\n" ++
  " | | ___ | |_ __ ___   __ _ _ __| | __\n" ++
  " | |/ _ \\| | '_ ` _ \\ / _` | '__| |/ /\n" ++
  " | | (_) | | | | | | | (_| | |  |   <\n" ++
  " |_|\\___/|_|_| |_| |_|\\__,_|_|  |_|\\_\\\n" ++
  "\n  LOLCODE-flavoured markup to HTML\n"

namespace Event

/-- The least verbosity at which an event is told. -/
def level : Event → Nat
  | .reading | .compiling | .diagnostic _ | .listingAt _ | .titled _ => 1
  | .tokensProduced _ | .variableDefined _ _ => 3
  | .banner | .checkingEnvironment | .inputFile _ | .outputFile _ | .charactersRead _ _
  | .tokenizing | .parsing _ | .charactersGenerated _ | .tokensCompiled _ | .wrote _
  | .opening _ | .variableCount _ => 2

def message : Event → String
  | .banner => bannerText
  | .checkingEnvironment => "Checking environment..."
  | .inputFile path => "Input file: " ++ path
  | .outputFile path => "Output file: " ++ path
  | .reading => "Reading source file..."
  | .charactersRead count name => "Read " ++ toString count ++ " characters from " ++ name
  | .compiling => "Compiling source to HTML..."
  | .tokenizing => "Tokenizing source..."
  | .tokensProduced count => "Lexer produced " ++ toString count ++ " tokens"
  | .parsing count => "Parsing " ++ toString count ++ " tokens..."
  | .diagnostic d => d.message
  | .variableDefined name value =>
    "Defined variable " ++ Text.quoted name ++ " = " ++ Text.quoted value
  | .charactersGenerated count => "Generated " ++ toString count ++ " characters of HTML"
  | .tokensCompiled count => "Compiled " ++ toString count ++ " tokens"
  | .wrote path => "Wrote " ++ path
  | .opening url => "Opening " ++ url
  | .listingAt path => "  Listing: " ++ path
  | .titled title => "  Title: " ++ title
  | .variableCount count => "  Variables: " ++ toString count

/-- The diagnostic that an event reports, if it reports one. -/
def diagnostic? : Event → Option Diagnostic
  | .diagnostic d => some d
  | _ => none

def isTold (verbosity : Int) (e : Event) : Bool := e.level ≤ verbosity

end Event

/-- The lines a reader with this verbosity is told. -/
def logLines (verbosity : Int) (events : List Event) : List String :=
  (events.filter (Event.isTold verbosity)).map Event.message

def diagnosticLines (events : List Event) : List String :=
  (events.filterMap Event.diagnostic?).map Diagnostic.message

theorem diagnosticLines_append (es es' : List Event) :
    diagnosticLines (es ++ es') = diagnosticLines es ++ diagnosticLines es' := by
  simp [diagnosticLines]

end Shoutmark
