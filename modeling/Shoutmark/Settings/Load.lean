import Shoutmark.Settings.Basic
import Shoutmark.Settings.Reference
import Shoutmark.Text.Case

/-! Settings from their sources. What is given directly counts before the environment, the
environment before a settings file, and that before the default. Every value is checked, and all
that is wrong is told at once. -/

namespace Shoutmark.Settings

inductive Field
  | sourceExtension
  | outputExtension
  | strictExtension
  | listsEnabled
  | openBrowser
  | browser
  | listingStyle
  deriving DecidableEq, Repr

/-- The fields in the order in which faults are told. -/
def Field.all : List Field :=
  [.sourceExtension, .outputExtension, .strictExtension, .listsEnabled, .openBrowser, .browser,
   .listingStyle]

def Field.name : Field → String
  | .sourceExtension => "source_extension"
  | .outputExtension => "output_extension"
  | .strictExtension => "strict_extension"
  | .listsEnabled => "lists_enabled"
  | .openBrowser => "open_browser"
  | .browser => "browser"
  | .listingStyle => "listing_style"

/-- How the environment's names for settings begin, in small letters. -/
def variableStart : String := "lolmark_"

/-- The environment's name for a field, in small letters. -/
def Field.variableName (f : Field) : String := variableStart ++ f.name

/-- A value as it is given, before it is checked. -/
inductive Given
  | text (s : String)
  | flag (b : Bool)
  | whole (n : Int)
  /-- A number that may have a fraction: a mantissa times a power of two. -/
  | binary (mantissa exponent : Int)
  | nothing
  /-- A list or a table. -/
  | compound
  deriving DecidableEq, Repr

/-- What may be wrong with a value. -/
inductive Flaw
  /-- A word or a number that means neither yes nor no. -/
  | unreadableFlag
  /-- Nothing that could mean yes or no. -/
  | notFlag
  | notText
  /-- There is no such setting. -/
  | unknownName
  deriving DecidableEq, Repr

structure Rejection where
  name : String
  flaw : Flaw
  deriving DecidableEq, Repr

def yesWords : List String := ["1", "ON", "T", "TRUE", "Y", "YES"]

def noWords : List String := ["0", "OFF", "F", "FALSE", "N", "NO"]

/-- The whole number that a mantissa times a power of two is, if it is one. -/
def wholeOf? (mantissa exponent : Int) : Option Int :=
  if 0 ≤ exponent then some (mantissa * Nat.pow 2 exponent.toNat)
  else
    let scale : Int := Nat.pow 2 (-exponent).toNat
    if mantissa % scale = 0 then some (mantissa / scale) else none

/-- The least number that a word of 64 binary digits holds. -/
def leastWord : Int := -Nat.pow 2 63

/-- One means yes and nought means no. Other whole numbers of up to 63 binary digits are read and
mean neither; greater ones are not read. -/
def flagOfWhole (n : Int) : Except Flaw Bool :=
  if n = 1 then .ok true
  else if n = 0 then .ok false
  else if n.natAbs < Nat.pow 2 63 then .error .unreadableFlag
  else .error .notFlag

def Given.toFlag : Given → Except Flaw Bool
  | .flag b => .ok b
  | .text s =>
    if Text.upper s ∈ yesWords then .ok true
    else if Text.upper s ∈ noWords then .ok false
    else .error .unreadableFlag
  | .whole n => if n = leastWord then .error .unreadableFlag else flagOfWhole n
  | .binary m e =>
    match wholeOf? m e with
    | some n => flagOfWhole n
    | none => .error .notFlag
  | .nothing => .error .notFlag
  | .compound => .error .notFlag

def Given.toText : Given → Except Flaw String
  | .text s => .ok s
  | _ => .error .notText

def Given.toOptionalText : Given → Except Flaw (Option String)
  | .nothing => .ok none
  | g => g.toText.map some

/-- Where settings come from: values by name as given directly, the variables of the environment,
and the entries of a settings file. -/
structure Sources where
  direct : List (String × Given)
  environment : List (String × String)
  file : List EnvironmentFile.Entry

namespace Sources

/-- Names are compared in small letters. -/
def isNamed (key name : String) : Bool := Text.lower key == name

/-- The value given directly for a field: the first one under its name in any case. -/
def direct? (s : Sources) (f : Field) : Option Given :=
  (s.direct.find? (isNamed ·.1 f.name)).map Prod.snd

/-- The value of the last variable that names a field. -/
def environment? (s : Sources) (f : Field) : Option Given :=
  (s.environment.reverse.find? (isNamed ·.1 f.variableName)).map fun e => .text e.2

/-- The names of the file in small letters, with their values. -/
def fileValues (s : Sources) : List (String × Option String) :=
  (EnvironmentFile.assignments s.environment s.file).foldl
    (fun values e => Named.put (Text.lower e.1) e.2 values) []

def fileValue? (s : Sources) (name : String) : Option String := (s.fileValues.lookup name).join

/-- What the sources say about a field, the first that counts. -/
def given? (s : Sources) (f : Field) : Option Given :=
  ((s.direct? f).or (s.environment? f)).or ((s.fileValue? f.variableName).map .text)

/-- The names in the file that are not empty and name no setting. A setting's name without the
environment's beginning is passed over. -/
def strayFileNames (s : Sources) : List String :=
  (s.fileValues.filter fun e =>
    e.2.any (· ≠ "") && Field.all.all fun f => e.1 != f.variableName && e.1 != f.name).map Prod.fst

/-- The names given directly that name no setting. -/
def strayDirectNames (s : Sources) : List String :=
  (s.direct.map Prod.fst).filter fun n => !Field.all.any fun f => isNamed n f.name

/-- The names that no setting goes by, those of the file first. -/
def strayNames (s : Sources) : List String := (s.strayFileNames ++ s.strayDirectNames).eraseDups

/-- A field's value as its kind reads it, or the default if no source says anything. -/
def read {α : Type} (s : Sources) (f : Field) (as : Given → Except Flaw α) (default : α) :
    Except Flaw α :=
  match s.given? f with
  | some g => as g
  | none => .ok default

end Sources

def rejection {α : Type} (f : Field) : Except Flaw α → List Rejection
  | .ok _ => []
  | .error flaw => [⟨f.name, flaw⟩]

/-- The settings that the sources give, or all that is wrong with them: the fields in order, then
the names that no setting goes by. -/
def load (s : Sources) : Except (List Rejection) Settings :=
  let standard : Settings := {}
  let source := s.read .sourceExtension Given.toText standard.sourceExtension
  let output := s.read .outputExtension Given.toText standard.outputExtension
  let strict := s.read .strictExtension Given.toFlag standard.strictExtension
  let lists := s.read .listsEnabled Given.toFlag standard.listsEnabled
  let opens := s.read .openBrowser Given.toFlag standard.openBrowser
  let browser := s.read .browser Given.toOptionalText standard.browser
  let style := s.read .listingStyle Given.toText standard.listingStyle
  match source, output, strict, lists, opens, browser, style, s.strayNames with
  | .ok a, .ok b, .ok c, .ok d, .ok e, .ok f, .ok g, [] => .ok ⟨a, b, c, d, e, f, g⟩
  | _, _, _, _, _, _, _, strays =>
    .error (rejection .sourceExtension source ++ rejection .outputExtension output ++
      rejection .strictExtension strict ++ rejection .listsEnabled lists ++
      rejection .openBrowser opens ++ rejection .browser browser ++
      rejection .listingStyle style ++ strays.map fun n => ⟨n, .unknownName⟩)

end Shoutmark.Settings
