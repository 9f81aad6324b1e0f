import Shoutmark.Text.Digit
import Shoutmark.Text.Quoted

/-! The words of a command line and what they ask for. Options and places may stand in any order;
a long option may be cut short as long as one option alone begins that way; the word '--' ends the
options. -/

namespace Shoutmark.CommandLine

inductive Switch
  | help
  | inputFile
  | listing
  | openBrowser
  | verbosity
  | version
  /-- Accepted, and of no effect. -/
  | ignored (name : String)
  deriving DecidableEq, Repr

/-- Every spelling of every option, in the order in which they are listed. -/
def spellings : List (String × Switch) :=
  [("-h", .help), ("--help", .help),
   ("--inputFile", .inputFile),
   ("--listing", .listing),
   ("--open", .openBrowser),
   ("-v", .verbosity), ("--verbosity", .verbosity),
   ("-V", .version), ("--version", .version),
   ("--saveinputmeta", .ignored "--saveinputmeta"),
   ("--saveoutputmeta", .ignored "--saveoutputmeta")]

/-- The spellings of one option, as a message names it. -/
def Switch.title (s : Switch) : String :=
  "/".intercalate ((spellings.filter (·.2 = s)).map Prod.fst)

/-- The option is followed by a value. -/
def Switch.takesValue (s : Switch) : Bool := s = .inputFile

/-- What one word of the command line is. -/
inductive Word
  | plain (text : String)
  /-- The word that ends the options. -/
  | endOfOptions
  /-- An option with the spelling that was meant, and a value in the same word. -/
  | option (switch : Switch) (spelling : String) (attached : Option String)
  /-- It looks like an option, and there is none like it. -/
  | unknown (text : String)
  deriving DecidableEq, Repr

/-- The part of a word before its first sign '=' and the part after it. -/
def cutAtSign (word : List Char) : List Char × Option (List Char) :=
  match word.dropWhile (· != '=') with
  | [] => (word, none)
  | _ :: rest => (word.takeWhile (· != '='), some rest)

/-- Digits, and a line feed after them or none. -/
def isNumeral (cs : List Char) : Bool :=
  cs.head?.any Text.isDigit && [[], ['\n']].contains (cs.dropWhile Text.isDigit)

/-- A numeral behind a dash, or one behind a point, which digits may precede. -/
def looksNegative (word : List Char) : Bool :=
  match word with
  | '-' :: rest =>
    isNumeral rest ||
      match rest.dropWhile Text.isDigit with
      | '.' :: fraction => isNumeral fraction
      | _ => false
  | _ => false

/-- The options that a word may mean which is no option as it stands. A word with two dashes is the
start of an option up to its sign '='; one with a single dash is a letter with more behind it. -/
def candidates (word : List Char) : List (String × Switch × Option String) :=
  match word with
  | '-' :: '-' :: _ =>
    let (start, value) := cutAtSign word
    (spellings.filter fun s => start.isPrefixOf s.1.toList).map fun s =>
      (s.1, s.2, value.map String.ofList)
  | _ =>
    let short := String.ofList (word.take 2)
    spellings.filterMap fun s =>
      if s.1 = short then some (s.1, s.2, some (String.ofList (word.drop 2)))
      else if word.isPrefixOf s.1.toList then some (s.1, s.2, none)
      else none

/-- What a word is, or why it cannot be told. -/
def classify (word : String) : Except String Word :=
  match word.toList with
  | '-' :: _ :: _ =>
    let cs := word.toList
    let (start, value) := cutAtSign cs
    match spellings.lookup word, value, spellings.lookup (String.ofList start) with
    | some switch, _, _ => .ok (.option switch word none)
    | none, some v, some switch =>
      .ok (.option switch (String.ofList start) (some (String.ofList v)))
    | none, _, _ =>
      match candidates cs with
      | [(spelling, switch, attached)] => .ok (.option switch spelling attached)
      | [] =>
        if looksNegative cs || cs.contains ' ' then .ok (.plain word) else .ok (.unknown word)
      | several =>
        .error ("ambiguous option: " ++ word ++ " could match " ++
          ", ".intercalate (several.map Prod.fst))
  | _ => .ok (.plain word)

/-- The words of a command line. All that follows the end of the options is plain. -/
def classifyAll : List String → Except String (List Word)
  | [] => .ok []
  | word :: rest =>
    if word = "--" then .ok (.endOfOptions :: rest.map .plain)
    else do
      let w ← classify word
      return w :: (← classifyAll rest)

/-- What the words read so far ask for. -/
structure Request where
  /-- The source as it was named last, if it was. A word that names it may stand for no name. -/
  inputFile : Option (Option String) := none
  listing : Bool := false
  openBrowser : Bool := false
  verbosity : Nat := 1
  /-- The places named, the input directory first; two at most. A word that names a place may
  stand for none. -/
  places : List (Option String) := []
  /-- Words that belong to nothing. -/
  extras : List String := []
  deriving DecidableEq, Repr

/-- Why the reading of a command line ends before its last word. -/
inductive Ending
  | help
  | version
  | refused (message : String)
  /-- The word for a place stands for none. -/
  | noPlace
  deriving DecidableEq, Repr

def Request.addExtra (word : String) (r : Request) : Request :=
  { r with extras := r.extras ++ [word] }

/-- A plain word is a place as long as places are missing. -/
def Request.addPlain (word : String) (r : Request) : Request :=
  if r.places.length < 2 then { r with places := r.places ++ [some word] } else r.addExtra word

/-- Carries out an option that takes no value. -/
def Request.apply (s : Switch) (r : Request) : Except Ending Request :=
  match s with
  | .help => .error .help
  | .version => .error .version
  | .listing => .ok { r with listing := true }
  | .openBrowser => .ok { r with openBrowser := true }
  | .verbosity => .ok { r with verbosity := r.verbosity + 1 }
  | .inputFile => .ok r
  | .ignored _ => .ok r

def refuseAttached {α : Type} (s : Switch) (text : String) : Except Ending α :=
  .error (.refused ("argument " ++ s.title ++ ": ignored explicit argument " ++ Text.quoted text))

/-- Reads the letters behind a single dash, each an option of its own. What is carried out is so
only once the whole word is read; from a letter that is no option on, the rest of the word is
refused by the option before it. -/
def letters (pending : List Switch) (s : Switch) : List Char → Except Ending (List Switch)
  | [] => .ok (pending ++ [s])
  | c :: rest =>
    match spellings.lookup (String.ofList ['-', c]) with
    | none => refuseAttached s (String.ofList (c :: rest))
    | some next => letters (pending ++ [s]) next rest

/-- Carries out an option that takes no value, with what is attached to it: more letters behind a
single dash, with a sign '=' before them or none. -/
def Request.applyAttached (s : Switch) (spelling : String) (a : String) (r : Request) :
    Except Ending Request :=
  if spelling.toList.take 2 = ['-', '-'] ∨ a = "" then refuseAttached s a
  else do
    let switches ← letters [] s a.toList
    switches.foldlM (fun r s => r.apply s) r

/-- A plain word after the end of the options. Another '--' there stands for no place. -/
def Request.addLate (r : Request) (word : String) : Request :=
  if word = "--" ∧ r.places.length < 2 then { r with places := r.places ++ [none] }
  else r.addPlain word

/-- Reads the words after the end of the options. The end itself belongs to nothing when no place is
missing and none has just been named. Otherwise it stands with a place: the one before it, or else
the first after it, which is taken as it is. -/
def Request.addRest (afterPlace : Bool) (words : List String) (r : Request) : Request :=
  match words with
  | [] => if afterPlace then r else r.addExtra "--"
  | first :: rest =>
    if afterPlace then words.foldl Request.addLate r
    else if r.places.length < 2 then rest.foldl Request.addLate (r.addPlain first)
    else ("--" :: words).foldl (fun r word => r.addExtra word) r

def Word.plainText? : Word → Option String
  | .plain text => some text
  | _ => none

/-- The value in the same word as its option. The word '--' there stands for none. -/
def attachedValue (a : String) : Option String := if a = "--" then none else some a

/-- Reads the words one after the other; `afterPlace` tells whether the word before named a
place. -/
def readWords (afterPlace : Bool) (r : Request) : List Word → Except Ending Request
  | [] => .ok r
  | .plain text :: rest => readWords (r.places.length < 2) (r.addPlain text) rest
  | .unknown text :: rest => readWords false (r.addExtra text) rest
  | .endOfOptions :: rest => .ok (r.addRest afterPlace (rest.filterMap Word.plainText?))
  | .option s _ none :: rest =>
    if s.takesValue then
      match rest with
      | .plain value :: rest => readWords false { r with inputFile := some (some value) } rest
      | _ => .error (.refused ("argument " ++ s.title ++ ": expected one argument"))
    else do
      let r' ← r.apply s
      readWords false r' rest
  | .option s spelling (some a) :: rest =>
    if s.takesValue then readWords false { r with inputFile := some (attachedValue a) } rest
    else do
      let r' ← r.applyAttached s spelling a
      readWords false r' rest

/-- What a command line asks for, with everything that is needed. -/
structure Options where
  /-- The source; the word that names it may stand for no name. -/
  inputFile : Option String
  listing : Bool
  openBrowser : Bool
  verbosity : Nat
  inputDirectory : String
  outputDirectory : String
  deriving DecidableEq, Repr

/-- What of a request is missing, as a message names it. -/
def Request.missing (r : Request) : List String :=
  (if r.inputFile.isNone then ["--inputFile"] else []) ++
    ["inputdir", "outputdir"].drop r.places.length

def read (words : List String) : Except Ending Options := do
  let words ← (classifyAll words).mapError .refused
  let r ← readWords false {} words
  match r.inputFile, r.places, r.extras with
  | some inputFile, [some input, some output], [] =>
    return ⟨inputFile, r.listing, r.openBrowser, r.verbosity, input, output⟩
  | some _, [_, _], [] => .error .noPlace
  | some _, [_, _], extras =>
    .error (.refused ("unrecognized arguments: " ++ " ".intercalate extras))
  | _, _, _ =>
    .error (.refused ("the following arguments are required: " ++ ", ".intercalate r.missing))

end Shoutmark.CommandLine
