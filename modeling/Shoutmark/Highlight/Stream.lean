import Shoutmark.Highlight.Pattern
import Shoutmark.Keyword
import Shoutmark.Text.Lines

/-! A source as a stream of coloured pieces. At each place the first rule that fits takes its
piece; nothing is merged and nothing is lost. -/

namespace Shoutmark.Highlight

/-- What a piece of a source is. -/
inductive Kind
  | blank
  | text
  | punctuation
  | comment
  | keyword (c : Category)
  | link
  /-- A character that no rule takes. -/
  | unmatched
  deriving DecidableEq, Repr

/-- Where in a source the rules apply: on the page, or inside a comment. -/
inductive Mode
  | page
  | comment
  deriving DecidableEq, Repr

/-- What a rule does to the modes that are open. -/
inductive Move
  | stay
  | enter (m : Mode)
  | leave
  deriving DecidableEq, Repr

/-- The open modes after a move, the innermost first. The outermost is never left. -/
def Move.apply : Move → List Mode → List Mode
  | .stay, modes => modes
  | .enter m, modes => m :: modes
  | .leave, [m] => [m]
  | .leave, modes => modes.tail

structure Rule where
  pattern : Pattern
  kind : Kind
  move : Move

/-- A keyword as a whole word. -/
def wholeWord (k : Keyword) : Pattern := (literal k.spelling.toList).toWordEnd

def keywordRule (c : Category) : Rule :=
  ⟨firstOf ((Keyword.all.filter (·.category = c)).map wholeWord), .keyword c, .stay⟩

def isPunctuation (c : Char) : Bool := c == '.' || c == ',' || c == '!' || c == '?'

/-- The rules of a mode, the first to be tried first. -/
def rules : Mode → List Rule
  | .page =>
    [⟨blanks, .blank, .stay⟩,
     ⟨wholeWord .obtw, .comment, .enter .comment⟩,
     keywordRule .structural,
     keywordRule .block,
     keywordRule .inline,
     keywordRule .naming,
     keywordRule .media,
     ⟨link, .link, .stay⟩,
     ⟨(single isPunctuation).toWordEnd, .punctuation, .stay⟩,
     ⟨word, .text, .stay⟩]
  | .comment =>
    [⟨wholeWord .tldr, .comment, .leave⟩,
     ⟨blanks, .comment, .stay⟩,
     ⟨word, .comment, .stay⟩]

/-- The first rule that fits, with the number of characters it takes. -/
def firstFit (rs : List Rule) (cs : List Char) : Option (Nat × Rule) :=
  rs.findSome? fun r => (r.pattern cs).map fun n => (n, r)

/-- A piece of a source with the place where it starts. -/
structure Piece where
  start : Nat
  kind : Kind
  text : String
  deriving DecidableEq, Repr

/-- The pieces of a text that starts at a place with some modes open. A rule that takes nothing
counts as not fitting, and a character that no rule takes is a piece of its own. -/
def piecesFrom (modes : List Mode) (start : Nat) : List Char → List Piece
  | [] => []
  | c :: cs =>
    match firstFit (rules (modes.headD .page)) (c :: cs) with
    | some (n + 1, r) =>
      ⟨start, r.kind, String.ofList ((c :: cs).take (n + 1))⟩ ::
        piecesFrom (r.move.apply modes) (start + (n + 1)) (cs.drop n)
    | _ => ⟨start, .unmatched, String.singleton c⟩ :: piecesFrom modes (start + 1) cs
termination_by cs => cs.length
decreasing_by
  all_goals simp only [List.length_drop, List.length_cons]
  all_goals omega

/-- The pieces of a source as it stands. -/
def pieces (source : String) : List Piece := piecesFrom [.page] 0 source.toList

/-- The characters without the line feeds at both ends. -/
def trimLineFeeds (cs : List Char) : List Char :=
  ((cs.dropWhile (· == '\n')).reverse.dropWhile (· == '\n')).reverse

/-- A source made ready for display: no byte order mark, line ends unified, no empty lines at
either end, and one line feed at the end. -/
def prepare (source : String) : String :=
  let cs := Text.unifyLineEnds (Text.dropByteOrderMark source.toList)
  String.ofList (trimLineFeeds cs ++ ['\n'])

end Shoutmark.Highlight
