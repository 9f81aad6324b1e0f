import Shoutmark.Highlight.Stream
import Shoutmark.Text.Quoted

/-! A source as a page of its own, coloured and with numbered lines. -/

namespace Shoutmark.Listing

open Highlight (Kind Piece)

/-- The styles a listing may be shown in. -/
def styles : List String :=
  ["abap", "algol", "algol_nu", "arduino", "autumn", "bw", "borland", "coffee", "colorful",
   "default", "dracula", "emacs", "friendly_grayscale", "friendly", "fruity", "github-dark",
   "gruvbox-dark", "gruvbox-light", "igor", "inkpot", "lightbulb", "lilypond", "lovelace", "manni",
   "material", "monokai", "murphy", "native", "night-owl", "nord-darker", "nord", "one-dark",
   "paraiso-dark", "paraiso-light", "pastie", "perldoc", "rainbow_dash", "rrt", "sas",
   "solarized-dark", "solarized-light", "staroffice", "stata-dark", "stata-light", "tango", "trac",
   "vim", "vs", "xcode", "zenburn"]

/-- The names of collections that hold styles, and none of the collection's own name. -/
def collections : List String :=
  ["__init__", "__pycache__", "_mapping", "gh_dark", "gruvbox", "night_owl", "onedark",
   "paraiso_dark", "paraiso_light", "solarized", "stata_dark", "stata_light"]

structure UnknownStyle where
  name : String
  deriving DecidableEq, Repr

/-- Every letter that follows no letter is raised, and every other is lowered. -/
def titleCase (afterLetter : Bool) : List Char → List Char
  | [] => []
  | c :: rest =>
    (if afterLetter then c.toLower else c.toUpper) :: titleCase c.isAlpha rest

/-- A collection lacks the style; any other name lacks the collection. -/
def UnknownStyle.message (e : UnknownStyle) : String :=
  if e.name ∈ collections then
    let style := String.ofList (titleCase false e.name.toList) ++ "Style"
    "Could not find style class " ++ Text.quoted style ++ " in style module."
  else "Could not find style module " ++ Text.quoted ("pygments.styles." ++ e.name) ++ "."

/-- The class of the span around a piece; plain text has none. -/
def spanClass : Kind → Option String
  | .text => none
  | .blank => some "w"
  | .punctuation => some "p"
  | .comment => some "cm"
  | .keyword .structural => some "kd"
  | .keyword .block => some "k"
  | .keyword .inline => some "nf"
  | .keyword .naming => some "nv"
  | .keyword .media => some "nb"
  | .link => some "sx"
  | .unmatched => some "err"

/-- A character of the source as it stands in the listing. -/
def escapeChar : Char → List Char
  | '&' => "&amp;".toList
  | '<' => "&lt;".toList
  | '>' => "&gt;".toList
  | c => [c]

def escape (cs : List Char) : List Char := cs.flatMap escapeChar

def opening : Option String → List Char
  | some c => "<span class=\"".toList ++ c.toList ++ "\">".toList
  | none => []

def closing : Option String → List Char
  | some _ => "</span>".toList
  | none => []

/-- The lines finished so far, the line being written, and the span written last. The span counts
as open only while the line being written is not empty. -/
structure Sheet where
  lines : Array (List Char)
  line : List Char
  span : Option String

namespace Sheet

def blank : Sheet := ⟨#[], [], none⟩

/-- Ends the line with a part of a piece. A part of the same class goes on in the open span. -/
def endLine (span : Option String) (part : List Char) (s : Sheet) : Sheet :=
  if s.line = [] then
    let line := if part = [] then ['\n'] else opening span ++ part ++ closing span ++ ['\n']
    { s with lines := s.lines.push line }
  else
    let line :=
      if s.span ≠ span ∧ part ≠ [] then
        s.line ++ closing s.span ++ opening span ++ part ++ closing span ++ ['\n']
      else s.line ++ part ++ closing s.span ++ ['\n']
    { s with lines := s.lines.push line, line := [] }

/-- Goes on with the line. -/
def extend (span : Option String) (part : List Char) (s : Sheet) : Sheet :=
  if part = [] then s
  else if s.line = [] then { s with line := opening span ++ part, span }
  else if s.span = span then { s with line := s.line ++ part }
  else { s with line := s.line ++ closing s.span ++ opening span ++ part, span }

/-- Writes the parts of a piece, one a line; the last leaves its line unfinished. -/
def writeParts (span : Option String) : List (List Char) → Sheet → Sheet
  | [], s => s
  | [part], s => s.extend span part
  | part :: parts, s => writeParts span parts (s.endLine span part)

/-- Writes a piece of the source. -/
def write (s : Sheet) (p : Piece) : Sheet :=
  s.writeParts (spanClass p.kind) (Text.splitOn '\n' (escape p.text.toList))

/-- The lines, with a line left unfinished brought to its end. -/
def finish (s : Sheet) : List (List Char) :=
  if s.line = [] then s.lines.toList
  else s.lines.toList ++ [s.line ++ closing s.span ++ ['\n']]

end Sheet

/-- The coloured lines of some pieces. -/
def codeLines (pieces : List Piece) : List (List Char) :=
  (pieces.foldl Sheet.write .blank).finish

/-- The numbers of `count` lines, all as wide as the last. -/
def lineNumbers (count : Nat) : List String :=
  let width := (toString count).length
  (List.range count).map fun i =>
    let digits := toString (i + 1)
    "<span class=\"normal\">" ++ String.ofList (List.replicate (width - digits.length) ' ') ++
      digits ++ "</span>"

/-- The title of a listing; without one it is called a source. -/
def titleOf : Option String → String
  | none => "lolmark source"
  | some title => if title = "" then "lolmark source" else title

def address (scheme place : String) : String := scheme ++ "://" ++ place

/-- Who made the listing, as said twice in its head. -/
def credits : String :=
  "\ngenerated by Pygments <" ++ address "https" "pygments.org/" ++ ">\n" ++
  "Copyright 2006-present by the Pygments team.\n" ++
  "Licensed under the BSD license, see LICENSE for details.\n"

/-- The whole page around the numbers and the coloured lines. -/
def document (sheet title numbers code : String) : String :=
  "<!DOCTYPE html PUBLIC \"-//W3C//DTD HTML 4.01//EN\"\n" ++
  "   \"" ++ address "http" "www.w3.org/TR/html4/strict.dtd" ++ "\">\n" ++
  "<!--" ++ credits ++ "-->\n" ++
  "<html>\n<head>\n  <title>" ++ title ++ "</title>\n" ++
  "  <meta http-equiv=\"content-type\" content=\"text/html; charset=None\">\n" ++
  "  <style type=\"text/css\">\n/*" ++ credits ++ "*/\n" ++ sheet ++ "\n\n  </style>\n" ++
  "</head>\n<body>\n<h2>" ++ title ++ "</h2>\n\n" ++
  "<div class=\"highlight\"><table class=\"highlighttable\"><tr><td class=\"linenos\">" ++
  "<div class=\"linenodiv\"><pre>" ++ numbers ++ "</pre></div></td><td class=\"code\"><div>" ++
  "<pre><span></span>" ++ code ++ "</pre></div></td></tr></table></div>\n</body>\n</html>\n"

/-- The listing of a source, with the given style sheet. -/
def page (sheet : String) (title : Option String) (source : String) : String :=
  let lines := codeLines (Highlight.pieces (Highlight.prepare source))
  document sheet (titleOf title) ("\n".intercalate (lineNumbers lines.length))
    (String.ofList lines.flatten)

/-- The listing of a source in a style, if there is such a style. -/
def render (sheet style : String) (title : Option String) (source : String) :
    Except UnknownStyle String :=
  if style ∈ styles then .ok (page sheet title source) else .error ⟨style⟩

end Shoutmark.Listing
