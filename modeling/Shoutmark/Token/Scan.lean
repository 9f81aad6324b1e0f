import Shoutmark.Keyword

/-! The words of a source text. Space, tab, CR and LF stand between words. A '#' always opens a
special word, which takes the longest run of ASCII letters, digits and URL signs after it and must
be a keyword or a web address. Every other run of characters is a plain word. -/

namespace Shoutmark.Token

/-- The characters that stand between words. -/
def isSeparator (c : Char) : Bool := c == ' ' || c == '\t' || c == '\r' || c == '\n'

/-- The character that opens a special word. -/
def specialMark : Char := '#'

/-- The signs of a web address that may stand in a special word. -/
def urlSigns : List Char := [':', '/', '.', '?', '=', '&', '-', '%']

/-- The character may stand in a special word after its mark. -/
def continuesSpecial (c : Char) : Bool := c.isAlphanum || urlSigns.contains c

def isPlain (c : Char) : Bool := !isSeparator c && c != specialMark

/-- How every web address starts. -/
def urlStart : List Char := ['h', 't', 't', 'p']

/-- A special word is a keyword, or a web address with or without its mark. -/
def isValidSpecial (word : String) : Bool :=
  (Keyword.ofWord? word).isSome || urlStart.isPrefixOf word.toList ||
    urlStart.isPrefixOf word.toList.tail

/-- What reading a text comes to: the words in order, the special word that ended the reading if
one was not valid, and the text after the last character read. -/
structure Scan where
  tokens : List String
  invalid : Option String
  rest : List Char
  deriving DecidableEq, Repr

/-- The same reading with words before it. -/
def Scan.after (words : List String) (s : Scan) : Scan :=
  { s with tokens := words ++ s.tokens }

theorem length_dropWhile_le (p : Char → Bool) (cs : List Char) :
    (cs.dropWhile p).length ≤ cs.length :=
  (List.dropWhile_sublist p).length_le

/-- Reads a text up to its end or its first special word that is not valid. -/
def scan : List Char → Scan
  | [] => ⟨[], none, []⟩
  | c :: cs =>
    if isSeparator c then scan cs
    else if c = specialMark then
      let word := String.ofList (c :: cs.takeWhile continuesSpecial)
      let rest := cs.dropWhile continuesSpecial
      if isValidSpecial word then (scan rest).after [word] else ⟨[], some word, rest⟩
    else (scan (cs.dropWhile isPlain)).after [String.ofList (c :: cs.takeWhile isPlain)]
termination_by cs => cs.length
decreasing_by
  all_goals simp_wf
  all_goals grind [length_dropWhile_le]

/-- The words of a source, or the first special word that is not valid. -/
def tokenize (source : String) : Except String (List String) :=
  let s := scan source.toList
  match s.invalid with
  | some word => .error word
  | none => .ok s.tokens

end Shoutmark.Token
