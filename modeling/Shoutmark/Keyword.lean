import Shoutmark.Text.Case

/-! The fixed words of the markup. A word plays the part of a keyword when it is spelled like one
up to ASCII case. -/

namespace Shoutmark

/-- What a keyword is about. The grammar does not ask for it; colouring a source does. -/
inductive Category
  | structural
  | block
  | inline
  | naming
  | media
  deriving DecidableEq, Repr

/-- The name by which a category is known outside. -/
def Category.label : Category → String
  | .structural => "structural"
  | .block => "block"
  | .inline => "inline"
  | .naming => "variable"
  | .media => "media"

inductive Keyword
  | hai | kthxbye | obtw | tldr
  | maek | oic | head | paragraf | list
  | gimmeh | mkay | title | bold | italics | newline | item
  | i | haz | it | iz | lemme | see
  | soundz | vidz
  deriving DecidableEq, Repr

namespace Keyword

/-- Every keyword, one category after the other. -/
def all : List Keyword :=
  [.hai, .kthxbye, .obtw, .tldr,
   .maek, .oic, .head, .paragraf, .list,
   .gimmeh, .mkay, .title, .bold, .italics, .newline, .item,
   .i, .haz, .it, .iz, .lemme, .see,
   .soundz, .vidz]

def spelling : Keyword → String
  | .hai => "#HAI"
  | .kthxbye => "#KTHXBYE"
  | .obtw => "#OBTW"
  | .tldr => "#TLDR"
  | .maek => "#MAEK"
  | .oic => "#OIC"
  | .head => "HEAD"
  | .paragraf => "PARAGRAF"
  | .list => "LIST"
  | .gimmeh => "#GIMMEH"
  | .mkay => "#MKAY"
  | .title => "TITLE"
  | .bold => "BOLD"
  | .italics => "ITALICS"
  | .newline => "NEWLINE"
  | .item => "ITEM"
  | .i => "#I"
  | .haz => "HAZ"
  | .it => "#IT"
  | .iz => "IZ"
  | .lemme => "#LEMME"
  | .see => "SEE"
  | .soundz => "SOUNDZ"
  | .vidz => "VIDZ"

def category : Keyword → Category
  | .hai | .kthxbye | .obtw | .tldr => .structural
  | .maek | .oic | .head | .paragraf | .list => .block
  | .gimmeh | .mkay | .title | .bold | .italics | .newline | .item => .inline
  | .i | .haz | .it | .iz | .lemme | .see => .naming
  | .soundz | .vidz => .media

/-- The keyword that a word is, if it is one. -/
def ofWord? (word : String) : Option Keyword :=
  all.find? fun k => k.spelling == Text.upper word

theorem mem_all (k : Keyword) : k ∈ all := by
  cases k <;> decide

theorem spelling_injective {a b : Keyword} (h : a.spelling = b.spelling) : a = b := by
  revert h
  cases a <;> cases b <;> decide

@[simp] theorem upper_spelling (k : Keyword) : Text.upper k.spelling = k.spelling := by
  cases k <;> decide

theorem spelling_ne_empty (k : Keyword) : k.spelling ≠ "" := by
  cases k <;> decide

theorem ofWord?_eq_some_iff {word : String} {k : Keyword} :
    ofWord? word = some k ↔ Text.upper word = k.spelling := by
  constructor
  · intro h
    have hk := List.find?_some h
    exact (beq_iff_eq.mp hk).symm
  · intro h
    cases hw : ofWord? word with
    | none =>
      have hn := List.find?_eq_none.mp hw k (mem_all k)
      simp [h] at hn
    | some l =>
      have hl := List.find?_some hw
      rw [spelling_injective ((beq_iff_eq.mp hl).trans h)]

/-- A word is a keyword exactly when it is the same word as the spelling. -/
theorem sameWord_spelling_iff {word : String} {k : Keyword} :
    Text.sameWord word k.spelling = true ↔ ofWord? word = some k := by
  rw [Text.sameWord_iff, upper_spelling, ofWord?_eq_some_iff]

@[simp] theorem ofWord?_spelling (k : Keyword) : ofWord? k.spelling = some k :=
  ofWord?_eq_some_iff.mpr (upper_spelling k)

@[simp] theorem ofWord?_empty : ofWord? "" = none := by
  decide

end Keyword

end Shoutmark
