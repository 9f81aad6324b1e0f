import Shoutmark.Grammar.Block

/-! The outer rules: comments, the head with its titles, the body, and the whole program. -/

namespace Shoutmark.Grammar

/-- A comment is read to its end and reported; it writes nothing. -/
def comment : Production Unit := do
  expect .obtw
  let words ← phrase .tldr
  expect .tldr
  report (.comment words)

/-- A title opens the page anew; the last one is the page's title. -/
def title : Production Unit := do
  expect .gimmeh
  expect .title
  let words ← phrase .mkay
  expect .mkay
  entitle words
  report (.title words)
  write ("<html><head><title>" ++ words ++ "</title></head><body>\n")

/-- What stands in the head: a title, or a word that is passed over. -/
def headItem : Production Unit := do
  if (← keyword?) = some .gimmeh then title else advance

private theorem keeps_comment_tail :
    Keeps (do
      let words ← phrase .tldr
      expect .tldr
      report (.comment words)) :=
  (keeps_phrase _).bind fun _ => (keeps_expect _).bind fun _ => keeps_report _

theorem consumes_comment : Consumes comment := (consumes_expect _).bind fun _ => keeps_comment_tail

private theorem keeps_title_tail :
    Keeps (do
      expect .title
      let words ← phrase .mkay
      expect .mkay
      entitle words
      report (.title words)
      write ("<html><head><title>" ++ words ++ "</title></head><body>\n")) :=
  (keeps_expect _).bind fun _ => (keeps_phrase _).bind fun _ => (keeps_expect _).bind fun _ =>
    (keeps_entitle _).bind fun _ => (keeps_report _).bind fun _ => keeps_write _

theorem consumes_title : Consumes title := (consumes_expect _).bind fun _ => keeps_title_tail

theorem consumes_headItem (k : Keyword) : ConsumesIf (Draft.before? · k) headItem := by
  intro d a d' hgo h
  simp only [headItem, bind_apply, keyword?] at h
  split at h
  · exact consumes_title d a d' h
  · cases h
    exact Draft.remaining_advance_lt (Draft.token_ne_empty_of_before? hgo)

/-- The head, if the program has one. -/
def head : Production Unit := do
  if (← keyword?) = some .maek then
    expect .maek
    expect .head
    repeatWhile (Draft.before? · .oic) headItem (consumes_headItem _)
    expect .oic

/-- One item of the body. -/
def bodyItem (lists : Bool) : Production Unit := do
  match ← keyword? with
  | some .maek => block lists
  | some .gimmeh => inline
  | some .lemme => useVariable
  | some .i => defineVariable
  | _ => text

theorem consumes_bodyItem (lists : Bool) : Consumes (bodyItem lists) := by
  refine keeps_keyword?.bind_consumes fun k => ?_
  split
  · exact consumes_block lists
  · exact consumes_inline
  · exact consumes_useVariable
  · exact consumes_defineVariable
  · exact consumes_text

/-- The body closes the page where it ends, be it at the closing word or at the end of the
input. -/
def body (lists : Bool) : Production Unit := do
  repeatWhile (Draft.before? · .kthxbye) (bodyItem lists) ((consumes_bodyItem lists).consumesIf _)
  write "</body></html>"

/-- A whole program. What follows its closing word is never looked at. -/
def program (lists : Bool) : Production Unit := do
  expect .hai
  repeatWhile (Draft.at? · .obtw) comment (consumes_comment.consumesIf _)
  head
  body lists
  expect .kthxbye

end Shoutmark.Grammar
