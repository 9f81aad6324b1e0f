import Shoutmark.Grammar.Inline

/-! Blocks of the body: paragraphs, and lists where they are enabled. A block's closing tag is
written when its forms end, before the closing word is looked for. -/

namespace Shoutmark.Grammar

/-- A paragraph after the word that opens the block. -/
def paragraphContent : Production Unit := do
  expect .paragraf
  write "<p>"
  repeatWhile (Draft.before? · .oic) inline (consumes_inline.consumesIf _)
  write "</p>\n"
  expect .oic

def paragraph : Production Unit := do
  expect .maek
  paragraphContent

def listItem : Production Unit := do
  expect .gimmeh
  expect .item
  write "<li>"
  repeatWhile (Draft.before? · .mkay) inline (consumes_inline.consumesIf _)
  write "</li>\n"
  expect .mkay

private theorem keeps_listItem_tail :
    Keeps (do
      expect .item
      write "<li>"
      repeatWhile (Draft.before? · .mkay) inline (consumes_inline.consumesIf _)
      write "</li>\n"
      expect .mkay) :=
  (keeps_expect _).bind fun _ => (keeps_write _).bind fun _ =>
    (keeps_repeatWhile _ keeps_inline).bind fun _ => (keeps_write _).bind fun _ => keeps_expect _

theorem keeps_listItem : Keeps listItem := (keeps_expect _).bind fun _ => keeps_listItem_tail

theorem consumes_listItem : Consumes listItem :=
  (consumes_expect _).bind fun _ => keeps_listItem_tail

/-- A list after the word that opens the block: items as long as one is opened. -/
def listContent : Production Unit := do
  expect .list
  write "<ul>\n"
  repeatWhile (Draft.at? · .gimmeh) listItem (consumes_listItem.consumesIf _)
  write "</ul>\n"
  expect .oic

/-- A block of the body. With lists enabled the word LIST opens a list; every other block is a
paragraph. -/
def block (lists : Bool) : Production Unit := do
  expect .maek
  if lists && (← keyword?) = some .list then listContent else paragraphContent

/-! ### How much they read -/

private theorem keeps_paragraphContent_tail :
    Keeps (do
      write "<p>"
      repeatWhile (Draft.before? · .oic) inline (consumes_inline.consumesIf _)
      write "</p>\n"
      expect .oic) :=
  (keeps_write _).bind fun _ => (keeps_repeatWhile _ keeps_inline).bind fun _ =>
    (keeps_write _).bind fun _ => keeps_expect _

theorem keeps_paragraphContent : Keeps paragraphContent :=
  (keeps_expect _).bind fun _ => keeps_paragraphContent_tail

theorem consumes_paragraphContent : Consumes paragraphContent :=
  (consumes_expect _).bind fun _ => keeps_paragraphContent_tail

theorem consumes_paragraph : Consumes paragraph :=
  (consumes_expect _).bind fun _ => keeps_paragraphContent

private theorem keeps_listContent_tail :
    Keeps (do
      write "<ul>\n"
      repeatWhile (Draft.at? · .gimmeh) listItem (consumes_listItem.consumesIf _)
      write "</ul>\n"
      expect .oic) :=
  (keeps_write _).bind fun _ => (keeps_repeatWhile _ keeps_listItem).bind fun _ =>
    (keeps_write _).bind fun _ => keeps_expect _

theorem keeps_listContent : Keeps listContent :=
  (keeps_expect _).bind fun _ => keeps_listContent_tail

theorem consumes_listContent : Consumes listContent :=
  (consumes_expect _).bind fun _ => keeps_listContent_tail

private theorem keeps_block_tail (lists : Bool) :
    Keeps (do if lists && (← keyword?) = some .list then listContent else paragraphContent) := by
  refine keeps_keyword?.bind fun k => ?_
  split
  · exact keeps_listContent
  · exact keeps_paragraphContent

theorem consumes_block (lists : Bool) : Consumes (block lists) :=
  (consumes_expect _).bind fun _ => keeps_block_tail lists

end Shoutmark.Grammar
