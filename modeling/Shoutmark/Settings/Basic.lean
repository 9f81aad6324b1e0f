import Shoutmark.Text.Lower

/-! What may be set: how files are named, whether lists are read, and how results are shown. -/

namespace Shoutmark

structure Settings where
  sourceExtension : String := ".lol"
  outputExtension : String := ".html"
  /-- Refuse a source whose name does not end in the source extension. -/
  strictExtension : Bool := true
  listsEnabled : Bool := false
  openBrowser : Bool := false
  /-- The browser to show a page in; the usual one if there is none. -/
  browser : Option String := none
  listingStyle : String := "default"
  deriving DecidableEq, Repr

namespace Settings

/-- The name ends in the source extension, whatever the case of either. -/
def hasExtension (s : Settings) (name : String) : Bool :=
  Text.endsWithAnyCase name s.sourceExtension

def admits (s : Settings) (name : String) : Bool := !s.strictExtension || s.hasExtension name

/-- The name less as many characters as the source extension has, if it ends in it. An empty
extension leaves nothing of the name. -/
def stem (s : Settings) (name : String) : String :=
  if s.hasExtension name then
    if s.sourceExtension = "" then ""
    else String.ofList (name.toList.take (name.length - s.sourceExtension.length))
  else name

def outputName (s : Settings) (name : String) : String := s.stem name ++ s.outputExtension

def listingName (s : Settings) (name : String) : String :=
  s.stem name ++ ".source" ++ s.outputExtension

end Settings

end Shoutmark
