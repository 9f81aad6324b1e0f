import Shoutmark.Grammar.Production

/-! Inline forms: text, styled text, line breaks, sound and pictures, and variables. -/

namespace Shoutmark.Grammar

/-- Marks that stand as a word of their own and are written with no space after them. -/
def punctuation : List String := [".", ",", "!", "?"]

/-- Text is an ASCII word that does not start like a special word. -/
def isText (token : String) : Bool :=
  token != "" && token.toList.head? != some '#' && Text.isAscii token

/-- Writes the token at hand, with a space after it unless it is a punctuation mark. -/
def text : Production Unit := do
  let word ← token
  if isText word then
    write (if word ∈ punctuation then word else word ++ " ")
    advance
  else fail (.notText word)

/-- Writes the tokens up to the end of the form between an opening and a closing tag. -/
def styled (word tag : String) : Production Unit := do
  matchWord word
  write ("<" ++ tag ++ ">")
  let words ← collect Keyword.mkay.spelling
  writeSpaced words
  expect .mkay
  write ("</" ++ tag ++ ">")

def bold : Production Unit := styled Keyword.bold.spelling "b"

def italics : Production Unit := styled Keyword.italics.spelling "i"

def newline : Production Unit := do
  expect .newline
  write "<br/>\n"

/-- Takes the address after the given word, whatever token it is. -/
def media (word : String) : Production String := do
  matchWord word
  let address ← take
  expect .mkay
  return address

/-- The piece that plays an address. -/
def player (tag kind address : String) : String :=
  "<" ++ tag ++ " controls>\n  <source src=\"" ++ address ++ "\" type=\"" ++ kind ++ "\">\n</" ++
    tag ++ ">\n"

def audio : Production Unit := do
  let address ← media Keyword.soundz.spelling
  write (player "audio" "audio/mpeg" address)
  report (.audio address)

def video : Production Unit := do
  let address ← media Keyword.vidz.spelling
  write (player "video" "video/mp4" address)
  report (.video address)

/-- Gives a variable its value. The value holds from the end of the input on, even if the closing
word is then found missing. -/
def defineVariable : Production Unit := do
  expect .i
  expect .haz
  let name ← take
  expect .it
  expect .iz
  let value ← phrase .mkay
  define name value
  expect .mkay
  tell (.variableDefined name value)

/-- Writes the value that a name has at this point of the page. -/
def writeValue (name : String) : Production Unit := do
  let d ← get
  match d.values.get? name with
  | some value => write (value ++ " ")
  | none => fail (.undefinedVariable name)

/-- The name is looked up once the form is read to its end. -/
def useVariable : Production Unit := do
  expect .lemme
  expect .see
  let name ← take
  expect .mkay
  writeValue name

/-- The form that a construct's word opens. -/
def construct : Production Unit := do
  match ← keyword? with
  | some .bold => bold
  | some .italics => italics
  | some .newline => newline
  | some .soundz => audio
  | some .vidz => video
  | _ => fail (.unknownConstruct (← token))

def inline : Production Unit := do
  match ← keyword? with
  | some .gimmeh =>
    advance
    construct
  | some .lemme => useVariable
  | some .i => defineVariable
  | _ => text

/-! ### How much they read -/

theorem consumes_text : Consumes text := by
  intro d a d' h
  simp only [text, bind_apply, token] at h
  split at h
  · rename_i ht
    cases h
    have hne : d.cursor.token ≠ "" := fun he => by simp [isText, he] at ht
    exact Draft.remaining_advance_lt hne
  · cases h

theorem keeps_text : Keeps text := by
  intro d
  simp only [text, bind_apply, token]
  split
  · exact d.remaining_advance_le
  · exact Nat.le_refl _

private theorem keeps_styled_tail (tag : String) :
    Keeps (do
      write ("<" ++ tag ++ ">")
      let words ← collect Keyword.mkay.spelling
      writeSpaced words
      expect .mkay
      write ("</" ++ tag ++ ">")) :=
  (keeps_write _).bind fun _ => (keeps_collect _).bind fun _ => (keeps_writeSpaced _).bind fun _ =>
    (keeps_expect _).bind fun _ => keeps_write _

theorem keeps_styled (word tag : String) : Keeps (styled word tag) :=
  (keeps_matchWord word).bind fun _ => keeps_styled_tail tag

theorem consumes_styled {word : String} (h : word ≠ "") (tag : String) :
    Consumes (styled word tag) :=
  (consumes_matchWord h).bind fun _ => keeps_styled_tail tag

theorem keeps_bold : Keeps bold := keeps_styled _ _
theorem consumes_bold : Consumes bold := consumes_styled (Keyword.spelling_ne_empty _) _
theorem keeps_italics : Keeps italics := keeps_styled _ _
theorem consumes_italics : Consumes italics := consumes_styled (Keyword.spelling_ne_empty _) _

theorem keeps_newline : Keeps newline := (keeps_expect _).bind fun _ => keeps_write _
theorem consumes_newline : Consumes newline := (consumes_expect _).bind fun _ => keeps_write _

private theorem keeps_media_tail :
    Keeps (do
      let address ← take
      expect .mkay
      return address) :=
  keeps_take.bind fun _ => (keeps_expect _).bind fun _ => keeps_pure _

theorem keeps_media (word : String) : Keeps (media word) :=
  (keeps_matchWord word).bind fun _ => keeps_media_tail

theorem consumes_media {word : String} (h : word ≠ "") : Consumes (media word) :=
  (consumes_matchWord h).bind fun _ => keeps_media_tail

theorem keeps_audio : Keeps audio :=
  (keeps_media _).bind fun _ => (keeps_write _).bind fun _ => keeps_report _

theorem consumes_audio : Consumes audio :=
  (consumes_media (Keyword.spelling_ne_empty _)).bind fun _ =>
    (keeps_write _).bind fun _ => keeps_report _

theorem keeps_video : Keeps video :=
  (keeps_media _).bind fun _ => (keeps_write _).bind fun _ => keeps_report _

theorem consumes_video : Consumes video :=
  (consumes_media (Keyword.spelling_ne_empty _)).bind fun _ =>
    (keeps_write _).bind fun _ => keeps_report _

private theorem keeps_defineVariable_tail :
    Keeps (do
      expect .haz
      let name ← take
      expect .it
      expect .iz
      let value ← phrase .mkay
      define name value
      expect .mkay
      tell (.variableDefined name value)) :=
  (keeps_expect _).bind fun _ => keeps_take.bind fun _ => (keeps_expect _).bind fun _ =>
    (keeps_expect _).bind fun _ => (keeps_phrase _).bind fun _ => (keeps_define _ _).bind fun _ =>
      (keeps_expect _).bind fun _ => keeps_tell _

theorem keeps_defineVariable : Keeps defineVariable :=
  (keeps_expect _).bind fun _ => keeps_defineVariable_tail

theorem consumes_defineVariable : Consumes defineVariable :=
  (consumes_expect _).bind fun _ => keeps_defineVariable_tail

theorem keeps_writeValue (name : String) : Keeps (writeValue name) := by
  refine Keeps.bind (fun _ => Nat.le_refl _) fun d => ?_
  split
  · exact keeps_write _
  · exact keeps_fail _

private theorem keeps_useVariable_tail :
    Keeps (do
      expect .see
      let name ← take
      expect .mkay
      writeValue name) :=
  (keeps_expect _).bind fun _ => keeps_take.bind fun _ => (keeps_expect _).bind fun _ =>
    keeps_writeValue _

theorem keeps_useVariable : Keeps useVariable :=
  (keeps_expect _).bind fun _ => keeps_useVariable_tail

theorem consumes_useVariable : Consumes useVariable :=
  (consumes_expect _).bind fun _ => keeps_useVariable_tail

theorem keeps_construct : Keeps construct := by
  refine keeps_keyword?.bind fun k => ?_
  split
  · exact keeps_bold
  · exact keeps_italics
  · exact keeps_newline
  · exact keeps_audio
  · exact keeps_video
  · exact keeps_token.bind fun _ => keeps_fail _

theorem consumes_construct : Consumes construct := by
  refine keeps_keyword?.bind_consumes fun k => ?_
  split
  · exact consumes_bold
  · exact consumes_italics
  · exact consumes_newline
  · exact consumes_audio
  · exact consumes_video
  · exact keeps_token.bind_consumes fun _ => consumes_fail _

theorem keeps_inline : Keeps inline := by
  refine keeps_keyword?.bind fun k => ?_
  split
  · exact keeps_advance.bind fun _ => keeps_construct
  · exact keeps_useVariable
  · exact keeps_defineVariable
  · exact keeps_text

theorem consumes_inline : Consumes inline := by
  refine keeps_keyword?.bind_consumes fun k => ?_
  split
  · exact keeps_advance.bind_consumes fun _ => consumes_construct
  · exact consumes_useVariable
  · exact consumes_defineVariable
  · exact consumes_text

end Shoutmark.Grammar
