import Shoutmark.Grammar.Program

/-! The grammar read one token at a time. A place says what is open and what has been gathered
for it; one token leads from a place to the next, ends the program or is refused. No place looks
further than the token at hand, and an empty token stands for the end of the input. -/

namespace Shoutmark.Reading
open Shoutmark.Grammar

/-- A draft without its place among the tokens. -/
structure Sheet where
  html : Array String
  values : Variables
  title : Option String
  events : Array Event
  deriving DecidableEq, Repr

namespace Sheet

def blank : Sheet := ⟨#[], .empty, none, #[]⟩

def write (piece : String) (s : Sheet) : Sheet := { s with html := s.html.push piece }

def writeSpaced (tokens : List String) (s : Sheet) : Sheet :=
  { s with html := s.html ++ tokens.map (· ++ " ") }

def tell (e : Event) (s : Sheet) : Sheet := { s with events := s.events.push e }

def define (name value : String) (s : Sheet) : Sheet :=
  { s with values := s.values.set name value }

def entitle (title : String) (s : Sheet) : Sheet := { s with title := some title }

def draft (c : Cursor) (s : Sheet) : Draft := ⟨c, s.html, s.values, s.title, s.events⟩

end Sheet

end Shoutmark.Reading

namespace Shoutmark.Draft
open Shoutmark.Reading

/-- What a draft holds besides its cursor. -/
def sheet (d : Draft) : Sheet := ⟨d.html, d.values, d.title, d.events⟩

@[simp] theorem sheet_draft (c : Cursor) (s : Sheet) : (s.draft c).sheet = s := rfl
@[simp] theorem cursor_draft (c : Cursor) (s : Sheet) : (s.draft c).cursor = c := rfl
@[simp] theorem draft_sheet (d : Draft) : d.sheet.draft d.cursor = d := rfl
@[simp] theorem sheet_advance (d : Draft) : d.advance.sheet = d.sheet := rfl
@[simp] theorem cursor_advance (d : Draft) : d.advance.cursor = d.cursor.advance := rfl
@[simp] theorem sheet_start (tokens : List String) : (start tokens).sheet = .blank := rfl

end Shoutmark.Draft

namespace Shoutmark.Reading
open Shoutmark.Grammar

/-- How a run of tokens is set off from the text around it. -/
inductive Style
  | bold
  | italics
  deriving DecidableEq, Repr

def Style.word : Style → Keyword
  | .bold => .bold
  | .italics => .italics

def Style.tag : Style → String
  | .bold => "b"
  | .italics => "i"

/-- What is played at an address. -/
inductive Medium
  | audio
  | video
  deriving DecidableEq, Repr

def Medium.word : Medium → Keyword
  | .audio => .soundz
  | .video => .vidz

def Medium.player : Medium → String → String
  | .audio => Grammar.player "audio" "audio/mpeg"
  | .video => Grammar.player "video" "video/mp4"

def Medium.diagnostic : Medium → String → Diagnostic
  | .audio => .audio
  | .video => .video

/-- Where inline forms stand. -/
inductive Frame
  | body
  | paragraph
  | item
  deriving DecidableEq, Repr

def Frame.closing : Frame → Keyword
  | .body => .kthxbye
  | .paragraph => .oic
  | .item => .mkay

/-- What is written when the forms of a frame end. -/
def Frame.tail : Frame → String
  | .body => "</body></html>"
  | .paragraph => "</p>\n"
  | .item => "</li>\n"

/-- What is open between two tokens, with the words gathered for it. -/
inductive Place
  /-- Nothing is read. -/
  | start
  /-- Comments may come, then the head or the body. -/
  | opening
  | comment (words : List String)
  | headWord
  | head
  | titleWord
  | titleText (words : List String)
  /-- Between two inline forms. -/
  | forms (f : Frame)
  /-- A block of the body is opened. -/
  | block
  | items
  | itemWord
  /-- A construct is opened and its word comes next. -/
  | construct (f : Frame)
  | styled (f : Frame) (style : Style) (words : List String)
  | address (f : Frame) (m : Medium)
  | addressEnd (f : Frame) (m : Medium) (address : String)
  | haz (f : Frame)
  | name (f : Frame)
  | it (f : Frame) (name : String)
  | iz (f : Frame) (name : String)
  | value (f : Frame) (name : String) (words : List String)
  | see (f : Frame)
  | usedName (f : Frame)
  | useEnd (f : Frame) (name : String)
  deriving DecidableEq, Repr

/-- The place takes any token, an empty one too. -/
def Place.takes : Place → Bool
  | .address _ _ | .name _ | .usedName _ => true
  | _ => false

/-- How far a program is read. -/
inductive Progress
  | going (q : Place) (s : Sheet)
  | finished (s : Sheet)
  | refused (f : Fault) (s : Sheet)
  deriving DecidableEq, Repr

/-- Goes on if the token is the keyword. -/
def require (k : Keyword) (t : String) (s : Sheet) (next : Progress) : Progress :=
  if Keyword.ofWord? t = some k then next else .refused (.mismatch k.spelling t) s

def gather (k : Keyword) (t : String) (s : Sheet) (more next : Progress) : Progress :=
  if t = "" ∨ Keyword.ofWord? t = some k then require k t s next else more

/-- Words as one text, a space between two of them and no blanks around. -/
def phraseOf (words : List String) : String := Text.strip (" ".intercalate words)

/-- A text token as it is written. -/
def textPiece (word : String) : String := if word ∈ punctuation then word else word ++ " "

/-- What comes after a frame whose closing word is read. -/
def Frame.leave : Frame → Sheet → Progress
  | .body, s => .finished s
  | .paragraph, s => .going (.forms .body) s
  | .item, s => .going .items s

/-- The first token of a form. -/
def stepForm (f : Frame) (t : String) (s : Sheet) : Progress :=
  match Keyword.ofWord? t with
  | some .gimmeh => .going (.construct f) s
  | some .lemme => .going (.see f) s
  | some .i => .going (.haz f) s
  | _ =>
    if isText t then .going (.forms f) (s.write (textPiece t)) else .refused (.notText t) s

/-- The first token of a form, of a block where one may stand, or the end of the frame. -/
def stepForms (f : Frame) (t : String) (s : Sheet) : Progress :=
  gather f.closing t (s.write f.tail)
    (if f = .body ∧ Keyword.ofWord? t = some .maek then .going .block s else stepForm f t s)
    (f.leave (s.write f.tail))

/-- The word that says which construct is opened. -/
def stepConstruct (f : Frame) (t : String) (s : Sheet) : Progress :=
  match Keyword.ofWord? t with
  | some .bold => .going (.styled f .bold []) (s.write "<b>")
  | some .italics => .going (.styled f .italics []) (s.write "<i>")
  | some .newline => .going (.forms f) (s.write "<br/>\n")
  | some .soundz => .going (.address f .audio) s
  | some .vidz => .going (.address f .video) s
  | _ => .refused (.unknownConstruct t) s

/-- The end of a variable's use, where its value is looked up. -/
def useValue (f : Frame) (name : String) (s : Sheet) : Progress :=
  match s.values.get? name with
  | some value => .going (.forms f) (s.write (value ++ " "))
  | none => .refused (.undefinedVariable name) s

/-- What a finished title does to the sheet. -/
def Sheet.headline (words : List String) (s : Sheet) : Sheet :=
  ((s.entitle (phraseOf words)).tell (.diagnostic (.title (phraseOf words)))).write
    ("<html><head><title>" ++ phraseOf words ++ "</title></head><body>\n")

def step (lists : Bool) : Place → String → Sheet → Progress
  | .start, t, s => require .hai t s (.going .opening s)
  | .opening, t, s =>
    match Keyword.ofWord? t with
    | some .obtw => .going (.comment []) s
    | some .maek => .going .headWord s
    | _ => stepForms .body t s
  | .comment words, t, s =>
    gather .tldr t s (.going (.comment (words ++ [t])) s)
      (.going .opening (s.tell (.diagnostic (.comment (phraseOf words)))))
  | .headWord, t, s => require .head t s (.going .head s)
  | .head, t, s =>
    gather .oic t s
      (if Keyword.ofWord? t = some .gimmeh then .going .titleWord s else .going .head s)
      (.going (.forms .body) s)
  | .titleWord, t, s => require .title t s (.going (.titleText []) s)
  | .titleText words, t, s =>
    gather .mkay t s (.going (.titleText (words ++ [t])) s) (.going .head (s.headline words))
  | .forms f, t, s => stepForms f t s
  | .block, t, s =>
    if lists ∧ Keyword.ofWord? t = some .list then .going .items (s.write "<ul>\n")
    else require .paragraf t s (.going (.forms .paragraph) (s.write "<p>"))
  | .items, t, s =>
    if Keyword.ofWord? t = some .gimmeh then .going .itemWord s
    else require .oic t (s.write "</ul>\n") (.going (.forms .body) (s.write "</ul>\n"))
  | .itemWord, t, s => require .item t s (.going (.forms .item) (s.write "<li>"))
  | .construct f, t, s => stepConstruct f t s
  | .styled f style words, t, s =>
    gather .mkay t (s.writeSpaced words) (.going (.styled f style (words ++ [t])) s)
      (.going (.forms f) ((s.writeSpaced words).write ("</" ++ style.tag ++ ">")))
  | .address f m, t, s => .going (.addressEnd f m t) s
  | .addressEnd f m a, t, s =>
    require .mkay t s
      (.going (.forms f) ((s.write (m.player a)).tell (.diagnostic (m.diagnostic a))))
  | .haz f, t, s => require .haz t s (.going (.name f) s)
  | .name f, t, s => .going (.it f t) s
  | .it f n, t, s => require .it t s (.going (.iz f n) s)
  | .iz f n, t, s => require .iz t s (.going (.value f n []) s)
  | .value f n words, t, s =>
    gather .mkay t (s.define n (phraseOf words)) (.going (.value f n (words ++ [t])) s)
      (.going (.forms f)
        ((s.define n (phraseOf words)).tell (.variableDefined n (phraseOf words))))
  | .see f, t, s => require .see t s (.going (.usedName f) s)
  | .usedName f, t, s => .going (.useEnd f t) s
  | .useEnd f n, t, s => require .mkay t s (useValue f n s)

/-- What a token does to a reading. A program that has ended stays as it is. -/
def Progress.next (lists : Bool) : Progress → String → Progress
  | .going q s, t => step lists q t s
  | p, _ => p

def feed (lists : Bool) (p : Progress) (tokens : List String) : Progress :=
  tokens.foldl (Progress.next lists) p

variable {lists : Bool}

@[simp] theorem feed_nil (p : Progress) : feed lists p [] = p := rfl

@[simp] theorem feed_going_cons (q : Place) (s : Sheet) (t : String) (u : List String) :
    feed lists (.going q s) (t :: u) = feed lists (step lists q t s) u := rfl

theorem feed_append (p : Progress) (u v : List String) :
    feed lists p (u ++ v) = feed lists (feed lists p u) v :=
  List.foldl_append

@[simp] theorem feed_finished (s : Sheet) (u : List String) :
    feed lists (.finished s) u = .finished s := by
  induction u with
  | nil => rfl
  | cons t u ih => exact ih

@[simp] theorem feed_refused (f : Fault) (s : Sheet) (u : List String) :
    feed lists (.refused f s) u = .refused f s := by
  induction u with
  | nil => rfl
  | cons t u ih => exact ih

theorem require_of_eq {k : Keyword} {t : String} (h : Keyword.ofWord? t = some k) (s : Sheet)
    (next : Progress) : require k t s next = next :=
  if_pos h

theorem gather_of_eq {k : Keyword} {t : String} (h : Keyword.ofWord? t = some k) (s : Sheet)
    (more next : Progress) : gather k t s more next = next := by
  rw [gather, if_pos (Or.inr h), require_of_eq h]

theorem gather_of_ne {k : Keyword} {t : String} (ht : t ≠ "") (h : Keyword.ofWord? t ≠ some k)
    (s : Sheet) (more next : Progress) : gather k t s more next = more :=
  if_neg (not_or.mpr ⟨ht, h⟩)

/-- What holds of a refusal, and of what comes after the keyword, holds where it is required. -/
theorem require_of {P : Progress → Prop} {k : Keyword} {t : String} {s : Sheet} {next : Progress}
    (refused : P (.refused (.mismatch k.spelling t) s))
    (met : Keyword.ofWord? t = some k → P next) : P (require k t s next) := by
  unfold require
  split
  · exact met ‹_›
  · exact refused

theorem gather_of {P : Progress → Prop} {k : Keyword} {t : String} {s : Sheet}
    {more next : Progress} (refused : P (.refused (.mismatch k.spelling t) s))
    (more' : t ≠ "" → Keyword.ofWord? t ≠ some k → P more)
    (met : Keyword.ofWord? t = some k → P next) : P (gather k t s more next) := by
  unfold gather
  split
  · exact require_of refused met
  · rename_i h
    obtain ⟨ht, hk⟩ := not_or.mp h
    exact more' ht hk

@[simp] theorem require_empty (k : Keyword) (s : Sheet) (next : Progress) :
    require k "" s next = .refused (.mismatch k.spelling "") s := by
  rw [require, if_neg (by simp)]

@[simp] theorem gather_empty (k : Keyword) (s : Sheet) (more next : Progress) :
    gather k "" s more next = .refused (.mismatch k.spelling "") s := by
  rw [gather, if_pos (Or.inl rfl), require_empty]

/-! ### Words that open a form -/

theorem stepForms_word (f : Frame) {t : String} {k : Keyword} (ht : Keyword.ofWord? t = some k)
    (hc : k ≠ f.closing) (hm : k ≠ .maek) (s : Sheet) : stepForms f t s = stepForm f t s := by
  have hne : t ≠ "" := fun he => by simp [he] at ht
  have hclose : Keyword.ofWord? t ≠ some f.closing := by simpa [ht] using hc
  have hblock : ¬ (f = .body ∧ Keyword.ofWord? t = some .maek) := by
    rintro ⟨-, h⟩
    rw [ht] at h
    exact hm (Option.some.inj h)
  rw [stepForms, gather_of_ne hne hclose, if_neg hblock]

theorem step_i (f : Frame) {t : String} (ht : Keyword.ofWord? t = some .i) (s : Sheet) :
    step lists (.forms f) t s = .going (.haz f) s := by
  rw [step, stepForms_word f ht (by cases f <;> decide) (by decide), stepForm, ht]

theorem step_lemme (f : Frame) {t : String} (ht : Keyword.ofWord? t = some .lemme) (s : Sheet) :
    step lists (.forms f) t s = .going (.see f) s := by
  rw [step, stepForms_word f ht (by cases f <;> decide) (by decide), stepForm, ht]

end Shoutmark.Reading
