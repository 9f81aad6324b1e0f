import Shoutmark.Text.Blank

/-! Marked text as trees. What a tree is written as has the tags of the tree and no others; they
stand as the tree has them, so elements are closed in the order in which they were opened, last one
first. -/

namespace Shoutmark.Markup

/-- Elements that are closed by a tag of their own. -/
inductive Element
  | p
  | ul
  | li
  | b
  | i
  | audio
  | video
  deriving DecidableEq, Repr

def Element.name : Element → String
  | .p => "p"
  | .ul => "ul"
  | .li => "li"
  | .b => "b"
  | .i => "i"
  | .audio => "audio"
  | .video => "video"

def Element.opening : Element → String
  | .audio => "audio controls"
  | .video => "video controls"
  | e => e.name

inductive Node
  | text (s : String)
  | lineBreak
  /-- What a player plays. -/
  | source (address kind : String)
  | element (e : Element) (content : List Node)

def sourceTag (address kind : String) : String :=
  "source src=\"" ++ address ++ "\" type=\"" ++ kind ++ "\""

def bracketed (tag : String) : String := "<" ++ tag ++ ">"

mutual
def Node.write : Node → String
  | .text s => s
  | .lineBreak => bracketed "br/"
  | .source a k => bracketed (sourceTag a k)
  | .element e ns => bracketed e.opening ++ writeAll ns ++ bracketed ("/" ++ e.name)

def writeAll : List Node → String
  | [] => ""
  | n :: ns => n.write ++ writeAll ns
end

mutual
def Node.tags : Node → List String
  | .text _ => []
  | .lineBreak => ["br/"]
  | .source a k => [sourceTag a k]
  | .element e ns => e.opening :: (tagsAll ns ++ ["/" ++ e.name])

def tagsAll : List Node → List String
  | [] => []
  | n :: ns => n.tags ++ tagsAll ns
end

def Node.isSource : Node → Bool
  | .source _ _ => true
  | _ => false

def Plain (s : String) : Prop := ∀ c ∈ s.toList, c ≠ '<' ∧ c ≠ '>'

/-- There is nothing to be seen of the text. -/
def Blank (s : String) : Prop := ∀ c ∈ s.toList, Text.isBlank c = true

instance (s : String) : Decidable (Plain s) := List.decidableBAll _ s.toList
instance (s : String) : Decidable (Blank s) := List.decidableBAll _ s.toList

/-- Running text may stand there: outside of all elements, in a paragraph and in an item. -/
def flows : Option Element → Bool
  | none | some .p | some .li => true
  | _ => false

/-- Nothing but elements may stand there, apart and in rows. -/
def framed : Option Element → Bool
  | some .ul | some .audio | some .video => true
  | _ => false

/-- What may stand in an element, or outside of all: text but no tags in a bold or an italic one,
items and blanks in a list, one source and blanks in a player. Paragraphs and lists stand outside
of all elements only. -/
inductive Fits (lists : Bool) : Option Element → Node → Prop
  | text {parent : Option Element} {s : String} (plain : Plain s)
      (blank : framed parent = true → Blank s) : Fits lists parent (.text s)
  | lineBreak {parent : Option Element} (flow : flows parent = true) : Fits lists parent .lineBreak
  | paragraph {ns : List Node} (content : ∀ n ∈ ns, Fits lists (some .p) n) :
      Fits lists none (.element .p ns)
  | list {ns : List Node} (allowed : lists = true) (content : ∀ n ∈ ns, Fits lists (some .ul) n) :
      Fits lists none (.element .ul ns)
  | item {ns : List Node} (allowed : lists = true) (content : ∀ n ∈ ns, Fits lists (some .li) n) :
      Fits lists (some .ul) (.element .li ns)
  | styled {parent : Option Element} {e : Element} {ns : List Node} (flow : flows parent = true)
      (style : e = .b ∨ e = .i) (content : ∀ n ∈ ns, Fits lists (some e) n) :
      Fits lists parent (.element e ns)
  | player {parent : Option Element} {e : Element} {ns : List Node} (flow : flows parent = true)
      (medium : e = .audio ∨ e = .video) (single : (ns.filter Node.isSource).length = 1)
      (content : ∀ n ∈ ns, Fits lists (some e) n) : Fits lists parent (.element e ns)
  | source {e : Element} {a k : String} (medium : e = .audio ∨ e = .video) (address : Plain a)
      (kind : Plain k) : Fits lists (some e) (.source a k)

/-! ### Plain text -/

theorem Plain.append {s t : String} (hs : Plain s) (ht : Plain t) : Plain (s ++ t) := by
  intro c hc
  rw [String.toList_append, List.mem_append] at hc
  exact hc.elim (hs c) (ht c)

theorem Plain.join {l : List String} (h : ∀ s ∈ l, Plain s) : Plain (String.join l) := by
  induction l with
  | nil => exact fun c hc => nomatch hc
  | cons s l ih =>
    rw [String.join_cons]
    exact (h s List.mem_cons_self).append (ih fun t ht => h t (List.mem_cons_of_mem s ht))

theorem Plain.intercalate {s : String} {l : List String} (hs : Plain s) (h : ∀ t ∈ l, Plain t) :
    Plain (s.intercalate l) := by
  induction l with
  | nil => exact fun c hc => nomatch hc
  | cons t l ih =>
    have ht : Plain t := h t List.mem_cons_self
    have hl : ∀ u ∈ l, Plain u := fun u hu => h u (List.mem_cons_of_mem t hu)
    cases l with
    | nil => simpa using ht
    | cons u l =>
      rw [String.intercalate_cons_cons]
      exact (ht.append hs).append (ih hl)

theorem Plain.strip {s : String} (hs : Plain s) : Plain (Text.strip s) := by
  intro c hc
  rw [Text.strip, String.toList_ofList, List.mem_reverse] at hc
  have hr := List.mem_reverse.mp ((List.dropWhile_sublist _).subset hc)
  exact hs c ((List.dropWhile_sublist _).subset hr)

theorem plain_space : Plain " " := by
  decide

theorem Blank.plain {s : String} (h : Blank s) : Plain s := by
  intro c hc
  have hb : Text.isBlank c = true := h c hc
  constructor
  · rintro rfl
    exact absurd hb (by decide)
  · rintro rfl
    exact absurd hb (by decide)

theorem blank_empty : Blank "" := by
  decide

theorem blank_line : Blank "\n" := by
  decide

theorem Blank.fits {lists : Bool} {parent : Option Element} {s : String} (h : Blank s) :
    Fits lists parent (.text s) :=
  .text h.plain fun _ => h

/-! ### The tags of a text -/

/-- The tags of a text: from each bracket that opens one up to the next that closes one. -/
def tagsOf : List Char → List String
  | [] => []
  | c :: cs =>
    if c = '<' then String.ofList (cs.takeWhile (· ≠ '>')) :: tagsOf cs else tagsOf cs

theorem tagsOf_append {cs : List Char} (h : ∀ c ∈ cs, c ≠ '<') (rest : List Char) :
    tagsOf (cs ++ rest) = tagsOf rest := by
  induction cs with
  | nil => rfl
  | cons c cs ih =>
    rw [List.cons_append, tagsOf, if_neg (h c List.mem_cons_self)]
    exact ih fun d hd => h d (List.mem_cons_of_mem c hd)

theorem Plain.tagsOf {s : String} (hs : Plain s) (rest : List Char) :
    tagsOf (s.toList ++ rest) = tagsOf rest :=
  tagsOf_append (fun c hc => (hs c hc).1) rest

theorem tagsOf_bracketed {t : String} (ht : Plain t) (rest : List Char) :
    tagsOf ((bracketed t).toList ++ rest) = t :: tagsOf rest := by
  have hl : (bracketed t).toList ++ rest = '<' :: (t.toList ++ '>' :: rest) := by
    simp [bracketed]
  have hw : (t.toList ++ '>' :: rest).takeWhile (· ≠ '>') = t.toList := by
    rw [List.takeWhile_append_of_pos fun c hc => decide_eq_true (ht c hc).2]
    simp
  rw [hl, Markup.tagsOf, if_pos rfl, hw, String.ofList_toList, ht.tagsOf, Markup.tagsOf,
    if_neg (by decide)]

theorem tagsOf_bracketedAll {ts : List String} (h : ∀ t ∈ ts, Plain t) (rest : List Char) :
    tagsOf ((String.join (ts.map bracketed)).toList ++ rest) = ts ++ tagsOf rest := by
  induction ts with
  | nil => rfl
  | cons t ts ih =>
    rw [List.map_cons, String.join_cons, String.toList_append, List.append_assoc,
      tagsOf_bracketed (h t List.mem_cons_self), ih fun u hu => h u (List.mem_cons_of_mem t hu),
      List.cons_append]

/-- More text before does not change the tags that follow. -/
theorem tagsOf_suffix (cs rest : List Char) : tagsOf rest <:+ tagsOf (cs ++ rest) := by
  induction cs with
  | nil => exact List.suffix_rfl
  | cons c cs ih =>
    rw [List.cons_append, tagsOf]
    split
    · exact ih.trans (List.suffix_cons _ _)
    · exact ih

/-! ### The tags of a tree -/

theorem plain_opening (e : Element) : Plain e.opening := by
  cases e <;> decide

theorem plain_closing (e : Element) : Plain ("/" ++ e.name) := by
  cases e <;> decide

/-- Written, the node has its own tags and no others, whatever follows. -/
def Node.Faithful (n : Node) : Prop :=
  ∀ rest, tagsOf (n.write.toList ++ rest) = n.tags ++ tagsOf rest

theorem tagsOf_writeAll {ns : List Node} (h : ∀ n ∈ ns, n.Faithful) (rest : List Char) :
    tagsOf ((writeAll ns).toList ++ rest) = tagsAll ns ++ tagsOf rest := by
  induction ns with
  | nil => rfl
  | cons n ns ih =>
    rw [writeAll, tagsAll, String.toList_append, List.append_assoc, h n List.mem_cons_self,
      ih fun m hm => h m (List.mem_cons_of_mem n hm), List.append_assoc]

theorem faithful_element (e : Element) {ns : List Node} (h : ∀ n ∈ ns, n.Faithful) :
    (Node.element e ns).Faithful := by
  intro rest
  rw [Node.write, String.toList_append, String.toList_append, List.append_assoc, List.append_assoc,
    tagsOf_bracketed (plain_opening e), tagsOf_writeAll h, tagsOf_bracketed (plain_closing e),
    Node.tags, List.cons_append, List.append_assoc, List.cons_append, List.nil_append]

theorem plain_sourceTag {a k : String} (ha : Plain a) (hk : Plain k) : Plain (sourceTag a k) := by
  have hs : Plain "source src=\"" := by decide
  have ht : Plain "\" type=\"" := by decide
  have hq : Plain "\"" := by decide
  exact (((hs.append ha).append ht).append hk).append hq

theorem Fits.faithful {lists : Bool} {parent : Option Element} {n : Node}
    (h : Fits lists parent n) : n.Faithful := by
  induction h with
  | text plain _ => exact fun rest => plain.tagsOf rest
  | lineBreak _ =>
    have hb : Plain "br/" := by decide
    exact fun rest => tagsOf_bracketed hb rest
  | paragraph _ ih => exact faithful_element .p ih
  | list _ _ ih => exact faithful_element .ul ih
  | item _ _ ih => exact faithful_element .li ih
  | styled _ _ _ ih => exact faithful_element _ ih
  | player _ _ _ _ ih => exact faithful_element _ ih
  | source _ ha hk => exact fun rest => tagsOf_bracketed (plain_sourceTag ha hk) rest

def tagName (tag : String) : String :=
  String.ofList ((tag.toList.dropWhile (· = '/')).takeWhile fun c => c ≠ ' ' ∧ c ≠ '/')

/-- The names of tags that a page's body may have. -/
def names (lists : Bool) : List String :=
  ["p", "b", "i", "audio", "video", "br", "source"] ++ if lists then ["ul", "li"] else []

theorem mem_tagsAll {t : String} {ns : List Node} : t ∈ tagsAll ns ↔ ∃ n ∈ ns, t ∈ n.tags := by
  induction ns with
  | nil => simp [tagsAll]
  | cons n ns ih => simp [tagsAll, ih]

theorem named_element {lists : Bool} {e : Element} (he : e.name ∈ names lists) {ns : List Node}
    (h : ∀ n ∈ ns, ∀ t ∈ n.tags, tagName t ∈ names lists) :
    ∀ t ∈ (Node.element e ns).tags, tagName t ∈ names lists := by
  have opening : tagName e.opening = e.name := by cases e <;> decide
  have closing : tagName ("/" ++ e.name) = e.name := by cases e <;> decide
  intro t ht
  rw [Node.tags, List.mem_cons, List.mem_append, List.mem_singleton] at ht
  rcases ht with rfl | ht | rfl
  · rw [opening]
    exact he
  · obtain ⟨n, hn, ht⟩ := mem_tagsAll.mp ht
    exact h n hn t ht
  · rw [closing]
    exact he

theorem tagName_sourceTag (a k : String) : tagName (sourceTag a k) = "source" := by
  simp [tagName, sourceTag, String.toList_append]

theorem Fits.named {lists : Bool} {parent : Option Element} {n : Node}
    (h : Fits lists parent n) : ∀ t ∈ n.tags, tagName t ∈ names lists := by
  induction h with
  | text _ _ => exact fun t ht => nomatch ht
  | lineBreak _ =>
    intro t ht
    rw [List.mem_singleton.mp ht]
    simp [names, show tagName "br/" = "br" from by decide]
  | paragraph _ ih => exact named_element (by simp [names, Element.name]) ih
  | list allowed _ ih => exact named_element (by simp [names, Element.name, allowed]) ih
  | item allowed _ ih => exact named_element (by simp [names, Element.name, allowed]) ih
  | styled _ style _ ih =>
    exact named_element (by rcases style with rfl | rfl <;> simp [names, Element.name]) ih
  | player _ medium _ _ ih =>
    exact named_element (by rcases medium with rfl | rfl <;> simp [names, Element.name]) ih
  | source _ _ _ =>
    intro t ht
    rw [List.mem_singleton.mp ht, tagName_sourceTag]
    simp [names]

theorem writeAll_append (ns ms : List Node) : writeAll (ns ++ ms) = writeAll ns ++ writeAll ms := by
  induction ns with
  | nil => simp [writeAll]
  | cons n ns ih => rw [List.cons_append, writeAll, writeAll, ih, String.append_assoc]

end Shoutmark.Markup
