import Shoutmark.Listing

/-! What the cell of a listing shows. A reader goes through the cell character by character: tags
open and close spans, references stand for the characters that tags and references are made of, and
any other character stands for itself, in the span that is open. A span within a span, a line that
ends within a span, a tag of another kind and a `<`, `>` or `&` that belongs to no tag or reference
are refused. -/

namespace Shoutmark.Listing

/-- A character that is shown, with the class of the span that it lies in, if it lies in one. -/
abbrev Shown := Option String × Char

/-- The span the reader is in, the tag or reference it is in the middle of, and what was shown
before. -/
structure Reader where
  span : Option String
  markup : List Char
  shown : List Shown

namespace Reader

def start : Reader := ⟨none, [], []⟩

/-- A character is shown in the span that is open. No line ends within a span. -/
def shows (r : Reader) (c : Char) : Option Reader :=
  if c = '\n' ∧ r.span ≠ none then none else some ⟨r.span, [], r.shown ++ [(r.span, c)]⟩

/-- A span is opened outside spans only. -/
def opens (r : Reader) (name : List Char) : Option Reader :=
  if r.span = none ∧ name.all Char.isAlpha then some ⟨some (String.ofList name), [], r.shown⟩
  else none

def closes (r : Reader) : Option Reader :=
  if r.span = none then none else some ⟨none, [], r.shown⟩

/-- What a tag or a reference does once it is complete. -/
def interpret (r : Reader) (markup : List Char) : Option Reader :=
  let name := (markup.drop 13).take (markup.length - 15)
  if markup = "&lt;".toList then r.shows '<'
  else if markup = "&gt;".toList then r.shows '>'
  else if markup = "&amp;".toList then r.shows '&'
  else if markup = "</span>".toList then r.closes
  else if markup = "<span class=\"".toList ++ name ++ "\">".toList then r.opens name
  else none

def step (r : Reader) (c : Char) : Option Reader :=
  if r.markup = [] then
    if c = '<' ∨ c = '&' then some { r with markup := [c] }
    else if c = '>' then none
    else r.shows c
  else if c = '>' ∨ c = ';' then r.interpret (r.markup ++ [c])
  else some { r with markup := r.markup ++ [c] }

/-- Reading the characters brings the reader from one state to the other. -/
def Reads (r : Reader) (cs : List Char) (r' : Reader) : Prop := cs.foldlM step r = some r'

/-- What a text shows. It is refused unless it ends outside of all tags and spans. -/
def read (cs : List Char) : Option (List Shown) :=
  (cs.foldlM step start).bind fun r =>
    if r.markup = [] ∧ r.span = none then some r.shown else none

variable {span : Option String} {shown : List Shown}

theorem Reads.append {r s t : Reader} {a b : List Char} (h : Reads r a s) (h' : Reads s b t) :
    Reads r (a ++ b) t := by
  rw [Reads, List.foldlM_append, h]
  exact h'

theorem reads_nil (r : Reader) : Reads r [] r := rfl

theorem read_of_reads {cs : List Char} (h : Reads start cs ⟨none, [], shown⟩) :
    read cs = some shown := by
  rw [read, h]
  rfl

/-! ### What is written, as it is read -/

theorem reads_gathered {markup body : List Char} (hm : markup ≠ [])
    (hb : ∀ c ∈ body, c ≠ '>' ∧ c ≠ ';') :
    Reads ⟨span, markup, shown⟩ body ⟨span, markup ++ body, shown⟩ := by
  induction body generalizing markup with
  | nil =>
    rw [List.append_nil]
    exact reads_nil _
  | cons c body ih =>
    obtain ⟨hc, hbody⟩ := List.forall_mem_cons.mp hb
    have htail : Reads ⟨span, markup ++ [c], shown⟩ body ⟨span, markup ++ [c] ++ body, shown⟩ :=
      ih (List.append_ne_nil_of_left_ne_nil hm _) hbody
    rw [List.append_assoc] at htail
    have hstep : step ⟨span, markup, shown⟩ c = some ⟨span, markup ++ [c], shown⟩ := by
      rw [step, if_neg hm, if_neg (not_or.mpr hc)]
    rw [Reads, List.foldlM_cons, hstep]
    exact htail

theorem reads_markup {r : Reader} (first : Char) (body : List Char) (last : Char)
    (hf : first = '<' ∨ first = '&') (hb : ∀ c ∈ body, c ≠ '>' ∧ c ≠ ';')
    (hl : last = '>' ∨ last = ';')
    (h : interpret ⟨span, first :: body, shown⟩ (first :: body ++ [last]) = some r) :
    Reads ⟨span, [], shown⟩ (first :: body ++ [last]) r := by
  have hfirst : Reads ⟨span, [], shown⟩ [first] ⟨span, [first], shown⟩ := by
    rw [Reads, List.foldlM_cons, step, if_pos rfl, if_pos hf]
    rfl
  have hlast : Reads ⟨span, first :: body, shown⟩ [last] r := by
    rw [Reads, List.foldlM_cons, step, if_neg (List.cons_ne_nil _ _), if_pos hl, h]
    rfl
  exact hfirst.append ((reads_gathered (List.cons_ne_nil _ _) hb).append hlast)

theorem opening_some (name : String) :
    opening (some name) = "<span class=\"".toList ++ name.toList ++ "\">".toList := rfl

theorem opening_ends (name : String) :
    opening (some name) = '<' :: ("span class=\"".toList ++ name.toList ++ ['"']) ++ ['>'] := by
  have hstart : "<span class=\"".toList = '<' :: "span class=\"".toList := by decide
  have hend : "\">".toList = ['"', '>'] := by decide
  rw [opening_some, hstart, hend]
  simp only [List.cons_append, List.append_assoc, List.nil_append]

theorem interpret_opening {r : Reader} {name : String} (hr : r.span = none)
    (h : ∀ c ∈ name.toList, c.isAlpha = true) :
    r.interpret (opening (some name)) = some ⟨some name, [], r.shown⟩ := by
  have hstart : "<span class=\"".toList.length = 13 := by decide
  have hend : "\">".toList.length = 2 := by decide
  have hlen : (opening (some name)).length - 15 = name.toList.length := by
    rw [opening_some, List.length_append, List.length_append, hstart, hend]
    omega
  have hname : ((opening (some name)).drop 13).take ((opening (some name)).length - 15) =
      name.toList := by
    rw [hlen, opening_some, List.append_assoc, List.drop_left' hstart, List.take_left]
  -- The other markups have another second character.
  have hsecond : (opening (some name))[1]? = some 's' := by
    have hspan : "span class=\"".toList = 's' :: "pan class=\"".toList := by decide
    rw [opening_ends, hspan]
    rfl
  have other {m : List Char} (hm : m[1]? ≠ some 's') : opening (some name) ≠ m := by
    rintro rfl
    exact hm hsecond
  have hopens : r.opens name.toList = some ⟨some name, [], r.shown⟩ := by
    rw [opens, if_pos ⟨hr, List.all_eq_true.mpr h⟩, String.ofList_toList]
  simp only [interpret, hname]
  rw [if_neg (other (by decide)), if_neg (other (by decide)), if_neg (other (by decide)),
    if_neg (other (by decide)), if_pos (opening_some name), hopens]

/-- The tag of a span opens it, whatever letters its class is made of. -/
theorem reads_opening {name : String} (h : ∀ c ∈ name.toList, c.isAlpha = true) :
    Reads ⟨none, [], shown⟩ (opening (some name)) ⟨some name, [], shown⟩ := by
  have hplain : ∀ c ∈ "span class=\"".toList ++ name.toList ++ ['"'], c ≠ '>' ∧ c ≠ ';' := by
    simp only [List.forall_mem_append]
    refine ⟨⟨by simp, fun c hc => ⟨?_, ?_⟩⟩, by simp⟩
    · rintro rfl
      exact absurd (h _ hc) (by decide)
    · rintro rfl
      exact absurd (h _ hc) (by decide)
  have hinterpret := interpret_opening (r := ⟨none, '<' ::
    ("span class=\"".toList ++ name.toList ++ ['"']), shown⟩) rfl h
  rw [opening_ends] at hinterpret ⊢
  exact reads_markup _ _ _ (Or.inl rfl) hplain (Or.inl rfl) hinterpret

theorem reads_closing (name : String) :
    Reads ⟨some name, [], shown⟩ (closing (some name)) ⟨none, [], shown⟩ :=
  reads_markup '<' "/span".toList '>' (Or.inl rfl) (by simp) (Or.inl rfl) rfl

theorem reads_lineFeed : Reads ⟨none, [], shown⟩ ['\n'] ⟨none, [], shown ++ [(none, '\n')]⟩ := rfl

theorem reads_escapeChar {c : Char} (hc : c ≠ '\n') :
    Reads ⟨span, [], shown⟩ (escapeChar c) ⟨span, [], shown ++ [(span, c)]⟩ := by
  unfold escapeChar
  split
  · exact reads_markup '&' "amp".toList ';' (Or.inr rfl) (by simp) (Or.inr rfl) rfl
  · exact reads_markup '&' "lt".toList ';' (Or.inr rfl) (by simp) (Or.inr rfl) rfl
  · exact reads_markup '&' "gt".toList ';' (Or.inr rfl) (by simp) (Or.inr rfl) rfl
  · rename_i hamp hlt hgt
    have hstart : ¬ (c = '<' ∨ c = '&') := not_or.mpr ⟨hlt, hamp⟩
    have hshows : shows ⟨span, [], shown⟩ c = some ⟨span, [], shown ++ [(span, c)]⟩ :=
      if_neg fun h => hc h.1
    rw [Reads, List.foldlM_cons, step, if_pos rfl, if_neg hstart, if_neg hgt, hshows]
    rfl

theorem reads_escape {part : List Char} (h : '\n' ∉ part) :
    Reads ⟨span, [], shown⟩ (escape part) ⟨span, [], shown ++ part.map fun c => (span, c)⟩ := by
  induction part generalizing shown with
  | nil =>
    rw [List.map_nil, List.append_nil]
    exact reads_nil _
  | cons c part ih =>
    rw [List.mem_cons, not_or] at h
    have htail := @ih (shown ++ [(span, c)]) h.2
    rw [List.append_assoc] at htail
    exact (reads_escapeChar (Ne.symm h.1)).append htail

end Reader

end Shoutmark.Listing
