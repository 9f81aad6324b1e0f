import Mathlib.Data.List.Forall2
import Shoutmark.Proofs.Highlight.Colours
import Shoutmark.Proofs.Listing.Reader

/-! The cell of a listing shows the source. While a line is written, what stands in it so far is
read with the span left open that the sheet names; the name left over from a finished line opens
nothing, since the next line starts empty. -/

namespace Shoutmark.Listing

open Highlight (Kind Piece)

/-- A character as it is shown in a span. A line feed ends its line and lies in no span. -/
def inSpan (span : Option String) (c : Char) : Shown := (if c = '\n' then none else span, c)

/-- The characters of some pieces, each in the span of its piece. -/
def classified (ps : List Piece) : List Shown :=
  ps.flatMap fun p => p.text.toList.map (inSpan (spanClass p.kind))

/-- The characters of a finished line: its only line feed is the last of them. -/
def EndsLine (row : List Shown) : Prop :=
  ∃ inner, row = inner ++ [(none, '\n')] ∧ '\n' ∉ inner.map Prod.snd

theorem map_inSpan {part : List Char} (h : '\n' ∉ part) (span : Option String) :
    part.map (inSpan span) = part.map fun c => (span, c) := by
  refine List.map_congr_left fun c hc => ?_
  rw [inSpan, if_neg (ne_of_mem_of_not_mem hc h)]

theorem map_snd_inSpan (span : Option String) (cs : List Char) :
    (cs.map (inSpan span)).map Prod.snd = cs := by
  rw [List.map_map]
  exact List.map_id cs

theorem map_snd_classified (ps : List Piece) :
    (classified ps).map Prod.snd = (String.join (ps.map (·.text))).toList := by
  rw [classified, List.map_flatMap, String.toList_join, List.flatMap_map]
  exact congrArg ps.flatMap (funext fun p => map_snd_inSpan _ _)

/-! ### Escaped parts -/

theorem escape_eq_nil {cs : List Char} : escape cs = [] ↔ cs = [] := by
  rw [escape, List.flatMap_eq_nil_iff]
  constructor
  · intro h
    refine List.eq_nil_iff_forall_not_mem.mpr fun c hc => absurd (h c hc) ?_
    unfold escapeChar
    split <;> exact List.cons_ne_nil _ _
  · rintro rfl
    exact fun c hc => absurd hc List.not_mem_nil

theorem splitOn_escape (cs : List Char) :
    Text.splitOn '\n' (escape cs) = (Text.splitOn '\n' cs).map escape := by
  induction cs with
  | nil => rfl
  | cons c cs ih =>
    have hcons : escape (c :: cs) = escapeChar c ++ escape cs := rfl
    obtain ⟨part, parts, hparts⟩ := List.exists_cons_of_ne_nil (Text.splitOn_ne_nil '\n' cs)
    rw [hparts, List.map_cons] at ih
    by_cases hc : c = '\n'
    · subst hc
      rw [hcons, Text.splitOn, if_pos rfl, hparts]
      exact congrArg ([] :: ·) ih
    · have hplain : '\n' ∉ escapeChar c := by
        unfold escapeChar
        split
        · decide
        · decide
        · decide
        · rwa [List.mem_singleton, eq_comm]
      rw [hcons, Text.splitOn_append hplain ih, Text.splitOn, if_neg hc, hparts]
      rfl

/-! ### What a text shows -/

/-- The class of a span is a word of letters. -/
def Lettered (span : Option String) : Prop :=
  ∀ name, span = some name → ∀ c ∈ name.toList, c.isAlpha = true

theorem lettered_spanClass (k : Kind) : Lettered (spanClass k) := by
  have hall : (spanClass k).all (·.toList.all Char.isAlpha) = true := by
    rcases k with _ | _ | _ | _ | (_ | _ | _ | _ | _) | _ | _
    all_goals rfl
  intro name hname
  rw [hname] at hall
  exact List.all_eq_true.mp hall

/-- The text shows the characters, whatever was shown before it, and leaves the span open. -/
def Writes (text : List Char) (span : Option String) (shown : List Shown) : Prop :=
  ∀ before, Reader.Reads ⟨none, [], before⟩ text ⟨span, [], before ++ shown⟩

namespace Writes

variable {text part : List Char} {span : Option String} {shown : List Shown}

theorem nil : Writes [] none [] := by
  intro before
  rw [List.append_nil]
  exact Reader.reads_nil _

theorem escape (h : Writes text span shown) (hp : '\n' ∉ part) :
    Writes (text ++ escape part) span (shown ++ part.map (inSpan span)) := by
  intro before
  rw [map_inSpan hp, ← List.append_assoc]
  exact (h before).append (Reader.reads_escape hp)

theorem opening (h : Writes text none shown) (hs : Lettered span) :
    Writes (text ++ opening span) span shown := by
  intro before
  refine (h before).append ?_
  cases span with
  | none => exact Reader.reads_nil _
  | some name => exact Reader.reads_opening (hs name rfl)

theorem closing (h : Writes text span shown) : Writes (text ++ closing span) none shown := by
  intro before
  refine (h before).append ?_
  cases span with
  | none => exact Reader.reads_nil _
  | some name => exact Reader.reads_closing name

theorem lineFeed (h : Writes text none shown) :
    Writes (text ++ ['\n']) none (shown ++ [(none, '\n')]) := by
  intro before
  rw [← List.append_assoc]
  exact (h before).append Reader.reads_lineFeed

theorem append {text' : List Char} {shown' : List Shown} (h : Writes text none shown)
    (h' : Writes text' none shown') : Writes (text ++ text') none (shown ++ shown') := by
  intro before
  rw [← List.append_assoc]
  exact (h before).append (h' _)

theorem flatten {lines : List (List Char)} {rows : List (List Shown)}
    (h : List.Forall₂ (Writes · none ·) lines rows) : Writes lines.flatten none rows.flatten := by
  induction h with
  | nil => exact nil
  | cons hline _ ih => exact hline.append ih

theorem read (h : Writes text none shown) : Reader.read text = some shown :=
  Reader.read_of_reads (h [])

theorem read_lines {lines : List (List Char)} {rows : List (List Shown)}
    (h : List.Forall₂ (Writes · none ·) lines rows) :
    lines.map Reader.read = rows.map some := by
  induction h with
  | nil => rfl
  | cons hline _ ih => rw [List.map_cons, List.map_cons, hline.read, ih]

end Writes

/-! ### What a sheet shows -/

namespace Sheet

def inside (s : Sheet) : Option String := if s.line = [] then none else s.span

/-- The finished lines show the rows, and the line being written shows what stands in it. -/
structure Says (s : Sheet) (rows : List (List Shown)) (current : List Shown) : Prop where
  finished : List.Forall₂ (Writes · none ·) s.lines.toList rows
  ends : ∀ row ∈ rows, EndsLine row
  unfinished : Writes s.line s.inside current
  within : '\n' ∉ current.map Prod.snd
  started : current = [] → s.line = []

variable {s : Sheet} {rows : List (List Shown)} {current : List Shown} {span : Option String}
  {part : List Char}

theorem Says.nothing (h : s.Says rows current) (hline : s.line = []) : current = [] := by
  have hread := (h.unfinished []).symm
  rw [inside, if_pos hline, hline] at hread
  exact congrArg Reader.shown (Option.some.inj hread)

/-- A line is finished: the next one starts empty, whatever span was written last. -/
theorem Says.push {line : List Char} {inner : List Shown} (h : s.Says rows current)
    (hline : Writes line none (inner ++ [(none, '\n')])) (hinner : '\n' ∉ inner.map Prod.snd)
    (span : Option String) :
    Says ⟨s.lines.push line, [], span⟩ (rows ++ [inner ++ [(none, '\n')]]) [] where
  finished := by
    rw [Array.toList_push]
    exact List.rel_append h.finished (.cons hline .nil)
  ends := by
    rw [List.forall_mem_append, List.forall_mem_singleton]
    exact ⟨h.ends, inner, rfl, hinner⟩
  unfinished := Writes.nil
  within := List.not_mem_nil
  started _ := rfl

theorem Says.within_append (h : s.Says rows current) (span : Option String) (hp : '\n' ∉ part) :
    '\n' ∉ (current ++ part.map (inSpan span)).map Prod.snd := by
  rw [List.map_append, map_snd_inSpan, List.mem_append]
  exact not_or.mpr ⟨h.within, hp⟩

/-- The part that ends a line is shown in its span, and so is all that stood in the line. -/
theorem Says.endLine (h : s.Says rows current) (hs : Lettered span) (hp : '\n' ∉ part) :
    (s.endLine span (escape part)).Says
      (rows ++ [current ++ part.map (inSpan span) ++ [(none, '\n')]]) [] := by
  have hwithin := h.within_append span hp
  have hcurrent := h.unfinished
  unfold Sheet.endLine
  by_cases hline : s.line = []
  · have hnothing := h.nothing hline
    subst hnothing
    rw [if_pos hline, hline]
    by_cases hpart : part = []
    · subst hpart
      exact h.push Writes.nil.lineFeed hwithin s.span
    · rw [if_neg (mt escape_eq_nil.mp hpart)]
      exact h.push ((Writes.nil.opening hs).escape hp).closing.lineFeed hwithin s.span
  · rw [inside, if_neg hline] at hcurrent
    rw [if_neg hline]
    by_cases hspan : s.span ≠ span ∧ escape part ≠ []
    · rw [if_pos hspan]
      exact h.push ((hcurrent.closing.opening hs).escape hp).closing.lineFeed hwithin s.span
    · rw [if_neg hspan]
      -- The part goes on in the open span: it has the same class or is empty.
      have hsame : part.map (inSpan s.span) = part.map (inSpan span) := by
        rcases not_and_or.mp hspan with hspan | hempty
        · rw [not_not.mp hspan]
        · rw [escape_eq_nil.mp (not_not.mp hempty)]
          rfl
      have hwritten := hcurrent.escape hp
      rw [hsame] at hwritten
      exact h.push hwritten.closing.lineFeed hwithin s.span

theorem Says.goOn {before : List Char} (h : s.Says rows current) (hne : part ≠ [])
    (hp : '\n' ∉ part)
    (hline : Writes (before ++ escape part) span (current ++ part.map (inSpan span))) :
    Says ⟨s.lines, before ++ escape part, span⟩ rows (current ++ part.map (inSpan span)) where
  finished := h.finished
  ends := h.ends
  unfinished := by
    have hwritten : before ++ escape part ≠ [] :=
      List.append_ne_nil_of_right_ne_nil _ (mt escape_eq_nil.mp hne)
    rw [inside, if_neg hwritten]
    exact hline
  within := h.within_append span hp
  started he := absurd (List.map_eq_nil_iff.mp (List.append_eq_nil_iff.mp he).2) hne

/-- The part a line goes on with is shown in its span, which is left open. -/
theorem Says.extend (h : s.Says rows current) (hs : Lettered span) (hp : '\n' ∉ part) :
    (s.extend span (escape part)).Says rows (current ++ part.map (inSpan span)) := by
  have hcurrent := h.unfinished
  unfold Sheet.extend
  by_cases hpart : part = []
  · subst hpart
    rw [if_pos (escape_eq_nil.mpr rfl), List.map_nil, List.append_nil]
    exact h
  rw [if_neg (mt escape_eq_nil.mp hpart)]
  by_cases hline : s.line = []
  · have hnothing := h.nothing hline
    subst hnothing
    rw [if_pos hline]
    exact h.goOn hpart hp ((Writes.nil.opening hs).escape hp)
  · rw [inside, if_neg hline] at hcurrent
    rw [if_neg hline]
    by_cases hspan : s.span = span
    · subst hspan
      rw [if_pos rfl]
      exact h.goOn hpart hp (hcurrent.escape hp)
    · rw [if_neg hspan]
      exact h.goOn hpart hp ((hcurrent.closing.opening hs).escape hp)

/-- What the sheet shows in all. -/
def Shows (s : Sheet) (shown : List Shown) : Prop :=
  ∃ rows current, s.Says rows current ∧ rows.flatten ++ current = shown

theorem shows_blank : blank.Shows [] :=
  ⟨[], [], ⟨.nil, fun _ h => absurd h List.not_mem_nil, Writes.nil, List.not_mem_nil, fun _ => rfl⟩,
    rfl⟩

variable {shown : List Shown}

theorem Shows.writeParts {parts : List (List Char)} (h : s.Shows shown) (hs : Lettered span)
    (hne : parts ≠ []) (hparts : ∀ part ∈ parts, '\n' ∉ part) :
    (s.writeParts span (parts.map escape)).Shows
      (shown ++ (['\n'].intercalate parts).map (inSpan span)) := by
  induction parts generalizing s shown with
  | nil => exact absurd rfl hne
  | cons part parts ih =>
    obtain ⟨rows, current, hrows, rfl⟩ := h
    obtain ⟨hpart, hparts⟩ := List.forall_mem_cons.mp hparts
    cases parts with
    | nil =>
      refine ⟨rows, _, hrows.extend hs hpart, ?_⟩
      rw [List.intercalate_singleton, List.append_assoc]
    | cons next parts =>
      have htail := ih ⟨_, _, hrows.endLine hs hpart, rfl⟩ (List.cons_ne_nil _ _) hparts
      have hshown : (rows ++ [current ++ part.map (inSpan span) ++ [(none, '\n')]]).flatten ++ [] ++
          (['\n'].intercalate (next :: parts)).map (inSpan span) =
          rows.flatten ++ current ++
            (['\n'].intercalate (part :: next :: parts)).map (inSpan span) := by
        have hlineFeed : [(none, '\n')] = ['\n'].map (inSpan span) := rfl
        rw [List.intercalate_cons_cons, hlineFeed]
        simp only [List.flatten_append, List.flatten_singleton, List.map_append, List.append_nil,
          List.append_assoc]
      rw [hshown] at htail
      exact htail

/-- A piece is shown in its span, whatever the sheet held. -/
theorem Shows.write (h : s.Shows shown) (p : Piece) :
    (s.write p).Shows (shown ++ p.text.toList.map (inSpan (spanClass p.kind))) := by
  have hwritten := h.writeParts (lettered_spanClass p.kind)
    (Text.splitOn_ne_nil '\n' p.text.toList) fun _ => Text.not_mem_of_mem_splitOn
  rw [Text.intercalate_splitOn, ← splitOn_escape] at hwritten
  exact hwritten

theorem Shows.foldl (ps : List Piece) (h : s.Shows shown) :
    (ps.foldl Sheet.write s).Shows (shown ++ classified ps) := by
  induction ps generalizing s shown with
  | nil =>
    rw [classified, List.flatMap_nil, List.append_nil]
    exact h
  | cons p ps ih =>
    rw [classified, List.flatMap_cons, ← List.append_assoc]
    exact ih (h.write p)

theorem Shows.finish (h : s.Shows (shown ++ [(none, '\n')])) :
    ∃ rows, List.Forall₂ (Writes · none ·) s.finish rows ∧ (∀ row ∈ rows, EndsLine row) ∧
      rows.flatten = shown ++ [(none, '\n')] := by
  obtain ⟨rows, current, hrows, hshown⟩ := h
  have hcurrent : current = [] := by
    rcases List.eq_nil_or_concat current with rfl | ⟨init, last, rfl⟩
    · rfl
    · rw [List.concat_eq_append, ← List.append_assoc] at hshown
      have hlast := List.append_inj_right' hshown rfl
      refine absurd ?_ hrows.within
      rw [List.concat_eq_append, hlast, List.map_append, List.mem_append]
      exact Or.inr List.mem_cons_self
  have hfinish : s.finish = s.lines.toList := if_pos (hrows.started hcurrent)
  rw [hcurrent, List.append_nil] at hshown
  exact ⟨rows, hfinish ▸ hrows.finished, hrows.ends, hshown⟩

end Sheet

end Shoutmark.Listing
