import Shoutmark.Settings.Reference
import Shoutmark.Text.Run

/-! Settings files are read as they are written. A file with one quoted value a line comes back as
its entries, and a value without a dollar sign refers to nothing. -/

namespace Shoutmark.EnvironmentFile

/-- A character between single quotes. -/
def escapeQuoted (c : Char) : List Char := if c = '\\' ∨ c = '\'' then ['\\', c] else [c]

/-- A name with its value in single quotes, on a line of its own. -/
def writtenLine (e : String × String) : List Char :=
  e.1.toList ++ '=' :: '\'' :: (e.2.toList.flatMap escapeQuoted ++ ['\'', '\n'])

def written (es : List (String × String)) : String := String.ofList (es.flatMap writtenLine)

/-- A name that can stand in a file without quotation marks. -/
structure IsName (name : List Char) : Prop where
  nonempty : name ≠ []
  plain : ∀ c ∈ name, c ∉ ['=', '#', '\'', '\uFEFF'] ∧ Text.isBlank c = false

variable {name value rest : List Char}

/-! ### Values in quotation marks -/

theorem quotation_escaped (value rest : List Char) :
    quotation '\'' (value.flatMap escapeQuoted ++ '\'' :: rest) =
      some (value.flatMap escapeQuoted, rest) := by
  induction value with
  | nil => simp [quotation]
  | cons c value ih =>
    rw [List.flatMap_cons, List.append_assoc]
    by_cases hc : c = '\\' ∨ c = '\''
    · rw [escapeQuoted, if_pos hc, List.cons_append, List.cons_append, List.nil_append, quotation,
        ih]
      rfl
    · rw [escapeQuoted, if_neg hc, List.singleton_append, List.singleton_append]
      rw [not_or] at hc
      rw [quotation, if_neg hc.2, ih]
      · rfl
      · exact fun _ _ h => absurd h hc.1

theorem unescape_escaped (value : List Char) :
    unescape (escapes.take 2) (value.flatMap escapeQuoted) = value := by
  induction value with
  | nil => rfl
  | cons c value ih =>
    rw [List.flatMap_cons]
    by_cases hc : c = '\\' ∨ c = '\''
    · have hlookup : (escapes.take 2).lookup c = some c := by
        rcases hc with rfl | rfl <;> rfl
      rw [escapeQuoted, if_pos hc, List.cons_append, List.cons_append, List.nil_append, unescape,
        hlookup]
      exact congrArg (c :: ·) ih
    · rw [escapeQuoted, if_neg hc, List.singleton_append]
      rw [not_or] at hc
      rw [unescape, ih]
      exact fun _ _ h => absurd h hc.1

/-! ### Lines -/

theorem skipInline_of_not_blank {c : Char} (h : Text.isBlank c = false) :
    skipInline (c :: rest) = c :: rest := by
  rw [skipInline, List.dropWhile_cons, isInlineBlank, h]
  rfl

/-- A name is not taken for the word that may stand before it. -/
theorem skipExport_name (hn : IsName name) : skipExport (name ++ '=' :: rest) =
    name ++ '=' :: rest := by
  refine if_neg fun ⟨htake, hblank⟩ => ?_
  by_cases hlen : 6 ≤ name.length
  · rw [List.drop_append_of_le_length hlen] at hblank
    cases hdrop : name.drop 6 with
    | nil =>
      rw [hdrop, List.nil_append, List.head?_cons, Option.any_some] at hblank
      exact absurd hblank (by decide)
    | cons c more =>
      have hmem : c ∈ name := List.mem_of_mem_drop (hdrop ▸ List.mem_cons_self)
      rw [hdrop, List.cons_append, List.head?_cons, Option.any_some, isInlineBlank,
        (hn.plain c hmem).2] at hblank
      cases hblank
  · have hsign : '=' ∈ (name ++ '=' :: rest).take 6 := by
      obtain ⟨n, hlen⟩ : ∃ n, 6 - name.length = n + 1 := ⟨5 - name.length, by omega⟩
      rw [List.take_append, hlen, List.take_succ_cons]
      exact List.mem_append_right _ List.mem_cons_self
    rw [htake] at hsign
    exact absurd hsign (by decide)

theorem name_of_isName (hn : IsName name) :
    EnvironmentFile.name (name ++ '=' :: rest) = some (name, '=' :: rest) := by
  have hstays : ∀ c ∈ name, (c != '=' && c != '#' && !Text.isBlank c) = true := by
    intro c hc
    have hplain := hn.plain c hc
    simp only [List.mem_cons, not_or] at hplain
    simp [hplain]
  have hend : ∀ c, ('=' :: rest).head? = some c →
      (c != '=' && c != '#' && !Text.isBlank c) = false := by
    rintro c ⟨⟩
    rfl
  obtain ⟨c, more, hname⟩ := List.exists_cons_of_ne_nil hn.nonempty
  have hquote : c ≠ '\'' := by
    rintro rfl
    have hplain := (hn.plain '\'' (hname ▸ List.mem_cons_self)).1
    exact absurd hplain (by decide)
  unfold EnvironmentFile.name
  split
  · rename_i inside hcs
    rw [hname] at hcs
    exact absurd (List.cons.inj hcs).1 hquote
  · dsimp only
    rw [Text.takeWhile_run hstays hend, Text.dropWhile_run hstays hend]
    exact if_neg hn.nonempty

theorem line_written {e : String × String} (hn : IsName e.1.toList) (rest : List Char) :
    line (writtenLine e ++ rest) = (some ⟨e.1, some e.2⟩, rest) := by
  have hvalue : value ('\'' :: (e.2.toList.flatMap escapeQuoted ++ '\'' :: '\n' :: rest)) =
      some (e.2.toList, '\n' :: rest) := by
    rw [EnvironmentFile.value, skipInline_of_not_blank (by decide)]
    simp only [quotation_escaped, Option.map_some, unescape_escaped]
  have hline : writtenLine e ++ rest =
      e.1.toList ++ '=' :: '\'' :: (e.2.toList.flatMap escapeQuoted ++ '\'' :: '\n' :: rest) := by
    simp only [writtenLine, List.append_assoc, List.cons_append, List.nil_append]
  obtain ⟨c, more, hname⟩ := List.exists_cons_of_ne_nil hn.nonempty
  have hcomment : c ≠ '#' := by
    rintro rfl
    have hplain := (hn.plain '#' (hname ▸ List.mem_cons_self)).1
    exact absurd hplain (by decide)
  rw [hline, line, skipExport_name hn]
  split
  · rename_i tail hcs
    rw [hname] at hcs
    exact absurd (List.cons.inj hcs).1 hcomment
  · rw [name_of_isName hn]
    dsimp only
    rw [skipInline_of_not_blank (by decide)]
    simp only [hvalue]
    have hend : endOfLine ('\n' :: rest) = some rest := rfl
    rw [hend]
    simp only [String.ofList_toList]

theorem dropWhile_isBlank_written {e : String × String} (hn : IsName e.1.toList)
    (rest : List Char) : (writtenLine e ++ rest).dropWhile Text.isBlank = writtenLine e ++ rest := by
  obtain ⟨c, more, hname⟩ := List.exists_cons_of_ne_nil hn.nonempty
  have hblank := (hn.plain c (hname ▸ List.mem_cons_self)).2
  rw [writtenLine, hname, List.cons_append, List.cons_append, List.dropWhile_cons, hblank]
  rfl

/-! ### Files -/

theorem entriesOf_written {es : List (String × String)} (h : ∀ e ∈ es, IsName e.1.toList) :
    entriesOf (es.flatMap writtenLine) = es.map fun e => ⟨e.1, some e.2⟩ := by
  induction es with
  | nil =>
    rw [List.flatMap_nil, entriesOf]
    rfl
  | cons e es ih =>
    obtain ⟨hn, hes⟩ := List.forall_mem_cons.mp h
    have hshorter : (es.flatMap writtenLine).length <
        (writtenLine e ++ es.flatMap writtenLine).length := by
      rw [List.length_append]
      simp only [writtenLine, List.length_append, List.length_cons]
      omega
    rw [List.flatMap_cons, entriesOf, dropWhile_isBlank_written hn, line_written hn]
    dsimp only
    rw [if_pos hshorter, ih hes]
    rfl

theorem not_mem_written {es : List (String × String)}
    (h : ∀ e ∈ es, IsName e.1.toList ∧ '\r' ∉ e.2.toList) : '\r' ∉ es.flatMap writtenLine := by
  intro hmem
  obtain ⟨e, he, hmem⟩ := List.mem_flatMap.mp hmem
  obtain ⟨hn, hvalue⟩ := h e he
  have hname : '\r' ∉ e.1.toList := fun hm =>
    absurd (hn.plain '\r' hm).2 (by decide)
  have hescaped : '\r' ∉ e.2.toList.flatMap escapeQuoted := by
    intro hm
    obtain ⟨c, hc, hm⟩ := List.mem_flatMap.mp hm
    unfold escapeQuoted at hm
    split at hm
    · simp only [List.mem_cons, List.not_mem_nil, or_false] at hm
      rcases hm with hm | rfl
      · exact absurd hm (by decide)
      · exact hvalue hc
    · rw [List.mem_singleton] at hm
      exact hvalue (hm ▸ hc)
  simp [writtenLine, hname, hescaped] at hmem

theorem unifyLineEnds_of_not_mem {cs : List Char} (h : '\r' ∉ cs) : Text.unifyLineEnds cs = cs := by
  induction cs with
  | nil => rfl
  | cons c cs ih =>
    rw [List.mem_cons, not_or] at h
    rw [Text.unifyLineEnds, if_neg (Ne.symm h.1), ih h.2]
    exact fun _ hc => absurd hc.symm h.1

/-- A file that was written comes back as its entries. -/
theorem entries_written {es : List (String × String)}
    (h : ∀ e ∈ es, IsName e.1.toList ∧ '\r' ∉ e.2.toList) :
    entries (written es) = es.map fun e => ⟨e.1, some e.2⟩ := by
  have hmark : Text.dropByteOrderMark (es.flatMap writtenLine) = es.flatMap writtenLine := by
    cases es with
    | nil => rfl
    | cons e es =>
      have hn := (h e List.mem_cons_self).1
      obtain ⟨c, more, hname⟩ := List.exists_cons_of_ne_nil hn.nonempty
      have hc : c ≠ '\uFEFF' := by
        rintro rfl
        have hplain := (hn.plain '\uFEFF' (hname ▸ List.mem_cons_self)).1
        exact absurd hplain (by decide)
      rw [List.flatMap_cons, writtenLine, hname]
      exact Text.dropByteOrderMark.eq_2 _ fun _ hcs => hc (List.cons.inj hcs).1
  rw [entries, written, String.toList_ofList, hmark, unifyLineEnds_of_not_mem (not_mem_written h),
    entriesOf_written fun e he => (h e he).1]

/-! ### References -/

theorem pieces_of_no_dollar {cs : List Char} (h : '$' ∉ cs) : pieces cs = cs.map .plain := by
  induction cs with
  | nil =>
    rw [pieces]
    rfl
  | cons c cs ih =>
    rw [List.mem_cons, not_or] at h
    rw [pieces, ih h.2]
    · rfl
    · exact fun _ hc => absurd hc.symm h.1

theorem expand_of_no_dollar {value : String} (h : '$' ∉ value.toList)
    (known : String → Option String) : expand known value = value := by
  have hplain (cs : List Char) : (cs.map Piece.plain).flatMap (Piece.expand known) = cs := by
    induction cs with
    | nil => rfl
    | cons c cs ih =>
      rw [List.map_cons, List.flatMap_cons, ih]
      rfl
  rw [expand, pieces_of_no_dollar h, hplain, String.ofList_toList]

end Shoutmark.EnvironmentFile
