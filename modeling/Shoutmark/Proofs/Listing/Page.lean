import Shoutmark.Proofs.Listing.Cell

/-! A listing is the source it was made from: its cell shows the characters of the source in the
classes of their pieces, line by line, and its numbers count the lines. -/

namespace Shoutmark.Listing

open Highlight (Piece pieces prepare)

/-! ### The lines -/

theorem eq_of_mem_classified {ps : List Piece} {span : Option String}
    (h : (span, '\n') ∈ classified ps) : span = none := by
  obtain ⟨p, -, hp⟩ := List.mem_flatMap.mp h
  obtain ⟨c, -, hc⟩ := List.mem_map.mp hp
  obtain ⟨hspan, rfl⟩ := Prod.mk.inj hc
  exact hspan.symm.trans (if_pos rfl)

theorem exists_classified_lineFeed {ps : List Piece} {before : List Char}
    (h : (classified ps).map Prod.snd = before ++ ['\n']) :
    ∃ shown, classified ps = shown ++ [(none, '\n')] := by
  obtain ⟨shown, last, hps, -, hlast⟩ := List.map_eq_append_iff.mp h
  obtain ⟨⟨span, c⟩, rfl, rfl⟩ := List.map_eq_singleton_iff.mp hlast
  have hmem : (span, '\n') ∈ classified ps := by
    rw [hps]
    exact List.mem_append_right _ List.mem_cons_self
  exact ⟨shown, eq_of_mem_classified hmem ▸ hps⟩

theorem exists_rows_codeLines {source : String} {before : List Char}
    (h : source.toList = before ++ ['\n']) :
    ∃ rows, List.Forall₂ (Writes · none ·) (codeLines (pieces source)) rows ∧
      (∀ row ∈ rows, EndsLine row) ∧ rows.flatten = classified (pieces source) := by
  have hsource : (classified (pieces source)).map Prod.snd = before ++ ['\n'] := by
    rw [map_snd_classified, Highlight.join_pieces, h]
  obtain ⟨shown, hshown⟩ := exists_classified_lineFeed hsource
  have hwritten := Sheet.shows_blank.foldl (pieces source)
  rw [List.nil_append, hshown] at hwritten
  rw [hshown]
  exact hwritten.finish

theorem length_rows {rows : List (List Shown)} (h : ∀ row ∈ rows, EndsLine row) :
    rows.length = (rows.flatten.map Prod.snd).count '\n' := by
  induction rows with
  | nil => rfl
  | cons row rows ih =>
    obtain ⟨⟨inner, rfl, hinner⟩, hrows⟩ := List.forall_mem_cons.mp h
    have hone : ((inner ++ [(none, '\n')]).map Prod.snd).count '\n' = 1 := by
      rw [List.map_append, List.count_append, List.count_eq_zero_of_not_mem hinner]
      rfl
    rw [List.length_cons, ih hrows, List.flatten_cons, List.map_append, List.count_append, hone,
      Nat.add_comm]

/-! ### The numbers -/

def label (blanks i : Nat) : String := String.ofList (List.replicate blanks ' ') ++ toString i

def numbered (label : String) : String := "<span class=\"normal\">" ++ label ++ "</span>"

theorem length_toString_le {i n : Nat} (h : i ≤ n) :
    (toString i).length ≤ (toString n).length := by
  rw [Nat.toString_eq_ofList_toDigits, Nat.toString_eq_ofList_toDigits, String.length_ofList,
    String.length_ofList, Nat.length_toDigits_le_iff (by decide) Nat.length_toDigits_pos]
  have hn : n < 10 ^ (Nat.toDigits 10 n).length :=
    (Nat.length_toDigits_le_iff (by decide) Nat.length_toDigits_pos).mp le_rfl
  exact h.trans_lt hn

theorem numbered_label (blanks i : Nat) :
    numbered (label blanks i) = "<span class=\"normal\">" ++
      String.ofList (List.replicate blanks ' ') ++ toString i ++ "</span>" :=
  congrArg (· ++ "</span>") String.append_assoc.symm

theorem lineNumbers_eq (count : Nat) :
    lineNumbers count = (List.range count).map fun i =>
      numbered (label ((toString count).length - (toString (i + 1)).length) (i + 1)) :=
  List.map_congr_left fun _ _ => (numbered_label _ _).symm

theorem exists_labels (count : Nat) :
    ∃ labels : List String, lineNumbers count = labels.map numbered ∧ labels.length = count ∧
      ∀ i (h : i < labels.length), (∃ blanks, labels[i] = label blanks (i + 1)) ∧
        labels[i].length = (toString count).length := by
  let blanks (i : Nat) : Nat := (toString count).length - (toString (i + 1)).length
  refine ⟨(List.range count).map fun i => label (blanks i) (i + 1), ?_, ?_, ?_⟩
  · rw [lineNumbers_eq, List.map_map]
    rfl
  · rw [List.length_map, List.length_range]
  · intro i hi
    have hcount : i + 1 ≤ count := by rwa [List.length_map, List.length_range] at hi
    rw [List.getElem_map, List.getElem_range]
    refine ⟨⟨blanks i, rfl⟩, ?_⟩
    rw [label, String.length_append, String.length_ofList, List.length_replicate]
    exact Nat.sub_add_cancel (length_toString_le hcount)

/-! ### The page -/

/-- The numbers and the lines are those of a text: each line closes what it opens and shows its
row, the rows together show the text in the classes of its pieces, and the lines are numbered from
one on, to the right. -/
structure IsListing (text : String) (labels : List String) (lines : List (List Char))
    (rows : List (List Shown)) : Prop where
  line : lines.map Reader.read = rows.map some
  cell : Reader.read lines.flatten = some rows.flatten
  classes : rows.flatten = classified (pieces text)
  characters : rows.flatten.map Prod.snd = text.toList
  ends : ∀ row ∈ rows, EndsLine row
  count : labels.length = text.toList.count '\n'
  number : ∀ i (h : i < labels.length), ∃ blanks, labels[i] = label blanks (i + 1)
  width : ∀ l ∈ labels, l.length = (toString (text.toList.count '\n')).length

/-- The numbers stand in their column and the lines in their cell, behind a head that neither has a
part in. -/
theorem exists_head (sheet title : String) :
    ∃ head, ∀ numbers code, document sheet title numbers code =
      head ++ "<div class=\"highlight\"><table class=\"highlighttable\"><tr><td class=\"linenos\">" ++
        "<div class=\"linenodiv\"><pre>" ++ numbers ++ "</pre></div></td><td class=\"code\"><div>" ++
        "<pre><span></span>" ++ code ++ "</pre></div></td></tr></table></div>\n</body>\n</html>\n" :=
  ⟨_, fun _ _ => rfl⟩

/-- The listing of a source is a head, which the source has no part in, the numbers in their column,
the coloured lines in their cell and the end of the page. The cell shows the source made ready for
display, each character but the line feeds in the class of its piece. -/
theorem listing_shows_source {style : String} (h : style ∈ styles) (sheet : String)
    (title : Option String) :
    ∃ head, ∀ source, ∃ labels rows,
      IsListing (prepare source) labels (codeLines (pieces (prepare source))) rows ∧
      render sheet style title source =
        .ok (head ++
          "<div class=\"highlight\"><table class=\"highlighttable\"><tr><td class=\"linenos\">" ++
          "<div class=\"linenodiv\"><pre>" ++ "\n".intercalate (labels.map numbered) ++
          "</pre></div></td><td class=\"code\"><div>" ++
          "<pre><span></span>" ++ String.ofList (codeLines (pieces (prepare source))).flatten ++
          "</pre></div></td></tr></table></div>\n</body>\n</html>\n") := by
  obtain ⟨head, hdocument⟩ := exists_head sheet (titleOf title)
  refine ⟨head, fun source => ?_⟩
  have hprepared : ∃ before, (prepare source).toList = before ++ ['\n'] :=
    ⟨_, String.toList_ofList⟩
  obtain ⟨before, hbefore⟩ := hprepared
  obtain ⟨rows, hlines, hends, hclasses⟩ := exists_rows_codeLines hbefore
  obtain ⟨labels, hlabels, hlength, hnumbers⟩ :=
    exists_labels (codeLines (pieces (prepare source))).length
  have hcharacters : rows.flatten.map Prod.snd = (prepare source).toList := by
    rw [hclasses, map_snd_classified, Highlight.join_pieces]
  have hcount : (codeLines (pieces (prepare source))).length =
      (prepare source).toList.count '\n' := by
    rw [hlines.length_eq, length_rows hends, hcharacters]
  refine ⟨labels, rows, ⟨Writes.read_lines hlines, (Writes.flatten hlines).read, hclasses,
    hcharacters, hends, hlength.trans hcount, fun i hi => (hnumbers i hi).1, ?_⟩, ?_⟩
  · intro l hl
    obtain ⟨i, hi, rfl⟩ := List.mem_iff_getElem.mp hl
    rw [(hnumbers i hi).2, hcount]
  · rw [render, if_pos h, page, hlabels, hdocument]

/-- A run of blanks goes from one line to the next: its line feed lies in no span, its blank in
one. -/
theorem listing_shows_source_indented :
    "default" ∈ styles ∧ ∃ head labels rows,
      IsListing (prepare "\na\r\n <") labels (codeLines (pieces (prepare "\na\r\n <"))) rows ∧
      labels.length = 2 ∧
      rows.flatten =
        [(none, 'a'), (none, '\n'), (some "w", ' '), (none, '<'), (none, '\n')] ∧
      render "" "default" none "\na\r\n <" =
        .ok (head ++
          "<div class=\"highlight\"><table class=\"highlighttable\"><tr><td class=\"linenos\">" ++
          "<div class=\"linenodiv\"><pre>" ++ "\n".intercalate (labels.map numbered) ++
          "</pre></div></td><td class=\"code\"><div>" ++
          "<pre><span></span>a\n<span class=\"w\"> </span>&lt;\n" ++
          "</pre></div></td></tr></table></div>\n</body>\n</html>\n") := by
  have hstyle : "default" ∈ styles := by decide
  obtain ⟨head, hpages⟩ := listing_shows_source hstyle "" none
  obtain ⟨labels, rows, hlisting, hrender⟩ := hpages "\na\r\n <"
  have hcount : (prepare "\na\r\n <").toList.count '\n' = 2 := by decide
  have hpieces : pieces (prepare "\na\r\n <") =
      [⟨0, .text, "a"⟩, ⟨1, .blank, "\n "⟩, ⟨3, .text, "<"⟩, ⟨4, .blank, "\n"⟩] := by cbv
  have hclasses : classified (pieces (prepare "\na\r\n <")) =
      [(none, 'a'), (none, '\n'), (some "w", ' '), (none, '<'), (none, '\n')] := by
    rw [hpieces]
    rfl
  have hcell : (codeLines (pieces (prepare "\na\r\n <"))).flatten =
      "a\n<span class=\"w\"> </span>&lt;\n".toList := by
    rw [hpieces]
    decide
  refine ⟨hstyle, head, labels, rows, hlisting, hlisting.count.trans hcount,
    hlisting.classes.trans hclasses, ?_⟩
  rw [hrender, hcell, String.ofList_toList]
  simp only [String.append_assoc]
  rfl

/-- The line feed between two words is a blank, and blanks have a class; but in the cell it lies in
no span. -/
theorem line_feed_outside_spans :
    (codeLines (pieces (prepare "a\nb"))).flatten = "a\nb\n".toList ∧
    (⟨1, .blank, "\n"⟩ : Piece) ∈ pieces (prepare "a\nb") ∧ spanClass .blank = some "w" ∧
    ∃ shown, Reader.read (codeLines (pieces (prepare "a\nb"))).flatten = some shown ∧
      (none, '\n') ∈ shown ∧
      shown ≠ (pieces (prepare "a\nb")).flatMap fun p =>
        p.text.toList.map fun c => (spanClass p.kind, c) := by
  have hpieces : pieces (prepare "a\nb") =
      [⟨0, .text, "a"⟩, ⟨1, .blank, "\n"⟩, ⟨2, .text, "b"⟩, ⟨3, .blank, "\n"⟩] := by cbv
  have hcell : (codeLines (pieces (prepare "a\nb"))).flatten = "a\nb\n".toList := by
    rw [hpieces]
    decide
  have hread : Reader.read "a\nb\n".toList =
      some [(none, 'a'), (none, '\n'), (none, 'b'), (none, '\n')] := by decide
  refine ⟨hcell, by simp [hpieces], rfl, _, hcell ▸ hread, by simp, ?_⟩
  rw [hpieces]
  decide

end Shoutmark.Listing
