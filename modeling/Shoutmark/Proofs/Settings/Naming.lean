import Shoutmark.Settings.Basic

/-! Names of outputs. A name is its stem and the ending that is cut off. The ending is found in
small letters and cut by the number of characters of the extension as it is set, so what is cut off
is the extension just where these two measures agree. An empty extension cuts off the whole name,
and U+0130, which is two small letters, can make the ending longer or shorter than the extension. -/

namespace Shoutmark.Settings
open Shoutmark.Text

variable {s : Settings} {name : String}

/-- What the stem of a name leaves of it. -/
def ending (s : Settings) (name : String) : String :=
  String.ofList (name.toList.drop (s.stem name).length)

/-- The small letters of the ending cut off are as many as those of the extension, and they are the
same whether or not the stem stands before them. -/
def Measures (s : Settings) (name : String) : Prop :=
  (lower (s.ending name)).length = (lower s.sourceExtension).length ∧
    lowerAfter (s.stem name).toList.reverse (s.ending name).toList =
      lowerAfter [] (s.ending name).toList

/-- A character with one small letter that no neighbour decides. -/
def IsSteady (c : Char) : Prop := c ≠ '\u0130' ∧ c ≠ 'Σ'

instance : DecidablePred IsSteady := fun c =>
  inferInstanceAs (Decidable (c ≠ '\u0130' ∧ c ≠ 'Σ'))

theorem stem_prefix (s : Settings) (name : String) :
    ∃ n, (s.stem name).toList = name.toList.take n := by
  rw [stem]
  split
  · split
    · exact ⟨0, rfl⟩
    · exact ⟨_, String.toList_ofList⟩
  · exact ⟨name.length, (List.take_of_length_le (Nat.le_of_eq String.length_toList)).symm⟩

theorem stem_append_ending (s : Settings) (name : String) :
    s.stem name ++ s.ending name = name := by
  obtain ⟨n, hn⟩ := stem_prefix s name
  have htake : (name.toList.take n).length = min n name.toList.length := List.length_take
  rw [← String.toList_inj, String.toList_append, ending, String.toList_ofList,
    ← String.length_toList, hn, htake]
  by_cases hle : n ≤ name.toList.length
  · rw [Nat.min_eq_left hle, List.take_append_drop]
  · have hlt : name.toList.length ≤ n := Nat.le_of_not_le hle
    rw [Nat.min_eq_right hlt, List.take_of_length_le hlt, List.drop_length, List.append_nil]

theorem stem_of_not_hasExtension (h : s.hasExtension name = false) : s.stem name = name := by
  rw [stem, if_neg (by simp [h])]

theorem ending_of_not_hasExtension (h : s.hasExtension name = false) : s.ending name = "" := by
  rw [ending, stem_of_not_hasExtension h, ← String.length_toList, List.drop_length]

theorem lower_ending_in_name (h : s.hasExtension name = true)
    (hlen : (lower (s.ending name)).length = (lower s.sourceExtension).length) :
    lowerAfter (s.stem name).toList.reverse (s.ending name).toList =
      (lower s.sourceExtension).toList := by
  obtain ⟨y, hy⟩ : (lower s.sourceExtension).toList <:+ (lower name).toList :=
    List.isSuffixOf_iff_suffix.mp h
  obtain ⟨x, hx⟩ := lowerAfter_append [] (s.stem name).toList (s.ending name).toList
  rw [← String.toList_append, stem_append_ending, List.append_nil] at hx
  have hname : (lower name).toList =
      x ++ lowerAfter (s.stem name).toList.reverse (s.ending name).toList := by
    rw [lower, String.toList_ofList, hx]
  have hcount : (lower s.sourceExtension).toList.length =
      (lowerAfter (s.stem name).toList.reverse (s.ending name).toList).length := by
    rw [String.length_toList, ← hlen, length_lower, length_lowerAfter, String.length_toList]
  exact (List.append_inj' (hy.trans hname) hcount).2.symm

/-- What is cut off is the extension, case apart, just where it measures as much. -/
theorem lower_ending_iff (h : s.hasExtension name = true) :
    lower (s.ending name) = lower s.sourceExtension ↔ s.Measures name := by
  constructor
  · intro he
    have hlen := congrArg String.length he
    have hin := lower_ending_in_name h hlen
    refine ⟨hlen, hin.trans ?_⟩
    rw [← he, lower, String.toList_ofList]
  · rintro ⟨hlen, hself⟩
    rw [← String.toList_inj, ← lower_ending_in_name h hlen, hself, lower, String.toList_ofList]

theorem length_lower_of_steady {w : String} (h : ∀ c ∈ w.toList, IsSteady c) :
    (lower w).length = w.length := by
  have hcount : w.toList.count '\u0130' = 0 :=
    List.count_eq_zero.mpr fun hmem => (h _ hmem).1 rfl
  rw [length_lower, hcount, Nat.add_zero]

/-- Characters with one small letter each are measured rightly. -/
theorem measures_of_steady (h : s.hasExtension name = true) (hne : s.sourceExtension ≠ "")
    (hname : ∀ c ∈ name.toList, IsSteady c) (hext : ∀ c ∈ s.sourceExtension.toList, IsSteady c) :
    s.Measures name := by
  have hending : ∀ c ∈ (s.ending name).toList, IsSteady c := by
    intro c hc
    rw [← stem_append_ending s name, String.toList_append] at hname
    exact hname c (List.mem_append_right _ hc)
  have hle : s.sourceExtension.length ≤ name.length := by
    have hsuffix : (lower s.sourceExtension).toList <:+ (lower name).toList :=
      List.isSuffixOf_iff_suffix.mp h
    have hlen := hsuffix.length_le
    rwa [String.length_toList, String.length_toList, length_lower_of_steady hext,
      length_lower_of_steady hname] at hlen
  have hstem : (s.stem name).length = name.length - s.sourceExtension.length := by
    rw [stem, if_pos h, if_neg hne, String.length_ofList, List.length_take, String.length_toList]
    omega
  have hlen : (s.ending name).length = s.sourceExtension.length := by
    rw [ending, String.length_ofList, List.length_drop, String.length_toList, hstem]
    omega
  have hsigma : 'Σ' ∉ (s.ending name).toList := fun hmem => (hending _ hmem).2 rfl
  refine ⟨?_, ?_⟩
  · rw [length_lower_of_steady hending, length_lower_of_steady hext, hlen]
  · rw [lowerAfter_of_no_sigma hsigma, lowerAfter_of_no_sigma hsigma]

theorem stem_ne_empty {front e : String}
    (hlen : (lower (s.ending name)).length = (lower s.sourceExtension).length)
    (hname : name = front ++ e) (hfront : front ≠ "") (he : lower e = lower s.sourceExtension) :
    s.stem name ≠ "" := by
  intro hstem
  have hending : s.ending name = name := by
    have hcut := stem_append_ending s name
    rwa [hstem, String.empty_append] at hcut
  have hpos : 0 < front.length := by
    rw [Nat.pos_iff_ne_zero, ne_eq, ← String.length_toList, List.length_eq_zero_iff,
      String.toList_eq_nil_iff]
    exact hfront
  rw [hending, ← he, hname, length_lower, length_lower, String.length_append,
    String.toList_append, List.count_append] at hlen
  omega

/-- A name is its stem and the ending cut off, and the names of the outputs are the stem with
another ending. Without the extension nothing is cut off; with it the extension is, case apart, just
where the ending measures as much as the extension. Then names with the same output differ in the
spelling of the extension only, and what stands before the extension is kept. So it is for every
extension that is not empty, where no U+0130 and no capital sigma stands in it or in the name. -/
theorem extension_removed (s : Settings) (name : String) :
    s.outputName name = s.stem name ++ s.outputExtension ∧
    s.listingName name = s.stem name ++ ".source" ++ s.outputExtension ∧
    name = s.stem name ++ s.ending name ∧
    (s.hasExtension name = false → s.ending name = "") ∧
    (s.hasExtension name = true →
      (lower (s.ending name) = lower s.sourceExtension ↔ s.Measures name) ∧
      (s.Measures name →
        (∀ other, s.hasExtension other = true → s.Measures other →
          s.outputName other = s.outputName name →
            ∃ stem e e', name = stem ++ e ∧ other = stem ++ e' ∧
              lower e = lower s.sourceExtension ∧ lower e' = lower s.sourceExtension) ∧
        ∀ front e, front ≠ "" → name = front ++ e → lower e = lower s.sourceExtension →
          s.stem name ≠ "") ∧
      (s.sourceExtension ≠ "" → (∀ c ∈ name.toList, IsSteady c) →
        (∀ c ∈ s.sourceExtension.toList, IsSteady c) → s.Measures name)) := by
  refine ⟨rfl, rfl, (stem_append_ending s name).symm, ending_of_not_hasExtension, fun h => ?_⟩
  refine ⟨lower_ending_iff h, fun hm => ⟨fun other ho hmo hout => ?_, fun front e hf hn he => ?_⟩,
    measures_of_steady h⟩
  · rw [outputName, outputName, String.append_left_inj] at hout
    refine ⟨s.stem name, s.ending name, s.ending other, (stem_append_ending s name).symm, ?_,
      (lower_ending_iff h).mpr hm, (lower_ending_iff ho).mpr hmo⟩
    rw [← hout, stem_append_ending]
  · exact stem_ne_empty hm.1 hn hf he

/-- An extension with a letter outside ASCII, and two names that carry it otherwise spelled. -/
theorem extension_removed_umlaut :
    let s : Settings := { sourceExtension := ".LÖL" }
    s.hasExtension "straße.lÖl" = true ∧ s.hasExtension "straße.Löl" = true ∧
      s.Measures "straße.lÖl" ∧ s.outputName "straße.Löl" = s.outputName "straße.lÖl" ∧
      (∃ stem e e', "straße.lÖl" = stem ++ e ∧ "straße.Löl" = stem ++ e' ∧
        lower e = lower ".LÖL" ∧ lower e' = lower ".LÖL") ∧
      s.stem "straße.lÖl" ≠ "" := by
  intro s
  have h : s.hasExtension "straße.lÖl" = true := by decide
  have h' : s.hasExtension "straße.Löl" = true := by decide
  have hout : s.outputName "straße.Löl" = s.outputName "straße.lÖl" := by decide
  obtain ⟨-, -, -, -, hcut⟩ := extension_removed s "straße.lÖl"
  obtain ⟨-, -, -, -, hcut'⟩ := extension_removed s "straße.Löl"
  obtain ⟨-, hnames, hsteady⟩ := hcut h
  have hne : s.sourceExtension ≠ "" := by decide
  have hext : ∀ c ∈ s.sourceExtension.toList, IsSteady c := by simp [s, IsSteady]
  have hm : s.Measures "straße.lÖl" := hsteady hne (by simp [IsSteady]) hext
  have hm' : s.Measures "straße.Löl" := (hcut' h').2.2 hne (by simp [IsSteady]) hext
  exact ⟨h, h', hm, hout, (hnames hm).1 _ h' hm' hout,
    (hnames hm).2 "straße" ".lÖl" (by decide) (by decide) (by decide)⟩

/-- Without an extension to look for, the whole name is cut off; and where the ending of a name is
one character for two of the extension, a character of the stem goes with it. -/
theorem empty_extension_removes_all :
    (({ sourceExtension := "" } : Settings).hasExtension "page" = true ∧
      ({ sourceExtension := "" } : Settings).outputName "page" = ".html" ∧
      ¬ ∃ e, "page" = ({ sourceExtension := "" } : Settings).stem "page" ++ e ∧
        lower e = lower "") ∧
    (({ sourceExtension := "i\u0307" } : Settings).hasExtension "x\u0130" = true ∧
      ({ sourceExtension := "i\u0307" } : Settings).outputName "x\u0130" = ".html" ∧
      ¬ ∃ e, "x\u0130" = ({ sourceExtension := "i\u0307" } : Settings).stem "x\u0130" ++ e ∧
        lower e = lower "i\u0307") := by
  have hempty : ({ sourceExtension := "" } : Settings).stem "page" = "" := by decide
  have hdotted : ({ sourceExtension := "i\u0307" } : Settings).stem "x\u0130" = "" := by decide
  refine ⟨⟨by decide, by decide, ?_⟩, ⟨by decide, by decide, ?_⟩⟩
  · rintro ⟨e, hname, he⟩
    rw [hempty, String.empty_append] at hname
    subst hname
    revert he
    decide
  · rintro ⟨e, hname, he⟩
    rw [hdotted, String.empty_append] at hname
    subst hname
    revert he
    decide

end Shoutmark.Settings
