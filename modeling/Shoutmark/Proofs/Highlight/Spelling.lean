import Shoutmark.Proofs.Highlight.Boundary

/-! Which words the keyword patterns take. A few letters outside ASCII count as ASCII letters there,
so a pattern takes the words that are spelled like the keyword once these letters are replaced. -/

namespace Shoutmark.Highlight
open Shoutmark.Text

/-- A letter outside ASCII that counts as an ASCII letter in a pattern. -/
def IsDisguised (c : Char) : Prop :=
  c = '\u017F' ∨ c = '\u212A' ∨ c = '\u0130' ∨ c = '\u0131'

instance : DecidablePred IsDisguised := fun c =>
  inferInstanceAs (Decidable (c = '\u017F' ∨ c = '\u212A' ∨ c = '\u0130' ∨ c = '\u0131'))

/-- The ASCII letter that a letter counts as; every other character is itself. -/
def plainLetter (c : Char) : Char :=
  if c = '\u017F' then 's'
  else if c = '\u212A' then 'k'
  else if c = '\u0130' ∨ c = '\u0131' then 'i'
  else c

/-- The word as the patterns read it. -/
def readAs (w : String) : String := String.ofList (w.toList.map plainLetter)

theorem toList_readAs (w : String) : (readAs w).toList = w.toList.map plainLetter :=
  String.toList_ofList

theorem plainLetter_of_not_disguised {c : Char} (h : ¬ IsDisguised c) : plainLetter c = c := by
  simp only [IsDisguised, not_or] at h
  rw [plainLetter, if_neg h.1, if_neg h.2.1, if_neg (not_or.mpr h.2.2)]

theorem readAs_of_not_disguised {w : String} (h : ∀ c ∈ w.toList, ¬ IsDisguised c) :
    readAs w = w := by
  have hm : w.toList.map plainLetter = w.toList := by
    rw [List.map_congr_left fun c hc => plainLetter_of_not_disguised (h c hc), List.map_id']
  rw [readAs, hm, String.ofList_toList]

/-- What a letter counts as has one of three capitals. -/
theorem toUpper_plainLetter {c : Char} (h : IsDisguised c) :
    (plainLetter c).toUpper ∈ ['S', 'K', 'I'] := by
  rcases h with rfl | rfl | rfl | rfl <;> decide

/-- Such a letter has no other case. -/
theorem toUpper_eq_disguised_iff {letter c : Char} (hc : IsDisguised c) :
    letter.toUpper = c.toUpper ↔ letter = c := by
  have hd : 122 < c.toNat := by rcases hc with rfl | rfl | rfl | rfl <;> decide
  rw [(toUpper_eq_iff (Or.inr hd)).mpr rfl, toUpper_eq_iff (Or.inr hd)]

theorem fitsLetter_iff {letter c : Char} (hl : ¬ IsDisguised letter) :
    fitsLetter letter c = true ↔ letter.toUpper = (plainLetter c).toUpper := by
  have small (d : Char) (hd : d.toLower = d) : letter.toLower = d ↔ letter.toUpper = d.toUpper := by
    rw [← toLower_eq_toLower_iff, hd]
  rw [fitsLetter, Bool.or_eq_true, beq_iff_eq, toLower_eq_toLower_iff]
  by_cases hc : IsDisguised c
  · have hne : ¬ letter.toUpper = c.toUpper := fun h =>
      hl ((toUpper_eq_disguised_iff hc).mp h ▸ hc)
    rw [or_iff_right hne]
    rcases hc with rfl | rfl | rfl | rfl
    · simpa [standsFor, plainLetter] using small 's' rfl
    · simpa [standsFor, plainLetter] using small 'k' rfl
    · simpa [standsFor, plainLetter] using small 'i' rfl
    · simpa [standsFor, plainLetter] using small 'i' rfl
  · have hs : ¬ standsFor c letter = true := by
      simp only [IsDisguised, not_or] at hc
      simp [standsFor, hc]
    rw [or_iff_left hs, plainLetter_of_not_disguised hc]

theorem literal_eq_length_iff {ls w : List Char} (hls : ∀ l ∈ ls, ¬ IsDisguised l) :
    literal ls w = some w.length ↔ ls.map Char.toUpper = (w.map plainLetter).map Char.toUpper := by
  induction ls generalizing w with
  | nil => cases w <;> simp [literal]
  | cons l ls ih =>
    cases w with
    | nil => simp [literal]
    | cons c w =>
      have hf := fitsLetter_iff (c := c) (hls l List.mem_cons_self)
      have hw := ih (w := w) fun l' hl' => hls l' (List.mem_cons_of_mem l hl')
      simp only [literal, List.map_cons, List.cons.injEq, ← hf, ← hw]
      by_cases hfit : fitsLetter l c = true <;> simp [hfit]

theorem toWordEnd_eq_length_iff {p : Pattern} {g : List Char} :
    p.toWordEnd g = some g.length ↔ p g = some g.length := by
  simp [Pattern.toWordEnd, Option.filter_eq_some_iff, atWordEnd]

theorem not_disguised_spelling (k : Keyword) : ∀ l ∈ k.spelling.toList, ¬ IsDisguised l := by
  have h : k.spelling.toList.all (fun l => decide (¬ IsDisguised l)) = true := by
    cases k <;> decide
  exact fun l hl => of_decide_eq_true (List.all_eq_true.mp h l hl)

/-- The pattern of a keyword takes a whole text just where the text reads as the keyword. -/
theorem wholeWord_eq_length_iff {k : Keyword} {g : List Char} :
    wholeWord k g = some g.length ↔ Keyword.ofWord? (readAs (String.ofList g)) = some k := by
  have hk : k.spelling.toList.map Char.toUpper = k.spelling.toList := by
    rw [← toList_upper, Keyword.upper_spelling]
  rw [wholeWord, toWordEnd_eq_length_iff, literal_eq_length_iff (not_disguised_spelling k), hk,
    Keyword.ofWord?_eq_some_iff, ← String.toList_inj, toList_upper, toList_readAs,
    String.toList_ofList, eq_comm]

theorem ofWord?_of_disguised {w : String} {c : Char} (hc : c ∈ w.toList) (hd : IsDisguised c) :
    Keyword.ofWord? w = none := by
  rw [Option.eq_none_iff_forall_ne_some]
  intro k hk
  have hu : c.toUpper = c := by rcases hd with rfl | rfl | rfl | rfl <;> decide
  refine not_disguised_spelling k c ?_ hd
  rw [← Keyword.ofWord?_eq_some_iff.mp hk, toList_upper]
  exact List.mem_map.mpr ⟨c, hc, hu⟩

/-- A word that reads as a keyword without the letters S, K and I is that keyword. -/
theorem ofWord?_readAs_iff {k : Keyword} (hk : k.spelling.toList.all (· ∉ ['S', 'K', 'I']) = true)
    {w : String} : Keyword.ofWord? (readAs w) = some k ↔ Keyword.ofWord? w = some k := by
  by_cases hw : ∀ c ∈ w.toList, ¬ IsDisguised c
  · rw [readAs_of_not_disguised hw]
  · obtain ⟨c, hc, hd⟩ : ∃ c ∈ w.toList, IsDisguised c := by simpa using hw
    rw [ofWord?_of_disguised hc hd]
    refine iff_of_false (fun h => ?_) nofun
    -- What the letter counts as would have to stand in the spelling.
    refine of_decide_eq_true (List.all_eq_true.mp hk _ ?_) (toUpper_plainLetter hd)
    rw [← Keyword.ofWord?_eq_some_iff.mp h, toList_upper, toList_readAs, List.map_map]
    exact List.mem_map_of_mem hc

/-- Words are read as keywords of the same categories as they are, unless a word has a letter that
counts as another and reads as a keyword. -/
theorem reads_as_itself_iff {w : String} :
    (∀ c, (Keyword.ofWord? (readAs w)).map Keyword.category = some c ↔
      (Keyword.ofWord? w).map Keyword.category = some c) ↔
    ((∃ l ∈ w.toList, IsDisguised l) → Keyword.ofWord? (readAs w) = none) := by
  by_cases hw : ∃ l ∈ w.toList, IsDisguised l
  · obtain ⟨l, hl, hd⟩ := id hw
    rw [ofWord?_of_disguised hl hd]
    cases hr : Keyword.ofWord? (readAs w) with
    | none => simp
    | some k => exact iff_of_false (fun h => nomatch (h k.category).mp rfl) fun h => nomatch h hw
  · have hself : readAs w = w := readAs_of_not_disguised fun l hl hd => hw ⟨l, hl, hd⟩
    rw [hself]
    exact iff_of_true (fun _ => Iff.rfl) fun h => absurd h hw

end Shoutmark.Highlight
