import Mathlib.Data.List.TakeWhile
import Shoutmark.Highlight.Stream
import Shoutmark.Text.Run

/-! Patterns at the boundaries of words. A text is made of runs, stretches of blanks and words in
turn. A pattern that is tried at the start of a run takes the whole run or does not fit, and what
follows the run makes no difference; so no rule stops inside a word. -/

namespace Shoutmark.Highlight
open Shoutmark.Text

/-- A stretch of blanks or of word characters, before the end of a text or a character of the other
sort. -/
structure IsRun (blank : Bool) (g rest : List Char) : Prop where
  ne_nil : g ≠ []
  uniform : ∀ c ∈ g, isBlank c = blank
  bounded : ∀ c, rest.head? = some c → isBlank c = !blank

/-- Characters of a word before its end. -/
structure IsWordTail (w rest : List Char) : Prop where
  uniform : ∀ c ∈ w, isBlank c = false
  bounded : ∀ c, rest.head? = some c → isBlank c = true

namespace Pattern

/-- At the start of a run the pattern takes the run or does not fit, whatever follows the run. -/
def TakesRuns (p : Pattern) : Prop :=
  ∀ ⦃blank : Bool⦄ ⦃g rest : List Char⦄, IsRun blank g rest →
    p (g ++ rest) = p g ∧ ∀ n, p g = some n → n = g.length

/-- Inside a word the pattern does not look past the word's end. -/
def StaysInWord (p : Pattern) : Prop :=
  ∀ ⦃w rest : List Char⦄, IsWordTail w rest →
    p (w ++ rest) = p w ∧ ∀ n, p w = some n → n ≤ w.length

/-- Inside a word the pattern takes the rest of the word or does not fit. -/
def TakesTail (p : Pattern) : Prop :=
  ∀ ⦃w rest : List Char⦄, IsWordTail w rest →
    p (w ++ rest) = p w ∧ ∀ n, p w = some n → n = w.length

/-- The pattern does not fit where a blank stands. -/
def RefusesBlanks (p : Pattern) : Prop :=
  ∀ ⦃c : Char⦄ ⦃cs : List Char⦄, isBlank c = true → p (c :: cs) = none

end Pattern

theorem atWordEnd_iff {cs : List Char} :
    atWordEnd cs = true ↔ ∀ c, cs.head? = some c → isBlank c = true := by
  cases cs <;> simp [atWordEnd]

theorem IsRun.isWordTail {g rest : List Char} (h : IsRun false g rest) : IsWordTail g rest :=
  ⟨h.uniform, h.bounded⟩

theorem IsWordTail.drop {w rest : List Char} (h : IsWordTail w rest) (n : Nat) :
    IsWordTail (w.drop n) rest :=
  ⟨fun c hc => h.uniform c (List.mem_of_mem_drop hc), h.bounded⟩

theorem IsWordTail.of_cons {c : Char} {w rest : List Char} (h : IsWordTail (c :: w) rest) :
    IsWordTail w rest := h.drop 1

theorem IsWordTail.atWordEnd_append {w rest : List Char} (h : IsWordTail w rest) :
    atWordEnd (w ++ rest) = true ↔ w = [] := by
  cases w with
  | nil => exact iff_of_true (atWordEnd_iff.mpr h.bounded) rfl
  | cons c w => simp [atWordEnd, h.uniform c List.mem_cons_self]

theorem isBlank_of_fitsLetter {letter c : Char} (h : fitsLetter letter c = true)
    (hl : isBlank letter = false) : isBlank c = false := by
  rw [fitsLetter, Bool.or_eq_true, beq_iff_eq] at h
  rcases h with h | h
  · rw [← isBlank_toLower, ← h, isBlank_toLower]
    exact hl
  · simp only [standsFor, Bool.or_eq_true, Bool.and_eq_true, beq_iff_eq] at h
    rcases h with (⟨rfl, -⟩ | ⟨rfl, -⟩) | ⟨rfl | rfl, -⟩ <;> rfl

namespace Pattern

variable {p q : Pattern}

/-! ### Blanks -/

theorem refusesBlanks_literal {l : Char} {ls : List Char} (hl : isBlank l = false) :
    RefusesBlanks (literal (l :: ls)) := by
  intro c cs hc
  have hn : ¬ fitsLetter l c = true := fun hf => by
    rw [isBlank_of_fitsLetter hf hl] at hc
    cases hc
  rw [literal, if_neg hn]

theorem RefusesBlanks.followedBy (hp : RefusesBlanks p) : RefusesBlanks (p.followedBy q) := by
  intro c cs hc
  simp [Pattern.followedBy, hp hc]

theorem RefusesBlanks.orNothing_followedBy (hp : RefusesBlanks p) (hq : RefusesBlanks q) :
    RefusesBlanks (p.orNothing.followedBy q) := by
  intro c cs hc
  simp [Pattern.followedBy, Pattern.orNothing, hp hc, hq hc]

theorem RefusesBlanks.toWordEnd (hp : RefusesBlanks p) : RefusesBlanks p.toWordEnd := by
  intro c cs hc
  simp [Pattern.toWordEnd, hp hc]

/-! ### Inside a word -/

theorem staysInWord_literal {ls : List Char} (hls : ls.any isBlank = false) :
    StaysInWord (literal ls) := by
  intro w rest hw
  induction ls generalizing w with
  | nil => cases w <;> simp [literal]
  | cons l ls ih =>
    obtain ⟨hl, hrest⟩ := Bool.or_eq_false_iff.mp hls
    cases w with
    | nil =>
      -- The letter would have to match the blank after the word.
      cases rest with
      | nil => simp [literal]
      | cons c rest => simp [refusesBlanks_literal hl (hw.bounded c rfl), literal]
    | cons c w =>
      obtain ⟨he, hn⟩ := ih hrest hw.of_cons
      rw [List.cons_append, literal, literal, he]
      refine ⟨rfl, fun n hm => ?_⟩
      split at hm
      · obtain ⟨m, hl, rfl⟩ := Option.map_eq_some_iff.mp hm
        exact Nat.succ_le_succ (hn m hl)
      · cases hm

theorem staysInWord_single {p : Char → Bool} (hp : ∀ c, p c = true → isBlank c = false) :
    StaysInWord (single p) := by
  intro w rest hw
  cases w with
  | nil =>
    cases rest with
    | nil => exact ⟨rfl, nofun⟩
    | cons c rest =>
      have hc : ¬ p c = true := fun h => by
        have hb := hw.bounded c rfl
        rw [hp c h] at hb
        cases hb
      simp [single, hc]
  | cons c w =>
    refine ⟨rfl, fun n hn => ?_⟩
    rw [single] at hn
    split at hn
    · cases hn
      simp
    · cases hn

theorem StaysInWord.orNothing (hp : StaysInWord p) : StaysInWord p.orNothing := by
  intro w rest hw
  obtain ⟨he, hn⟩ := hp hw
  refine ⟨by rw [Pattern.orNothing, Pattern.orNothing, he], fun n hm => ?_⟩
  rw [← Option.some.inj hm]
  cases hpw : p w with
  | none => exact Nat.zero_le _
  | some m => exact hn m hpw

/-- After a pattern that stays in the word, the next is tried inside the word, too. -/
theorem StaysInWord.followedBy_takesTail (hp : StaysInWord p) (hq : TakesTail q) :
    TakesTail (p.followedBy q) := by
  intro w rest hw
  obtain ⟨he, hn⟩ := hp hw
  rw [Pattern.followedBy, Pattern.followedBy, he]
  cases hpw : p w with
  | none => exact ⟨rfl, nofun⟩
  | some m =>
    have hle : m ≤ w.length := hn m hpw
    have hdrop : (w ++ rest).drop m = w.drop m ++ rest := List.drop_append_of_le_length hle
    obtain ⟨heq, hk⟩ := hq (hw.drop m)
    refine ⟨?_, fun n hm => ?_⟩
    · show (q ((w ++ rest).drop m)).bind _ = (q (w.drop m)).bind _
      rw [hdrop, heq]
    · have hm' : (q (w.drop m)).bind (fun k => some (m + k)) = some n := hm
      obtain ⟨k, hqk, hmk⟩ := Option.bind_eq_some_iff.mp hm'
      rw [← Option.some.inj hmk, hk k hqk, List.length_drop]
      omega

/-- What has to end with a word takes the rest of the word it is in. -/
theorem StaysInWord.takesTail_toWordEnd (hp : StaysInWord p) : TakesTail p.toWordEnd := by
  intro w rest hw
  obtain ⟨he, hn⟩ := hp hw
  rw [toWordEnd, toWordEnd, he]
  cases hpw : p w with
  | none => exact ⟨rfl, nofun⟩
  | some m =>
    have hle : m ≤ w.length := hn m hpw
    have hdrop : (w ++ rest).drop m = w.drop m ++ rest := List.drop_append_of_le_length hle
    have hrest : atWordEnd (w.drop m ++ rest) = true ↔ w.drop m = [] :=
      (hw.drop m).atWordEnd_append
    have hnil : atWordEnd (w.drop m) = true ↔ w.drop m = [] := by
      have : IsWordTail (w.drop m) [] := ⟨(hw.drop m).uniform, nofun⟩
      simpa using this.atWordEnd_append
    have hboth : atWordEnd (w.drop m ++ rest) = atWordEnd (w.drop m) :=
      Bool.eq_iff_iff.mpr (hrest.trans hnil.symm)
    rw [Option.filter_some, Option.filter_some, hdrop, hboth]
    refine ⟨rfl, fun n hm => ?_⟩
    split at hm
    · rename_i hend
      rw [← Option.some.inj hm]
      exact Nat.le_antisymm hle (List.drop_eq_nil_iff.mp (hnil.mp hend))
    · cases hm

/-! ### Whole runs -/

theorem run_eq_length {p : Char → Bool} {g : List Char} (hg : ∀ c ∈ g, p c = true) (hne : g ≠ []) :
    run p g = some g.length := by
  have htake : g.takeWhile p = g := List.takeWhile_eq_self_iff.mpr hg
  obtain ⟨c, cs, rfl⟩ := List.exists_cons_of_ne_nil hne
  rw [run, htake]
  rfl

theorem run_append {p : Char → Bool} {g rest : List Char} {sort : Bool}
    (hg : ∀ c ∈ g, p c = sort) (hrest : ∀ c, rest.head? = some c → p c = !sort) (hne : g ≠ []) :
    run p (g ++ rest) = run p g ∧ ∀ n, run p g = some n → n = g.length := by
  cases sort with
  | true =>
    have hlen := run_eq_length hg hne
    refine ⟨?_, fun n hn => Option.some.inj (hn.symm.trans hlen)⟩
    rw [hlen, run, takeWhile_run hg hrest]
    obtain ⟨c, cs, rfl⟩ := List.exists_cons_of_ne_nil hne
    rfl
  | false =>
    obtain ⟨c, cs, rfl⟩ := List.exists_cons_of_ne_nil hne
    simp [run, hg c List.mem_cons_self]

theorem takesRuns_blanks : TakesRuns blanks := fun _ _ _ h =>
  run_append h.uniform h.bounded h.ne_nil

theorem takesRuns_word : TakesRuns word := by
  intro blank g rest h
  have hg : ∀ c ∈ g, isWordChar c = !blank := fun c hc => by rw [isWordChar, h.uniform c hc]
  have hrest : ∀ c, rest.head? = some c → isWordChar c = !!blank := fun c hc => by
    rw [isWordChar, h.bounded c hc]
  exact run_append hg hrest h.ne_nil

theorem takesTail_word : TakesTail word := by
  intro w rest hw
  cases w with
  | nil =>
    cases rest with
    | nil => exact ⟨rfl, nofun⟩
    | cons c rest => simp [word, run, isWordChar, hw.bounded c rfl]
  | cons c w => exact takesRuns_word ⟨List.cons_ne_nil c w, hw.uniform, hw.bounded⟩

/-- A pattern that takes the rest of a word takes runs, unless it fits at a blank. -/
theorem TakesTail.takesRuns (hp : TakesTail p) (hb : RefusesBlanks p) : TakesRuns p := by
  intro blank g rest hg
  cases blank with
  | false => exact hp hg.isWordTail
  | true =>
    obtain ⟨c, cs, rfl⟩ := List.exists_cons_of_ne_nil hg.ne_nil
    have hc : isBlank c = true := hg.uniform c List.mem_cons_self
    rw [List.cons_append, hb hc, hb hc]
    exact ⟨rfl, nofun⟩

theorem takesRuns_firstOf {ps : List Pattern} (h : ∀ p ∈ ps, TakesRuns p) :
    TakesRuns (firstOf ps) := by
  intro blank g rest hg
  induction ps with
  | nil => exact ⟨rfl, nofun⟩
  | cons p ps ih =>
    obtain ⟨he, hn⟩ := h p List.mem_cons_self hg
    obtain ⟨he', hn'⟩ := ih fun q hq => h q (List.mem_cons_of_mem p hq)
    rw [firstOf, firstOf] at he'
    rw [firstOf, firstOf, List.findSome?_cons, List.findSome?_cons, he, he']
    cases hp : p g with
    | none => exact ⟨rfl, hn'⟩
    | some m => exact ⟨rfl, fun n hm => hn n (hp.trans hm)⟩

theorem takesRuns_literal_toWordEnd {l : Char} {ls : List Char}
    (hls : (l :: ls).any isBlank = false) : TakesRuns (literal (l :: ls)).toWordEnd :=
  (staysInWord_literal hls).takesTail_toWordEnd.takesRuns
    (refusesBlanks_literal (Bool.or_eq_false_iff.mp hls).1).toWordEnd

end Pattern

open Pattern

/-! ### The rules -/

theorem isBlank_spelling (k : Keyword) : k.spelling.toList.any isBlank = false := by
  cases k <;> decide

theorem takesRuns_wholeWord (k : Keyword) : TakesRuns (wholeWord k) := by
  have hls := isBlank_spelling k
  have hne : k.spelling.toList ≠ [] := by simpa using k.spelling_ne_empty
  obtain ⟨l, ls, hk⟩ := List.exists_cons_of_ne_nil hne
  rw [hk] at hls
  rw [wholeWord, hk]
  exact takesRuns_literal_toWordEnd hls

theorem takesRuns_keywordRule (c : Category) : TakesRuns (keywordRule c).pattern := by
  refine takesRuns_firstOf fun p hp => ?_
  obtain ⟨k, -, rfl⟩ := List.mem_map.mp hp
  exact takesRuns_wholeWord k

theorem takesRuns_link : TakesRuns link := by
  have hmark : StaysInWord (literal ['#']) := staysInWord_literal (by decide)
  have hhttp : StaysInWord (literal "http".toList) := staysInWord_literal (by decide)
  have hs : StaysInWord (literal ['s']) := staysInWord_literal (by decide)
  have hslashes : StaysInWord (literal "://".toList) := staysInWord_literal (by decide)
  have htail : TakesTail link :=
    hmark.orNothing.followedBy_takesTail <| hhttp.followedBy_takesTail <|
      hs.orNothing.followedBy_takesTail <| hslashes.followedBy_takesTail takesTail_word
  refine htail.takesRuns ?_
  have hstart : RefusesBlanks (literal "http".toList) := refusesBlanks_literal (by decide)
  exact (refusesBlanks_literal (by decide)).orNothing_followedBy hstart.followedBy

theorem not_isBlank_of_isPunctuation {c : Char} (h : isPunctuation c = true) :
    isBlank c = false := by
  simp only [isPunctuation, Bool.or_eq_true, beq_iff_eq] at h
  rcases h with ((rfl | rfl) | rfl) | rfl <;> decide

theorem takesRuns_punctuation : TakesRuns (single isPunctuation).toWordEnd := by
  refine (staysInWord_single fun c => not_isBlank_of_isPunctuation).takesTail_toWordEnd.takesRuns ?_
  refine RefusesBlanks.toWordEnd fun c cs hc => ?_
  have hp : ¬ isPunctuation c = true := fun h => by
    rw [not_isBlank_of_isPunctuation h] at hc
    cases hc
  simp [single, hp]

/-- No rule of any mode stops inside a run. -/
theorem takesRuns_rules (m : Mode) {r : Rule} (hr : r ∈ rules m) : TakesRuns r.pattern := by
  cases m with
  | page =>
    simp only [rules, List.mem_cons, List.not_mem_nil, or_false] at hr
    rcases hr with rfl | rfl | rfl | rfl | rfl | rfl | rfl | rfl | rfl | rfl
    · exact takesRuns_blanks
    · exact takesRuns_wholeWord .obtw
    · exact takesRuns_keywordRule .structural
    · exact takesRuns_keywordRule .block
    · exact takesRuns_keywordRule .inline
    · exact takesRuns_keywordRule .naming
    · exact takesRuns_keywordRule .media
    · exact takesRuns_link
    · exact takesRuns_punctuation
    · exact takesRuns_word
  | comment =>
    simp only [rules, List.mem_cons, List.not_mem_nil, or_false] at hr
    rcases hr with rfl | rfl | rfl
    · exact takesRuns_wholeWord .tldr
    · exact takesRuns_blanks
    · exact takesRuns_word

end Shoutmark.Highlight
