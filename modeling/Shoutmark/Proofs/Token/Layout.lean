import Shoutmark.Compile
import Shoutmark.Text.Run

/-! How words lie in a text. A text is laid out as words with gaps of separators between them, and
a gap may be empty only where the next word cannot be taken for a part of the one before. Reading
finds the words of exactly such texts; any other text holds a special word that is not valid, and
reading stops at the first one. -/

namespace Shoutmark.Token
open Shoutmark.Text (takeWhile_run dropWhile_run not_head_dropWhile mem_takeWhile)

/-- A nonempty word with no separator and no mark in it. -/
def IsPlainWord (t : String) : Prop := t ≠ "" ∧ ∀ c ∈ t.toList, isPlain c = true

/-- A mark and a run of letters, digits and URL signs that make a keyword or a web address. -/
def IsSpecialWord (t : String) : Prop :=
  ∃ run, t.toList = specialMark :: run ∧ (∀ c ∈ run, continuesSpecial c = true) ∧
    ((Keyword.ofWord? t).isSome = true ∨ urlStart <+: run)

instance : DecidablePred IsPlainWord := fun t =>
  decidable_of_iff (t ≠ "" ∧ t.toList.all isPlain = true) (by rw [IsPlainWord, List.all_eq_true])

instance : DecidablePred IsSpecialWord := fun t =>
  decidable_of_iff
    (t.toList.head? = some specialMark ∧ t.toList.tail.all continuesSpecial = true ∧
      ((Keyword.ofWord? t).isSome = true ∨ urlStart <+: t.toList.tail)) (by
    rw [List.all_eq_true]
    constructor
    · rintro ⟨hm, hr, hv⟩
      obtain ⟨run, ht⟩ := List.head?_eq_some_iff.mp hm
      rw [ht, List.tail_cons] at hr hv
      exact ⟨run, ht, hr, hv⟩
    · rintro ⟨run, ht, hr, hv⟩
      rw [ht]
      exact ⟨rfl, hr, hv⟩)

def IsWord (t : String) : Prop := IsPlainWord t ∨ IsSpecialWord t

/-- Only separators. -/
def IsGap (w : List Char) : Prop := ∀ c ∈ w, isSeparator c = true

instance : DecidablePred IsGap := fun w =>
  decidable_of_iff (w.all isSeparator = true) (by rw [IsGap, List.all_eq_true])

/-- A word may follow another one with no gap between them. -/
def MayTouch (a b : String) : Prop :=
  b.toList.head? = some specialMark ∨
    (IsSpecialWord a ∧ ∀ c, b.toList.head? = some c → continuesSpecial c = false)

/-- The words lie in this order in a text, after the word given if there is one. -/
inductive LaidOut : Option String → List String → List Char → Prop
  | gap {before : Option String} {w : List Char} : IsGap w → LaidOut before [] w
  | word {before : Option String} {t : String} {ts : List String} {w rest : List Char} :
      IsGap w → IsWord t → (∀ a, before = some a → w = [] → MayTouch a t) →
      LaidOut (some t) ts rest → LaidOut before (t :: ts) (w ++ (t.toList ++ rest))

/-- The special words of a text, valid or not: every mark with the longest run after it. -/
def specialRuns : List Char → List String
  | [] => []
  | c :: cs =>
    if c = specialMark then String.ofList (c :: cs.takeWhile continuesSpecial) :: specialRuns cs
    else specialRuns cs

/-- The leftmost special word of a text that is not valid. -/
def IsFirstInvalid (t : String) (s : List Char) : Prop :=
  ∃ before after, specialRuns s = before ++ t :: after ∧ (∀ r ∈ before, IsSpecialWord r) ∧
    ¬ IsSpecialWord t

/-- Nothing after a word is taken for a part of it. -/
def Stops (t : String) (rest : List Char) : Prop :=
  ∀ c, rest.head? = some c → isPlain c = false ∨ (IsSpecialWord t ∧ continuesSpecial c = false)

/-! ### Characters -/

theorem isPlain_iff {c : Char} : isPlain c = true ↔ isSeparator c = false ∧ c ≠ specialMark := by
  simp [isPlain]

theorem continuesSpecial_mark : continuesSpecial specialMark = false := by decide

theorem continuesSpecial_of_separator {c : Char} (h : isSeparator c = true) :
    continuesSpecial c = false := by
  simp only [isSeparator, Bool.or_eq_true, beq_iff_eq] at h
  rcases h with ((rfl | rfl) | rfl) | rfl <;> decide

theorem separator_ne_mark {c : Char} (h : isSeparator c = true) : c ≠ specialMark := by
  rintro rfl
  revert h
  decide

theorem isSpecialWord_ofList {run : List Char} (hr : ∀ c ∈ run, continuesSpecial c = true) :
    IsSpecialWord (String.ofList (specialMark :: run)) ↔
      isValidSpecial (String.ofList (specialMark :: run)) = true := by
  have hu : urlStart.isPrefixOf (specialMark :: run) = false := by
    simp [urlStart, specialMark, List.isPrefixOf]
  simp only [isValidSpecial, String.toList_ofList, hu, Bool.or_false, List.tail_cons,
    Bool.or_eq_true, List.isPrefixOf_iff_prefix]
  constructor
  · rintro ⟨run', he, -, h⟩
    rw [String.toList_ofList] at he
    cases he
    exact h
  · intro h
    exact ⟨run, by rw [String.toList_ofList], hr, h⟩

theorem isSeparator_of_continues {c : Char} (h : continuesSpecial c = true) :
    isSeparator c = false := by
  cases hs : isSeparator c with
  | false => rfl
  | true =>
    rw [continuesSpecial_of_separator hs] at h
    cases h

theorem continuesSpecial_of_not_plain {c : Char} (h : isPlain c = false) :
    continuesSpecial c = false := by
  by_cases hs : isSeparator c = true
  · exact continuesSpecial_of_separator hs
  · by_cases hc : c = specialMark
    · rw [hc, continuesSpecial_mark]
    · rw [isPlain_iff.mpr ⟨by simpa using hs, hc⟩] at h
      cases h

/-! ### Words -/

theorem IsSpecialWord.not_plain {t : String} (h : IsSpecialWord t) : ¬ IsPlainWord t := by
  obtain ⟨run, ht, -, -⟩ := h
  rintro ⟨-, hp⟩
  have hm : isPlain specialMark = true := hp specialMark (by rw [ht]; exact List.mem_cons_self)
  revert hm
  decide

theorem IsWord.toList_ne_nil {t : String} (h : IsWord t) : t.toList ≠ [] := by
  rcases h with ⟨hne, -⟩ | ⟨run, ht, -, -⟩
  · intro he
    exact hne (by rw [← String.ofList_toList (s := t), he])
  · rw [ht]
    exact List.cons_ne_nil _ _

theorem IsWord.not_separator {t : String} (h : IsWord t) {c : Char} (hc : c ∈ t.toList) :
    isSeparator c = false := by
  rcases h with ⟨-, hp⟩ | ⟨run, ht, hr, -⟩
  · exact (isPlain_iff.mp (hp c hc)).1
  · rw [ht] at hc
    rcases List.mem_cons.mp hc with rfl | hm
    · decide
    · exact isSeparator_of_continues (hr c hm)

theorem isPlainWord_ofList {c : Char} {cs : List Char} (hc : isPlain c = true) :
    IsPlainWord (String.ofList (c :: cs.takeWhile isPlain)) := by
  constructor
  · intro he
    have := congrArg String.toList he
    rw [String.toList_ofList] at this
    cases this
  · intro d hd
    rw [String.toList_ofList] at hd
    rcases List.mem_cons.mp hd with rfl | hm
    · exact hc
    · exact mem_takeWhile hm

/-! ### Reading one word -/

theorem scan_gap {w : List Char} (hw : IsGap w) (cs : List Char) : scan (w ++ cs) = scan cs := by
  induction w with
  | nil => rfl
  | cons c w ih =>
    have hc : isSeparator c = true := hw c List.mem_cons_self
    rw [List.cons_append, scan, if_pos hc]
    exact ih fun d hd => hw d (List.mem_cons_of_mem c hd)

theorem scan_word {t : String} {rest : List Char} (ht : IsWord t) (hs : Stops t rest) :
    scan (t.toList ++ rest) = (scan rest).after [t] := by
  rcases ht with hp | hsp
  · obtain ⟨c, cs, htc⟩ := List.exists_cons_of_ne_nil (IsWord.toList_ne_nil (Or.inl hp))
    have hall : ∀ d ∈ c :: cs, isPlain d = true := htc ▸ hp.2
    have hc := isPlain_iff.mp (hall c List.mem_cons_self)
    have hr : ∀ d ∈ cs, isPlain d = true := fun d hd => hall d (List.mem_cons_of_mem c hd)
    have hstop : ∀ d, rest.head? = some d → isPlain d = false := by
      intro d hd
      rcases hs d hd with h | ⟨hsp, -⟩
      · exact h
      · exact absurd hp hsp.not_plain
    rw [htc, List.cons_append, scan, if_neg (by simp [hc.1]), if_neg hc.2, takeWhile_run hr hstop,
      dropWhile_run hr hstop, ← htc, String.ofList_toList]
  · obtain ⟨run, htr, hr, -⟩ := id hsp
    have hstop : ∀ d, rest.head? = some d → continuesSpecial d = false := by
      intro d hd
      rcases hs d hd with h | ⟨-, h⟩
      · exact continuesSpecial_of_not_plain h
      · exact h
    have hof : String.ofList (specialMark :: run) = t := by rw [← htr, String.ofList_toList]
    have hv : isValidSpecial t = true := by
      rw [← hof, ← isSpecialWord_ofList hr, hof]
      exact hsp
    rw [htr, List.cons_append, scan, if_neg (by decide), if_pos rfl]
    simp only [takeWhile_run hr hstop, dropWhile_run hr hstop, hof, hv, if_true]

/-! ### Reading a whole text -/

/-- What follows a word in a layout does not belong to it. -/
theorem LaidOut.stops {t : String} {ts : List String} {s : List Char}
    (h : LaidOut (some t) ts s) : Stops t s := by
  have gap {w : List Char} (hw : IsGap w) {c : Char} (hc : w.head? = some c) :
      isPlain c = false := by
    have hm : isSeparator c = true := hw c (List.mem_of_head? hc)
    simp [isPlain, hm]
  cases h with
  | gap hw => exact fun c hc => Or.inl (gap hw hc)
  | @word _ b _ w rest hw hb ht _ =>
    intro c hc
    cases w with
    | cons d w => exact Or.inl (gap hw hc)
    | nil =>
      have hbc : b.toList.head? = some c := by
        obtain ⟨d, ds, hd⟩ := List.exists_cons_of_ne_nil hb.toList_ne_nil
        rw [hd] at hc ⊢
        exact hc
      rcases ht t rfl rfl with hm | ⟨hsp, hn⟩
      · rw [hm] at hbc
        cases hbc
        exact Or.inl (by decide)
      · exact Or.inr ⟨hsp, hn c hbc⟩

theorem LaidOut.scan_eq {before : Option String} {ts : List String} {s : List Char}
    (h : LaidOut before ts s) : (scan s).invalid = none ∧ (scan s).tokens = ts := by
  induction h with
  | @gap _ w hw =>
    have := scan_gap hw []
    rw [List.append_nil] at this
    rw [this, scan]
    exact ⟨rfl, rfl⟩
  | @word _ t ts w rest hw ht _ hr ih =>
    obtain ⟨hi, htk⟩ := ih
    rw [scan_gap hw, scan_word ht hr.stops]
    exact ⟨hi, by rw [← htk]; rfl⟩

/-- A separator before a layout makes the gap at its start one longer. -/
theorem LaidOut.cons_separator {before : Option String} {ts : List String} {s : List Char}
    {c : Char} (hc : isSeparator c = true) (h : LaidOut none ts s) : LaidOut before ts (c :: s) := by
  have gap {w : List Char} (hw : IsGap w) : IsGap (c :: w) := by
    intro d hd
    rcases List.mem_cons.mp hd with rfl | hm
    · exact hc
    · exact hw d hm
  cases h with
  | gap hw => exact .gap (gap hw)
  | @word _ t ts w rest hw ht _ hr =>
    exact .word (w := c :: w) (gap hw) ht (fun _ _ he => nomatch he) hr

/-- A text that is read to its end is laid out in the words read. -/
theorem laidOut_scan {s : List Char} (hs : (scan s).invalid = none) {before : Option String}
    (hb : ∀ a, before = some a → Stops a s) : LaidOut before (scan s).tokens s := by
  -- after a separator the word before is forgotten; a word is what stands before its rest
  fun_induction scan s generalizing before with
  | case1 => exact .gap fun c hc => nomatch hc
  | case2 c cs hc ih => exact .cons_separator hc (ih hs fun a ha => nomatch ha)
  | case3 cs rest hc word hv =>
    rename_i ih
    have hr : ∀ c ∈ cs.takeWhile continuesSpecial, continuesSpecial c = true :=
      fun c h => mem_takeWhile h
    have hsp : IsSpecialWord word := (isSpecialWord_ofList hr).mpr hv
    have hrest : LaidOut (some word) (scan rest).tokens rest := by
      refine ih hs ?_
      rintro a ⟨⟩ c hcr
      exact Or.inr ⟨hsp, not_head_dropWhile hcr⟩
    have hcs : specialMark :: cs = [] ++ (word.toList ++ rest) := by
      rw [String.toList_ofList, List.nil_append, List.cons_append, List.takeWhile_append_dropWhile]
    rw [hcs]
    refine .word (fun c h => nomatch h) (Or.inr hsp) (fun a _ _ => Or.inl ?_) hrest
    rw [String.toList_ofList]
    rfl
  | case4 => cases hs
  | case5 c cs hc hm ih =>
    have hp : isPlain c = true := isPlain_iff.mpr ⟨by simpa using hc, hm⟩
    have hw : IsPlainWord (String.ofList (c :: cs.takeWhile isPlain)) := isPlainWord_ofList hp
    have hrest : LaidOut (some (String.ofList (c :: cs.takeWhile isPlain)))
        (scan (cs.dropWhile isPlain)).tokens (cs.dropWhile isPlain) := by
      refine ih hs ?_
      rintro a ⟨⟩ d hd
      exact Or.inl (not_head_dropWhile hd)
    have hcs : c :: cs =
        [] ++ ((String.ofList (c :: cs.takeWhile isPlain)).toList ++ cs.dropWhile isPlain) := by
      rw [String.toList_ofList, List.nil_append, List.cons_append, List.takeWhile_append_dropWhile]
    rw [hcs]
    refine .word (fun d h => nomatch h) (Or.inl hw) (fun a ha _ => Or.inr ?_) hrest
    rcases hb a ha c rfl with hn | ⟨hsp, hn⟩
    · rw [hp] at hn
      cases hn
    · refine ⟨hsp, fun d hd => ?_⟩
      rw [String.toList_ofList] at hd
      cases hd
      exact hn

/-- Reading finds exactly the words that a text is laid out in. -/
theorem tokenize_ok_iff {s : String} {T : List String} :
    tokenize s = .ok T ↔ LaidOut none T s.toList := by
  rw [tokenize]
  constructor
  · intro h
    split at h
    · cases h
    · rename_i hs
      cases h
      exact laidOut_scan hs fun a ha => nomatch ha
  · intro h
    obtain ⟨hi, ht⟩ := h.scan_eq
    simp only [hi, ht]

/-! ### The first word that is not valid -/

theorem specialRuns_dropWhile {p : Char → Bool} (hp : p specialMark = false) (cs : List Char) :
    specialRuns (cs.dropWhile p) = specialRuns cs := by
  induction cs with
  | nil => rfl
  | cons c cs ih =>
    rw [List.dropWhile_cons]
    by_cases hc : p c = true
    · have hm : c ≠ specialMark := by
        rintro rfl
        rw [hp] at hc
        cases hc
      rw [if_pos hc, ih, specialRuns, if_neg hm]
    · rw [if_neg hc]

theorem isSpecialWord_of_mem {r : String} {cs : List Char} (h : r ∈ specialRuns cs) :
    IsSpecialWord r ↔ isValidSpecial r = true := by
  induction cs with
  | nil => cases h
  | cons c cs ih =>
    rw [specialRuns] at h
    split at h
    · rename_i hc
      rcases List.mem_cons.mp h with rfl | hm
      · rw [hc]
        exact isSpecialWord_ofList fun d hd => mem_takeWhile hd
      · exact ih hm
    · exact ih h

/-- Reading stops at the first special word that is not valid. -/
theorem scan_invalid (s : List Char) :
    (scan s).invalid = (specialRuns s).find? (fun r => !isValidSpecial r) := by
  fun_induction scan s with
  | case1 => rfl
  | case2 c cs hc ih => rw [ih, specialRuns, if_neg (separator_ne_mark hc)]
  | case3 cs rest hc word hv =>
    rename_i ih
    have hn : ¬ (!isValidSpecial word) = true := by rw [hv]; decide
    rw [specialRuns, if_pos rfl, List.find?_cons_of_neg (p := fun r => !isValidSpecial r) hn]
    rw [specialRuns_dropWhile continuesSpecial_mark] at ih
    exact ih
  | case4 cs rest hc word =>
    rename_i hv
    have hn : (!isValidSpecial word) = true := by rw [Bool.eq_false_iff.mpr hv]; rfl
    rw [specialRuns, if_pos rfl, List.find?_cons_of_pos (p := fun r => !isValidSpecial r) hn]
  | case5 c cs hc hm ih =>
    rw [specialRuns, if_neg hm]
    rw [specialRuns_dropWhile (by decide)] at ih
    exact ih

theorem tokenize_error_iff {s t : String} :
    tokenize s = .error t ↔ IsFirstInvalid t s.toList := by
  have hscan : tokenize s = .error t ↔ (scan s.toList).invalid = some t := by
    rw [tokenize]
    constructor
    · intro h
      split at h
      · rename_i hs
        cases h
        exact hs
      · cases h
    · intro h
      simp only [h]
  have valid {r : String} (hr : r ∈ specialRuns s.toList) :
      IsSpecialWord r ↔ isValidSpecial r = true := isSpecialWord_of_mem hr
  rw [hscan, scan_invalid, List.find?_eq_some_iff_append]
  constructor
  · rintro ⟨ht, before, after, hs, hb⟩
    refine ⟨before, after, hs, fun r hr => ?_, fun h => ?_⟩
    · exact (valid (by rw [hs]; exact List.mem_append_left _ hr)).mpr (by simpa using hb r hr)
    · rw [(valid (by rw [hs]; simp)).mp h] at ht
      cases ht
  · rintro ⟨before, after, hs, hb, ht⟩
    refine ⟨?_, before, after, hs, fun r hr => ?_⟩
    · rw [valid (by rw [hs]; simp)] at ht
      simpa using ht
    · have := (valid (by rw [hs]; exact List.mem_append_left _ hr)).mp (hb r hr)
      simp [this]

/-! ### What a layout says about its text -/

theorem LaidOut.isWord {before : Option String} {T : List String} {s : List Char}
    (h : LaidOut before T s) : ∀ t ∈ T, IsWord t := by
  induction h with
  | gap _ => exact fun t ht => nomatch ht
  | word _ hb _ _ ih =>
    intro t ht
    rcases List.mem_cons.mp ht with rfl | hm
    · exact hb
    · exact ih t hm

theorem LaidOut.flatMap_eq {before : Option String} {T : List String} {s : List Char}
    (h : LaidOut before T s) : T.flatMap String.toList = s.filter (!isSeparator ·) := by
  have gap {w : List Char} (hw : IsGap w) : w.filter (!isSeparator ·) = [] := by
    rw [List.filter_eq_nil_iff]
    intro c hc
    simp [hw c hc]
  induction h with
  | gap hw => rw [gap hw, List.flatMap_nil]
  | @word _ t ts w rest hw ht _ _ ih =>
    have hall : t.toList.filter (!isSeparator ·) = t.toList := by
      rw [List.filter_eq_self]
      intro c hc
      simp [ht.not_separator hc]
    rw [List.flatMap_cons, ih, List.filter_append, List.filter_append, gap hw, hall,
      List.nil_append]

theorem laidOut_spaced {T : List String} (h : ∀ t ∈ T, IsWord t) (before : Option String) :
    LaidOut before T (T.flatMap fun t => ' ' :: t.toList) := by
  induction T generalizing before with
  | nil => exact .gap fun c hc => nomatch hc
  | cons t T ih =>
    have hg : IsGap [' '] := by
      intro c hc
      rw [List.mem_singleton.mp hc]
      rfl
    exact .word hg (h t List.mem_cons_self) (fun _ _ he => nomatch he)
      (ih (fun u hu => h u (List.mem_cons_of_mem t hu)) (some t))

theorem toList_intercalate_space (t : String) (T : List String) :
    (" ".intercalate (t :: T)).toList = t.toList ++ T.flatMap fun u => ' ' :: u.toList := by
  induction T generalizing t with
  | nil => simp
  | cons u T ih =>
    rw [String.intercalate_cons_cons, String.toList_append, String.toList_append, ih u]
    simp

theorem laidOut_intercalate {T : List String} (h : ∀ t ∈ T, IsWord t) :
    LaidOut none T (" ".intercalate T).toList := by
  cases T with
  | nil =>
    rw [String.intercalate_nil]
    exact .gap fun c hc => nomatch hc
  | cons t T =>
    rw [toList_intercalate_space, ← List.nil_append (_ ++ _)]
    exact .word (fun c hc => nomatch hc) (h t List.mem_cons_self) (fun _ hb => nomatch hb)
      (laidOut_spaced (fun u hu => h u (List.mem_cons_of_mem t hu)) (some t))

theorem laidOut_nil_iff {before : Option String} {s : List Char} :
    LaidOut before [] s ↔ IsGap s := by
  constructor
  · intro h
    cases h with
    | gap hw => exact hw
  · exact .gap

/-- A source without words, and only such a one, is refused for it. -/
theorem compile_noTokens_iff {lists : Bool} {s : String} :
    (compile lists s).outcome = .error (.input .noTokens) ↔ tokenize s = .ok [] := by
  rw [compile]
  constructor
  · intro h
    split at h
    · cases h
    · assumption
    · simp only at h
      split at h <;> cases h
  · intro h
    rw [h]

theorem compile_lexical_iff {lists : Bool} {s t : String} :
    (compile lists s).outcome = .error (.lexical t) ↔ tokenize s = .error t := by
  rw [compile]
  constructor
  · intro h
    split at h
    · rename_i hs
      cases h
      exact hs
    · cases h
    · simp only at h
      split at h <;> cases h
  · intro h
    rw [h]

/-- Reading accepts exactly the texts laid out in words and loses nothing of them but the
separators; spaced out again, the words are read again. Only separators come to no words at all.
A text with no layout is refused for its leftmost special word that is not valid. -/
theorem tokenize_exact (s : String) :
    (∀ T, tokenize s = .ok T ↔ LaidOut none T s.toList) ∧
      (∀ T, tokenize s = .ok T →
        String.join T = String.ofList (s.toList.filter (!isSeparator ·)) ∧
          tokenize (" ".intercalate T) = .ok T) ∧
      (tokenize s = .ok [] ↔ IsGap s.toList) ∧
      (∀ lists, (compile lists s).outcome = .error (.input .noTokens) ↔ IsGap s.toList) ∧
      (∀ t, tokenize s = .error t ↔ IsFirstInvalid t s.toList) ∧
      ((¬ ∃ T, LaidOut none T s.toList) → ∃ t, IsFirstInvalid t s.toList ∧
        tokenize s = .error t ∧
          ∀ lists, (compile lists s).outcome = .error (.lexical t)) := by
  have hgap : tokenize s = .ok [] ↔ IsGap s.toList := by rw [tokenize_ok_iff, laidOut_nil_iff]
  refine ⟨fun T => tokenize_ok_iff, fun T hT => ⟨?_, ?_⟩, hgap,
    fun lists => by rw [compile_noTokens_iff, hgap], fun t => tokenize_error_iff, fun hn => ?_⟩
  · have hl : LaidOut none T s.toList := tokenize_ok_iff.mp hT
    rw [← hl.flatMap_eq, ← String.toList_join, String.ofList_toList]
  · exact tokenize_ok_iff.mpr (laidOut_intercalate (tokenize_ok_iff.mp hT).isWord)
  · cases ht : tokenize s with
    | ok T => exact absurd ⟨T, tokenize_ok_iff.mp ht⟩ hn
    | error t =>
      exact ⟨t, tokenize_error_iff.mp ht, rfl, fun lists => compile_lexical_iff.mpr ht⟩

/-- A keyword and the text that touches it are two words; a run that is no keyword has no
layout. -/
theorem tokenize_exact_touching :
    tokenize "#hai!a\t#mkay" = .ok ["#hai", "!a", "#mkay"] ∧
      (¬ ∃ T, LaidOut none T "a#nope #HAI#".toList) ∧
      ∃ t, IsFirstInvalid t "a#nope #HAI#".toList ∧ tokenize "a#nope #HAI#" = .error t ∧
        ∀ lists, (compile lists "a#nope #HAI#").outcome = .error (.lexical t) := by
  have hl : LaidOut none ["#hai", "!a", "#mkay"] "#hai!a\t#mkay".toList :=
    .word (w := []) (nofun) (Or.inr (by decide)) (nofun)
      (.word (w := []) (nofun) (Or.inl (by decide))
        (fun a ha _ => Or.inr (by cases ha; exact ⟨by decide, by rintro c ⟨⟩; decide⟩))
        (.word (w := ['\t']) (by decide) (Or.inr (by decide)) (nofun) (.gap (nofun))))
  have hi : IsFirstInvalid "#nope" "a#nope #HAI#".toList :=
    ⟨[], ["#HAI", "#"], by decide, nofun, by decide⟩
  obtain ⟨hok, -, -, -, herr, hnone⟩ := tokenize_exact "a#nope #HAI#"
  have hn : ¬ ∃ T, LaidOut none T "a#nope #HAI#".toList := by
    rintro ⟨T, hT⟩
    have hT : tokenize "a#nope #HAI#" = .ok T := (hok T).mpr hT
    rw [(herr "#nope").mpr hi] at hT
    cases hT
  exact ⟨((tokenize_exact "#hai!a\t#mkay").1 _).mpr hl, hn, hnone hn⟩

end Shoutmark.Token
