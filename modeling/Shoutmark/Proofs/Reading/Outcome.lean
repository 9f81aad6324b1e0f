import Shoutmark.Proofs.Reading.Resume

/-! How a program ends, told from its tokens alone. It is finished by one token, refused at one
token, or open when the tokens are used up; in the last case the fault names the empty token. -/

namespace Shoutmark

/-- The token that a fault finds unfit. A variable without a value is no fault of a token. -/
def Fault.token? : Fault → Option String
  | .mismatch _ found => some found
  | .unknownConstruct token => some token
  | .notText token => some token
  | .undefinedVariable _ => none

namespace Cursor

/-- The tokens from the one at hand on are these. -/
def Shows (c : Cursor) (tokens : List String) : Prop :=
  c.token = tokens.headD "" ∧ c.ahead = tokens.tail

def skip (c : Cursor) : Nat → Cursor
  | 0 => c
  | n + 1 => c.advance.skip n

theorem skip_add (c : Cursor) (m n : Nat) : c.skip (m + n) = (c.skip m).skip n := by
  induction m generalizing c with
  | zero => rw [Nat.zero_add, skip]
  | succ m ih => rw [Nat.succ_add, skip, skip, ih]

theorem shows_start (tokens : List String) : (start tokens).Shows tokens :=
  ⟨rfl, by simp [start, ahead]⟩

theorem Shows.token {c : Cursor} {t : String} {u : List String} (h : c.Shows (t :: u)) :
    c.token = t := h.1

theorem Shows.advance {c : Cursor} {t : String} {u : List String} (h : c.Shows (t :: u)) :
    c.advance.Shows u := by
  obtain ⟨_, ha⟩ := h
  rw [List.tail_cons] at ha
  exact ⟨by rw [token_advance, ha], by rw [ahead_advance, ha]⟩

theorem Shows.advance_nil {c : Cursor} (h : c.Shows []) : c.advance.Shows [] := by
  obtain ⟨_, ha⟩ := h
  rw [List.tail_nil] at ha
  exact ⟨by rw [token_advance, ha], by rw [ahead_advance, ha]⟩

theorem Shows.skip {v w : List String} {c : Cursor} (h : c.Shows (v ++ w)) :
    (c.skip v.length).Shows w := by
  induction v generalizing c with
  | nil => exact h
  | cons t v ih => exact ih h.advance

theorem Shows.position_advance {c : Cursor} {t r : String} {u : List String}
    (h : c.Shows (t :: r :: u)) : c.advance.position = c.position + 1 := by
  have ha : c.tokens.toList.drop (c.position + 1) = r :: u := h.2
  have hg : c.tokens[c.position + 1]? = some r := by
    rw [← Array.getElem?_toList, ← List.head?_drop, ha]
    rfl
  rw [Cursor.advance, hg]

theorem Shows.position_skip {v : List String} {c : Cursor} {t : String} {w : List String}
    (h : c.Shows (v ++ t :: w)) : (c.skip v.length).position = c.position + v.length := by
  induction v generalizing c with
  | nil => rfl
  | cons r v ih =>
    have hp : c.advance.position = c.position + 1 := by
      cases v with
      | nil => exact h.position_advance
      | cons s v => exact h.position_advance
    rw [List.length_cons, Cursor.skip, ih h.advance, hp]
    omega

end Cursor

end Shoutmark

namespace Shoutmark.Reading
open Shoutmark.Grammar

def Progress.fresh : Progress := .going .start .blank

variable {lists : Bool}

/-- Reading that has come to an end did so at one of the tokens. -/
theorem feed_stops {q : Place} {s : Sheet} {v : List String} {p : Progress}
    (h : feed lists (.going q s) v = p) (hp : ∀ q' s', p ≠ .going q' s') :
    ∃ u t w q' s', v = u ++ t :: w ∧ feed lists (.going q s) u = .going q' s' ∧
      step lists q' t s' = p := by
  induction v generalizing q s with
  | nil => exact absurd h.symm (hp q s)
  | cons t v ih =>
    rw [feed_going_cons] at h
    cases hs : step lists q t s with
    | going q' s' =>
      rw [hs] at h
      obtain ⟨u, r, w, q'', s'', rfl, hu, hr⟩ := ih h
      exact ⟨t :: u, r, w, q'', s'', rfl, by rw [feed_going_cons, hs, hu], hr⟩
    | finished s' =>
      rw [hs, feed_finished] at h
      exact ⟨[], t, v, q, s, rfl, rfl, hs.trans h⟩
    | refused f s' =>
      rw [hs, feed_refused] at h
      exact ⟨[], t, v, q, s, rfl, rfl, hs.trans h⟩

/-- Going on after some tokens is going on from the place they lead to. -/
theorem resume_feed {v w : List String} {c : Cursor} {q q' : Place} {s s' : Sheet}
    (hc : c.Shows (v ++ w)) (h : feed lists (.going q s) v = .going q' s') :
    resume lists q (s.draft c) = resume lists q' (s'.draft (c.skip v.length)) := by
  induction v generalizing c q s with
  | nil =>
    cases h
    rfl
  | cons t v ih =>
    rw [feed_going_cons] at h
    rw [resume_eq, Draft.cursor_draft, Draft.sheet_draft, hc.token]
    cases hs : step lists q t s with
    | going q₁ s₁ =>
      rw [hs] at h
      exact ih hc.advance h
    | finished s₁ =>
      rw [hs, feed_finished] at h
      cases h
    | refused f s₁ =>
      rw [hs, feed_refused] at h
      cases h

/-- The keyword that is missing where the tokens are used up at a place. After the word that opens
a construct any of several would do. -/
def Place.awaited : Place → Option Keyword
  | .start => some .hai
  | .opening => some .kthxbye
  | .comment _ => some .tldr
  | .headWord => some .head
  | .head => some .oic
  | .titleWord => some .title
  | .titleText _ => some .mkay
  | .forms f => some f.closing
  | .block => some .paragraf
  | .items => some .oic
  | .itemWord => some .item
  | .construct _ => none
  | .styled _ _ _ => some .mkay
  | .address _ _ | .addressEnd _ _ _ => some .mkay
  | .haz _ => some .haz
  | .name _ | .it _ _ => some .it
  | .iz _ _ => some .iz
  | .value _ _ _ => some .mkay
  | .see _ => some .see
  | .usedName _ | .useEnd _ _ => some .mkay

/-- The fault of tokens that are used up at a place. -/
def Place.shortage (q : Place) : Fault :=
  match q.awaited with
  | some k => .mismatch k.spelling ""
  | none => .unknownConstruct ""

theorem token?_shortage (q : Place) : q.shortage.token? = some "" := by
  unfold Place.shortage
  split <;> rfl

/-- A place that does not take any token refuses the empty one. -/
theorem step_end {q : Place} (hq : q.takes = false) (s : Sheet) :
    ∃ s', step lists q "" s = .refused q.shortage s' := by
  cases q with
  | address f m => cases hq
  | name f => cases hq
  | usedName f => cases hq
  | opening => simp [step, stepForms, Place.shortage, Place.awaited, Frame.closing]
  | forms f => simp [step, stepForms, Place.shortage, Place.awaited]
  | construct f => simp [step, stepConstruct, Place.shortage, Place.awaited]
  | _ => simp [step, Place.shortage, Place.awaited]

/-- At the end of the input a place is refused the empty token, or takes it and the next place is
refused it. -/
theorem resume_end {c : Cursor} (hc : c.Shows []) (q : Place) (s : Sheet) :
    ∃ s' c', resume lists q (s.draft c) = .error q.shortage (Sheet.draft c' s') ∧
      c'.token = "" := by
  have once {q : Place} (hq : q.takes = false) (s : Sheet) {c : Cursor} (hc : c.Shows []) :
      ∃ s' c', resume lists q (s.draft c) = .error q.shortage (Sheet.draft c' s') ∧
        c'.token = "" := by
    obtain ⟨s', hs⟩ : ∃ s', step lists q "" s = .refused q.shortage s' := step_end hq s
    have ht : c.token = "" := hc.1
    have hfc : faultCursor q.shortage c = c := by
      unfold Place.shortage
      split <;> rfl
    refine ⟨s', c, ?_, ht⟩
    rw [resume_eq, Draft.cursor_draft, Draft.sheet_draft, ht, hs, proceed, hfc]
  have next {q' : Place} {s' : Sheet} (hs : step lists q c.token s = .going q' s')
      (hq' : q'.takes = false) (he : q'.shortage = q.shortage) : ∃ s' c',
        resume lists q (s.draft c) = .error q.shortage (Sheet.draft c' s') ∧ c'.token = "" := by
    rw [resume_eq, Draft.cursor_draft, Draft.sheet_draft, hs, ← he]
    exact once hq' s' hc.advance_nil
  cases hq : q.takes with
  | false => exact once hq s hc
  | true =>
    cases q with
    | address f m => exact next rfl rfl rfl
    | name f => exact next rfl rfl rfl
    | usedName f => exact next rfl rfl rfl
    | _ => cases hq

/-! ### Whole programs -/

theorem program_start (lists : Bool) (T : List String) :
    program lists (.start T) = resume lists .start (Sheet.blank.draft (Cursor.start T)) := by
  rw [program_eq_resume]
  rfl

theorem program_at {v w : List String} {t : String} {q : Place} {s : Sheet}
    (hv : feed lists .fresh v = .going q s) :
    program lists (.start (v ++ t :: w)) =
      proceed lists ((Cursor.start (v ++ t :: w)).skip v.length) (step lists q t s) := by
  have hc := Cursor.shows_start (v ++ t :: w)
  rw [program_start, resume_feed hc hv, resume_eq, Draft.cursor_draft, Draft.sheet_draft,
    hc.skip.token]

theorem program_finished {T : List String} {s : Sheet} (h : feed lists .fresh T = .finished s) :
    ∃ c, program lists (.start T) = .ok () (s.draft c) := by
  obtain ⟨v, t, w, q, s', rfl, hv, hs⟩ := feed_stops h (by simp)
  exact ⟨_, by rw [program_at hv, hs]; rfl⟩

theorem program_refused {T : List String} {f : Fault} {s : Sheet}
    (h : feed lists .fresh T = .refused f s) :
    ∃ c, program lists (.start T) = .error f (s.draft c) := by
  obtain ⟨v, t, w, q, s', rfl, hv, hs⟩ := feed_stops h (by simp)
  exact ⟨_, by rw [program_at hv, hs]; rfl⟩

theorem program_going {T : List String} {q : Place} {s : Sheet}
    (h : feed lists .fresh T = .going q s) :
    ∃ s' c, program lists (.start T) = .error q.shortage (Sheet.draft c s') ∧ c.token = "" := by
  have hc : (Cursor.start T).Shows (T ++ []) := by
    rw [List.append_nil]
    exact Cursor.shows_start T
  rw [program_start, resume_feed hc h]
  exact resume_end hc.skip q s

theorem feed_of_ok {T : List String} {d : Draft} (h : program lists (.start T) = .ok () d) :
    feed lists .fresh T = .finished d.sheet := by
  cases hf : feed lists .fresh T with
  | finished s =>
    obtain ⟨c, hp⟩ := program_finished hf
    rw [h] at hp
    cases hp
    rfl
  | refused f s =>
    obtain ⟨c, hp⟩ := program_refused hf
    rw [h] at hp
    cases hp
  | going q s =>
    obtain ⟨s', c, hp, -⟩ := program_going hf
    rw [h] at hp
    cases hp

/-- A fault is met at a token, or the tokens are used up and the fault names the empty one. -/
theorem feed_of_error {T : List String} {f : Fault} {d : Draft}
    (h : program lists (.start T) = .error f d) :
    feed lists .fresh T = .refused f d.sheet ∨
      ((∃ q s, feed lists .fresh T = .going q s) ∧ d.cursor.token = "" ∧ f.token? = some "") := by
  cases hf : feed lists .fresh T with
  | finished s =>
    obtain ⟨c, hp⟩ := program_finished hf
    rw [h] at hp
    cases hp
  | refused f' s =>
    obtain ⟨c, hp⟩ := program_refused hf
    rw [h] at hp
    cases hp
    exact Or.inl rfl
  | going q s =>
    obtain ⟨s', c, hp, hc⟩ := program_going hf
    rw [h] at hp
    cases hp
    exact Or.inr ⟨⟨q, s, rfl⟩, hc, token?_shortage q⟩

/-- The fault that a program ends with, if there is one, and what is written by then. -/
def outcomeOf : EStateM.Result Fault Draft Unit → Option Fault × Sheet
  | .ok _ d => (none, d.sheet)
  | .error f d => (some f, d.sheet)

/-- The end that some progress has come to; where reading goes on there is none, and the sheet is
what is written so far. -/
def Progress.outcome : Progress → Option Fault × Sheet
  | .going _ s | .finished s => (none, s)
  | .refused f s => (some f, s)

/-- At the end of the input the empty token is read until it is refused: once, or once more if the
place takes it. -/
theorem resume_used_up {c : Cursor} (hc : c.Shows []) (q : Place) (s : Sheet) :
    outcomeOf (resume lists q (s.draft c)) = (feed lists (.going q s) ["", ""]).outcome := by
  have ht : c.token = "" := hc.1
  rw [resume_eq, Draft.cursor_draft, Draft.sheet_draft, ht, feed_going_cons]
  cases hs : step lists q "" s with
  | finished s' => rfl
  | refused f s' => rfl
  | going q' s' =>
    obtain ⟨-, hq'⟩ := step_empty hs
    obtain ⟨s'', hs'⟩ : ∃ s'', step lists q' "" s' = .refused q'.shortage s'' := step_end hq' s'
    have ht' : c.advance.token = "" := hc.advance_nil.1
    rw [proceed, resume_eq, Draft.cursor_draft, Draft.sheet_draft, ht', feed_going_cons, hs']
    rfl

/-- A program ends as its tokens with two empty ones after them have it. -/
theorem outcomeOf_program (lists : Bool) (T : List String) :
    outcomeOf (program lists (.start T)) = (feed lists .fresh (T ++ ["", ""])).outcome := by
  rw [feed_append]
  cases hf : feed lists .fresh T with
  | finished s =>
    obtain ⟨c, hp⟩ := program_finished hf
    rw [hp]
    rfl
  | refused f s =>
    obtain ⟨c, hp⟩ := program_refused hf
    rw [hp]
    rfl
  | going q s =>
    have hc : (Cursor.start T).Shows (T ++ []) := by
      rw [List.append_nil]
      exact Cursor.shows_start T
    rw [program_start, resume_feed hc hf]
    exact resume_used_up hc.skip q s

theorem outcomeOf_program_append (lists : Bool) (u S : List String) :
    outcomeOf (program lists (.start (u ++ S))) =
      (feed lists (feed lists .fresh u) (S ++ ["", ""])).outcome := by
  rw [outcomeOf_program, List.append_assoc, feed_append]

end Shoutmark.Reading
