import Mathlib
import Shoutmark.Proofs.Highlight.Boundary

/-! The scan of a text, step by step. In each step the first rule that fits takes the next run of
the text as a whole, whatever comes after it, so the pieces are the runs. -/

namespace Shoutmark.Highlight
open Shoutmark.Text

/-- The longest stretches of blanks and of other characters, in order. -/
def runs (s : List Char) : List (List Char) := s.splitBy fun a b => isBlank a == isBlank b

/-- The first rule of a mode that takes the whole of a text. -/
def ruleFor (m : Mode) (g : List Char) : Option Rule :=
  (rules m).find? fun r => r.pattern g == some g.length

/-- Where a scan is: the modes that are open, the place, and the text from there on. -/
structure Scan where
  modes : List Mode
  start : Nat
  rest : List Char

namespace Scan

def pieces (s : Scan) : List Piece := piecesFrom s.modes s.start s.rest

def ofSource (source : String) : Scan := ⟨[.page], 0, source.toList⟩

/-- One step: the next piece, and where the scan is after it. -/
def next (s : Scan) : Option (Piece × Scan) :=
  match s.rest with
  | [] => none
  | c :: cs =>
    match firstFit (rules (s.modes.headD .page)) (c :: cs) with
    | some (n + 1, r) =>
      some (⟨s.start, r.kind, String.ofList ((c :: cs).take (n + 1))⟩,
        ⟨r.move.apply s.modes, s.start + (n + 1), cs.drop n⟩)
    | _ => some (⟨s.start, .unmatched, String.singleton c⟩, ⟨s.modes, s.start + 1, cs⟩)

/-- The scan comes from one place to another with some pieces between them. -/
inductive Visits : Scan → List Piece → Scan → Prop
  | here (s : Scan) : Visits s [] s
  | step {s s' t : Scan} {p : Piece} {ps : List Piece} :
      s.next = some (p, s') → Visits s' ps t → Visits s (p :: ps) t

theorem pieces_of_next_none {s : Scan} (h : s.next = none) : s.pieces = [] := by
  obtain ⟨modes, start, rest⟩ := s
  cases rest with
  | nil => exact piecesFrom.eq_1 modes start
  | cons c cs =>
    simp only [next] at h
    split at h <;> cases h

theorem pieces_of_next {s s' : Scan} {p : Piece} (h : s.next = some (p, s')) :
    s.pieces = p :: s'.pieces := by
  obtain ⟨modes, start, rest⟩ := s
  cases rest with
  | nil => cases h
  | cons c cs =>
    rw [pieces, piecesFrom]
    simp only [next] at h
    cases hfit : firstFit (rules (modes.headD .page)) (c :: cs) with
    | none =>
      rw [hfit] at h
      cases h
      rfl
    | some m =>
      obtain ⟨n, r⟩ := m
      rw [hfit] at h
      cases n with
      | zero =>
        cases h
        rfl
      | succ n =>
        cases h
        rfl

/-- The pieces on the way to a place come first. -/
theorem Visits.pieces_eq {s t : Scan} {ps : List Piece} (h : Visits s ps t) :
    s.pieces = ps ++ t.pieces := by
  induction h with
  | here => rfl
  | step hn _ ih => rw [pieces_of_next hn, ih, List.cons_append]

theorem exists_visits {s : Scan} {before after : List Piece} (h : s.pieces = before ++ after) :
    ∃ t, Visits s before t ∧ t.pieces = after := by
  induction before generalizing s with
  | nil => exact ⟨s, .here s, h⟩
  | cons p before ih =>
    cases hn : s.next with
    | none =>
      rw [pieces_of_next_none hn] at h
      cases h
    | some q =>
      obtain ⟨q, s'⟩ := q
      rw [pieces_of_next hn, List.cons_append, List.cons.injEq] at h
      obtain ⟨rfl, h⟩ := h
      obtain ⟨t, hv, ht⟩ := ih h
      exact ⟨t, .step hn hv, ht⟩

end Scan

/-! ### Runs -/

theorem IsRun.isChain {blank : Bool} {g rest : List Char} (h : IsRun blank g rest) :
    g.IsChain fun a b => (isBlank a == isBlank b) = true := by
  refine List.Pairwise.isChain (List.pairwise_of_forall_mem_list fun a ha b hb => ?_)
  rw [h.uniform a ha, h.uniform b hb, beq_self_eq_true]

theorem runs_nil : runs [] = [] := List.splitBy_nil _

theorem runs_append {blank : Bool} {g rest : List Char} (h : IsRun blank g rest) :
    runs (g ++ rest) = g :: runs rest := by
  have hsep : ∀ a ∈ g.getLast?, ∀ b ∈ rest.head?, (isBlank a == isBlank b) = false := by
    intro a ha b hb
    rw [h.uniform a (List.mem_of_getLast? ha), h.bounded b hb]
    cases blank <;> rfl
  rw [runs, List.splitBy_append hsep, List.splitBy_of_isChain h.ne_nil h.isChain]
  rfl

theorem exists_isRun {s : List Char} (h : s ≠ []) :
    ∃ blank g rest, IsRun blank g rest ∧ s = g ++ rest := by
  obtain ⟨c, cs, rfl⟩ := List.exists_cons_of_ne_nil h
  have hc : (fun d => isBlank d == isBlank c) c = true := beq_self_eq_true _
  refine ⟨isBlank c, (c :: cs).takeWhile fun d => isBlank d == isBlank c,
    (c :: cs).dropWhile fun d => isBlank d == isBlank c, ⟨?_, fun d hd => ?_, fun d hd => ?_⟩,
    List.takeWhile_append_dropWhile.symm⟩
  · rw [List.takeWhile_cons, if_pos hc]
    exact List.cons_ne_nil _ _
  · exact beq_iff_eq.mp (mem_takeWhile hd)
  · have hd : (isBlank d == isBlank c) = false := not_head_dropWhile hd
    exact Bool.eq_not_of_ne (by simpa using hd)

/-! ### One step at the start of a run -/

variable {blank : Bool} {g rest : List Char}

/-- The rule that fits first is the first rule that takes the run at hand. -/
theorem firstFit_append (m : Mode) (h : IsRun blank g rest) :
    firstFit (rules m) (g ++ rest) = (ruleFor m g).map fun r => (g.length, r) := by
  have among : ∀ rs : List Rule, (∀ r ∈ rs, r.pattern.TakesRuns) →
      firstFit rs (g ++ rest) =
        (rs.find? fun r => r.pattern g == some g.length).map fun r => (g.length, r) := by
    intro rs hrs
    induction rs with
    | nil => rfl
    | cons r rs ih =>
      obtain ⟨he, hn⟩ := hrs r List.mem_cons_self h
      have hrest := ih fun q hq => hrs q (List.mem_cons_of_mem r hq)
      rw [firstFit] at hrest
      rw [firstFit, List.findSome?_cons, List.find?_cons, hrest, he]
      cases hp : r.pattern g with
      | none => simp
      | some n => simp [hn n hp]
  exact among (rules m) fun r hr => takesRuns_rules m hr

/-- Some rule takes the run: each mode has one for blanks and one for words. -/
theorem exists_ruleFor (m : Mode) (h : IsRun blank g rest) : ∃ r, ruleFor m g = some r := by
  have hsome : ∃ r ∈ rules m, r.pattern g = some g.length := by
    cases blank with
    | true =>
      have hb : blanks g = some g.length := Pattern.run_eq_length h.uniform h.ne_nil
      cases m with
      | page => exact ⟨⟨blanks, .blank, .stay⟩, by simp [rules], hb⟩
      | comment => exact ⟨⟨blanks, .comment, .stay⟩, by simp [rules], hb⟩
    | false =>
      have hg : ∀ c ∈ g, isWordChar c = true := fun c hc => by rw [isWordChar, h.uniform c hc]; rfl
      have hw : word g = some g.length := Pattern.run_eq_length hg h.ne_nil
      cases m with
      | page => exact ⟨⟨word, .text, .stay⟩, by simp [rules], hw⟩
      | comment => exact ⟨⟨word, .comment, .stay⟩, by simp [rules], hw⟩
  obtain ⟨r, hr, hp⟩ := hsome
  have hfound : (ruleFor m g).isSome = true :=
    List.find?_isSome.mpr ⟨r, hr, beq_iff_eq.mpr hp⟩
  exact Option.isSome_iff_exists.mp hfound

theorem ruleFor_some {m : Mode} {r : Rule} (h : ruleFor m g = some r) :
    r ∈ rules m ∧ r.pattern g = some g.length := by
  rw [ruleFor] at h
  have hp := List.find?_some h
  exact ⟨List.mem_of_find?_eq_some h, beq_iff_eq.mp hp⟩

theorem next_append (modes : List Mode) (start : Nat) {r : Rule} (h : IsRun blank g rest)
    (hr : ruleFor (modes.headD .page) g = some r) :
    Scan.next ⟨modes, start, g ++ rest⟩ =
      some (⟨start, r.kind, String.ofList g⟩,
        ⟨r.move.apply modes, start + g.length, rest⟩) := by
  have hfit := firstFit_append (modes.headD .page) h
  obtain ⟨c, cs, rfl⟩ := List.exists_cons_of_ne_nil h.ne_nil
  have htake : (c :: (cs ++ rest)).take (cs.length + 1) = c :: cs := by simp
  rw [hr, Option.map_some, List.length_cons, List.cons_append] at hfit
  rw [List.cons_append, Scan.next]
  simp only [hfit, htake, List.drop_left, List.length_cons]

theorem pieces_append (modes : List Mode) (start : Nat) {r : Rule} (h : IsRun blank g rest)
    (hr : ruleFor (modes.headD .page) g = some r) :
    Scan.pieces ⟨modes, start, g ++ rest⟩ =
      ⟨start, r.kind, String.ofList g⟩ ::
        Scan.pieces ⟨r.move.apply modes, start + g.length, rest⟩ :=
  Scan.pieces_of_next (next_append modes start h hr)

/-- Texts are built of runs from the end. -/
theorem runs_induction {P : List Char → Prop} (nil : P [])
    (append : ∀ {blank g rest}, IsRun blank g rest → P rest → P (g ++ rest)) (s : List Char) :
    P s := by
  induction hn : s.length using Nat.strongRecOn generalizing s with
  | ind n ih =>
    by_cases hs : s = []
    · exact hs ▸ nil
    · obtain ⟨blank, g, rest, hg, rfl⟩ := exists_isRun hs
      have hlen : rest.length < n := by
        have := List.length_pos_iff.mpr hg.ne_nil
        rw [← hn, List.length_append]
        omega
      exact append hg (ih rest.length hlen rest rfl)

/-! ### The pieces of a text -/

theorem pieces_nil (modes : List Mode) (start : Nat) : Scan.pieces ⟨modes, start, []⟩ = [] :=
  Scan.pieces_of_next_none rfl

/-- The pieces are the runs, whatever modes are open. -/
theorem texts_pieces (modes : List Mode) (start : Nat) (s : List Char) :
    (Scan.pieces ⟨modes, start, s⟩).map (·.text.toList) = runs s := by
  induction s using runs_induction generalizing modes start with
  | nil => rw [pieces_nil, runs_nil, List.map_nil]
  | append hg ih =>
    obtain ⟨r, hr⟩ := exists_ruleFor (modes.headD .page) hg
    rw [pieces_append modes start hg hr, runs_append hg, List.map_cons, ih, String.toList_ofList]

theorem start_pieces {modes : List Mode} {start : Nat} {s : List Char} {before after : List Piece}
    {p : Piece} (h : Scan.pieces ⟨modes, start, s⟩ = before ++ p :: after) :
    p.start = start + (before.map (·.text.length)).sum := by
  induction s using runs_induction generalizing modes start before with
  | nil =>
    rw [pieces_nil] at h
    exact absurd h.symm (List.append_ne_nil_of_right_ne_nil before (List.cons_ne_nil p after))
  | append hg ih =>
    obtain ⟨r, hr⟩ := exists_ruleFor (modes.headD .page) hg
    rw [pieces_append modes start hg hr] at h
    cases before with
    | nil =>
      cases h
      rfl
    | cons q before =>
      obtain ⟨rfl, htail⟩ := List.cons.inj h
      rw [ih htail, List.map_cons, List.sum_cons, String.length_ofList, Nat.add_assoc]

theorem kind_pieces {modes : List Mode} {start : Nat} {s : List Char} {p : Piece}
    (h : p ∈ Scan.pieces ⟨modes, start, s⟩) : ∃ m, ∃ r ∈ rules m, p.kind = r.kind := by
  induction s using runs_induction generalizing modes start with
  | nil =>
    rw [pieces_nil] at h
    cases h
  | append hg ih =>
    obtain ⟨r, hr⟩ := exists_ruleFor (modes.headD .page) hg
    rw [pieces_append modes start hg hr] at h
    rcases List.mem_cons.mp h with rfl | hp
    · exact ⟨_, r, (ruleFor_some hr).1, rfl⟩
    · exact ih hp

end Shoutmark.Highlight
