import Shoutmark.Proofs.Highlight.Runs
import Shoutmark.Proofs.Highlight.Spelling

/-! How a text is coloured. Its pieces are its runs; a comment goes from the word that opens it up
to the first word that closes it, and outside comments a run is coloured by itself. -/

namespace Shoutmark.Highlight
open Shoutmark.Text

def Opens (g : List Char) : Prop := upper (String.ofList g) = "#OBTW"

def Closes (g : List Char) : Prop := upper (String.ofList g) = "#TLDR"

/-- The colours of the runs of a text, from outside a comment on. Within a comment nothing but the
word that closes it counts. -/
inductive Coloured : List (List Char) → List Kind → Prop
  | nil : Coloured [] []
  | blanks {g : List Char} {gs : List (List Char)} {ks : List Kind} :
      (∀ c ∈ g, isBlank c = true) → Coloured gs ks → Coloured (g :: gs) (.blank :: ks)
  | word {g : List Char} {gs : List (List Char)} {ks : List Kind} {r : Rule} :
      (∀ c ∈ g, isBlank c = false) → ¬ Opens g → ruleFor .page g = some r → Coloured gs ks →
      Coloured (g :: gs) (r.kind :: ks)
  | comment {g t : List Char} {inside gs : List (List Char)} {ks : List Kind} :
      Opens g → (∀ h ∈ inside, ¬ Closes h) → Closes t → Coloured gs ks →
      Coloured (g :: (inside ++ t :: gs)) (List.replicate (inside.length + 2) .comment ++ ks)
  | unclosed {g : List Char} {inside : List (List Char)} :
      Opens g → (∀ h ∈ inside, ¬ Closes h) →
      Coloured (g :: inside) (List.replicate (inside.length + 1) .comment)

/-- The colours of the runs of a text, from inside a comment on. -/
inductive ColouredInside : List (List Char) → List Kind → Prop
  | unclosed {inside : List (List Char)} : (∀ h ∈ inside, ¬ Closes h) →
      ColouredInside inside (List.replicate inside.length .comment)
  | closed {t : List Char} {inside gs : List (List Char)} {ks : List Kind} :
      (∀ h ∈ inside, ¬ Closes h) → Closes t → Coloured gs ks →
      ColouredInside (inside ++ t :: gs) (List.replicate (inside.length + 1) .comment ++ ks)

theorem Coloured.opening {g : List Char} {gs : List (List Char)} {ks : List Kind} (hg : Opens g)
    (h : ColouredInside gs ks) : Coloured (g :: gs) (.comment :: ks) := by
  cases h with
  | unclosed hin => exact .unclosed hg hin
  | closed hin ht hks => exact .comment hg hin ht hks

theorem ColouredInside.cons {g : List Char} {gs : List (List Char)} {ks : List Kind}
    (hg : ¬ Closes g) (h : ColouredInside gs ks) : ColouredInside (g :: gs) (.comment :: ks) := by
  have hall {inside : List (List Char)} (hin : ∀ h ∈ inside, ¬ Closes h) :
      ∀ h ∈ g :: inside, ¬ Closes h := List.forall_mem_cons.mpr ⟨hg, hin⟩
  cases h with
  | unclosed hin => exact .unclosed (hall hin)
  | closed hin ht hks => exact .closed (hall hin) ht hks

theorem ColouredInside.closing {g : List Char} {gs : List (List Char)} {ks : List Kind}
    (hg : Closes g) (h : Coloured gs ks) : ColouredInside (g :: gs) (.comment :: ks) := by
  have hnone : ∀ h ∈ ([] : List (List Char)), ¬ Closes h := nofun
  exact .closed hnone hg h

/-! ### The rule for a run -/

variable {blank : Bool} {g rest : List Char} {r : Rule}

theorem opens_iff : Opens g ↔ wholeWord .obtw g = some g.length := by
  rw [wholeWord_eq_length_iff, ofWord?_readAs_iff (by decide), Keyword.ofWord?_eq_some_iff]
  rfl

theorem closes_iff : Closes g ↔ wholeWord .tldr g = some g.length := by
  rw [wholeWord_eq_length_iff, ofWord?_readAs_iff (by decide), Keyword.ofWord?_eq_some_iff]
  rfl

theorem blanks_of_word (h : IsRun false g rest) : blanks g = none := by
  obtain ⟨c, cs, rfl⟩ := List.exists_cons_of_ne_nil h.ne_nil
  simp [blanks, run, h.uniform c List.mem_cons_self]

theorem ruleFor_blanks (h : IsRun true g rest) :
    ruleFor .page g = some ⟨blanks, .blank, .stay⟩ := by
  have hb : blanks g = some g.length := Pattern.run_eq_length h.uniform h.ne_nil
  simp [ruleFor, rules, hb]

theorem ruleFor_opening (h : IsRun false g rest) (hg : Opens g) :
    ruleFor .page g = some ⟨wholeWord .obtw, .comment, .enter .comment⟩ := by
  simp [ruleFor, rules, blanks_of_word h, opens_iff.mp hg]

/-- Outside a comment all words but the one that opens a comment leave the modes as they are. -/
theorem move_of_word (hg : ¬ Opens g) (hr : ruleFor .page g = some r) : r.move = .stay := by
  obtain ⟨hm, hp⟩ := ruleFor_some hr
  simp only [rules, List.mem_cons, List.not_mem_nil, or_false] at hm
  rcases hm with rfl | rfl | rfl | rfl | rfl | rfl | rfl | rfl | rfl | rfl
  case inr.inl => exact absurd (opens_iff.mpr hp) hg
  all_goals rfl

theorem ruleFor_closing (hg : Closes g) :
    ruleFor .comment g = some ⟨wholeWord .tldr, .comment, .leave⟩ := by
  simp [ruleFor, rules, closes_iff.mp hg]

/-- Inside a comment all is comment, and only the word that closes it ends it. -/
theorem rule_inside (hg : ¬ Closes g) (hr : ruleFor .comment g = some r) :
    r.kind = .comment ∧ r.move = .stay := by
  obtain ⟨hm, hp⟩ := ruleFor_some hr
  simp only [rules, List.mem_cons, List.not_mem_nil, or_false] at hm
  rcases hm with rfl | rfl | rfl
  · exact absurd (closes_iff.mpr hp) hg
  · exact ⟨rfl, rfl⟩
  · exact ⟨rfl, rfl⟩

/-! ### The open modes -/

/-- The modes that can be open: the page's, and a comment's within it. -/
def AreOpen (modes : List Mode) : Prop := modes = [.page] ∨ modes = [.comment, .page]

theorem areOpen_apply {modes : List Mode} (h : AreOpen modes)
    (hr : r ∈ rules (modes.headD .page)) : AreOpen (r.move.apply modes) := by
  rcases h with rfl | rfl
  · have hmove : r.move = .stay ∨ r.move = .enter .comment := by
      simp only [rules, List.headD_cons, List.mem_cons, List.not_mem_nil, or_false] at hr
      rcases hr with rfl | rfl | rfl | rfl | rfl | rfl | rfl | rfl | rfl | rfl
      case inr.inl => exact Or.inr rfl
      all_goals exact Or.inl rfl
    rcases hmove with hm | hm <;> rw [hm]
    · exact Or.inl rfl
    · exact Or.inr rfl
  · have hmove : r.move = .leave ∨ r.move = .stay := by
      simp only [rules, List.headD_cons, List.mem_cons, List.not_mem_nil, or_false] at hr
      rcases hr with rfl | rfl | rfl
      · exact Or.inl rfl
      · exact Or.inr rfl
      · exact Or.inr rfl
    rcases hmove with hm | hm <;> rw [hm]
    · exact Or.inl rfl
    · exact Or.inr rfl

theorem areOpen_next {s s' : Scan} {p : Piece} (h : AreOpen s.modes) (hn : s.next = some (p, s')) :
    AreOpen s'.modes := by
  obtain ⟨modes, start, s⟩ := s
  by_cases hs : s = []
  · subst hs
    cases hn
  · obtain ⟨blank, g, rest, hg, rfl⟩ := exists_isRun hs
    obtain ⟨r, hr⟩ := exists_ruleFor (modes.headD .page) hg
    rw [next_append modes start hg hr] at hn
    cases hn
    exact areOpen_apply h (ruleFor_some hr).1

theorem areOpen_visits {s t : Scan} {ps : List Piece} (h : AreOpen s.modes)
    (hv : Scan.Visits s ps t) : AreOpen t.modes := by
  induction hv with
  | here => exact h
  | step hn _ ih => exact ih (areOpen_next h hn)

/-! ### Colours -/

/-- From the start of a run on, the kinds of the pieces are the colours of the runs. -/
theorem coloured_kinds (s : List Char) :
    (∀ start, Coloured (runs s) ((Scan.pieces ⟨[.page], start, s⟩).map (·.kind))) ∧
    (∀ start, ColouredInside (runs s)
      ((Scan.pieces ⟨[.comment, .page], start, s⟩).map (·.kind))) := by
  induction s using runs_induction with
  | nil =>
    refine ⟨fun start => ?_, fun start => ?_⟩
    · rw [pieces_nil, runs_nil]
      exact .nil
    · rw [pieces_nil, runs_nil]
      exact .unclosed (by simp)
  | @append blank g rest hg ih =>
    obtain ⟨ihpage, ihcomment⟩ := ih
    rw [runs_append hg]
    constructor
    · intro start
      obtain ⟨r, hr⟩ := exists_ruleFor .page hg
      rw [pieces_append [.page] start hg hr, List.map_cons]
      cases blank with
      | true =>
        rw [ruleFor_blanks hg] at hr
        cases hr
        exact .blanks hg.uniform (ihpage _)
      | false =>
        by_cases ho : Opens g
        · rw [ruleFor_opening hg ho] at hr
          cases hr
          exact .opening ho (ihcomment _)
        · rw [move_of_word ho hr]
          exact .word hg.uniform ho hr (ihpage _)
    · intro start
      obtain ⟨r, hr⟩ := exists_ruleFor .comment hg
      rw [pieces_append [.comment, .page] start hg hr, List.map_cons]
      by_cases hc : Closes g
      · rw [ruleFor_closing hc] at hr
        cases hr
        exact .closing hc (ihpage _)
      · obtain ⟨hk, hm⟩ := rule_inside hc hr
        rw [hk, hm]
        exact .cons hc (ihcomment _)

theorem kind_ne_unmatched {m : Mode} (hr : r ∈ rules m) : r.kind ≠ .unmatched := by
  cases m with
  | page =>
    simp only [rules, List.mem_cons, List.not_mem_nil, or_false] at hr
    rcases hr with rfl | rfl | rfl | rfl | rfl | rfl | rfl | rfl | rfl | rfl <;> rintro ⟨⟩
  | comment =>
    simp only [rules, List.mem_cons, List.not_mem_nil, or_false] at hr
    rcases hr with rfl | rfl | rfl <;> rintro ⟨⟩

theorem join_pieces (s : String) : String.join ((pieces s).map (·.text)) = s := by
  have hruns : (pieces s).map (·.text.toList) = runs s.toList := texts_pieces _ _ _
  rw [← String.toList_inj, String.toList_join, List.flatMap_map, List.flatMap_def, hruns]
  exact List.flatten_splitBy _ _

/-- A source is cut into its runs, one piece each, and nothing is lost. Only the modes of the page
and of a comment on it are ever open, and the pieces are coloured accordingly. -/
theorem pieces_exact (x : String) :
    (∀ before p after, pieces x = before ++ p :: after →
      p.start = (before.map (·.text.length)).sum) ∧
    (pieces x).map (·.text.toList) = runs x.toList ∧
    (∀ p ∈ pieces x, p.kind ≠ .unmatched) ∧
    (∀ before t, Scan.Visits (.ofSource x) before t →
      pieces x = before ++ t.pieces ∧ (t.modes = [.page] ∨ t.modes = [.comment, .page])) ∧
    (∀ before after, pieces x = before ++ after →
      ∃ t, Scan.Visits (.ofSource x) before t ∧ t.pieces = after) ∧
    Coloured (runs x.toList) ((pieces x).map (·.kind)) ∧
    String.join ((pieces (prepare x)).map (·.text)) = prepare x := by
  refine ⟨fun before p after h => ?_, texts_pieces _ _ _, fun p hp => ?_, fun before t hv => ?_,
    fun before after h => Scan.exists_visits h, (coloured_kinds x.toList).1 0, join_pieces _⟩
  · rw [start_pieces h, Nat.zero_add]
  · obtain ⟨m, r, hr, hk⟩ := kind_pieces hp
    rw [hk]
    exact kind_ne_unmatched hr
  · exact ⟨hv.pieces_eq, areOpen_visits (Or.inl rfl) hv⟩

/-- A comment that is opened once more inside, and after it a word. -/
def noted : String := "#hai #obtw \n#OBTW #tldr hai"

/-- The word after the comment starts where the comment and the blank after it end, and within the
comment the comment is open. -/
theorem pieces_exact_noted :
    (∃ before p after, pieces noted = before ++ p :: after ∧ p.text = "hai" ∧ p.start = 24 ∧
      p.kind ≠ .unmatched) ∧
    (∃ before t, Scan.Visits (.ofSource noted) before t ∧ t.rest = " \n#OBTW #tldr hai".toList ∧
      pieces noted = before ++ t.pieces ∧ (t.modes = [.page] ∨ t.modes = [.comment, .page])) := by
  have hpieces : pieces noted =
      [⟨0, .keyword .structural, "#hai"⟩, ⟨4, .blank, " "⟩, ⟨5, .comment, "#obtw"⟩,
        ⟨10, .comment, " \n"⟩, ⟨12, .comment, "#OBTW"⟩, ⟨17, .comment, " "⟩,
        ⟨18, .comment, "#tldr"⟩, ⟨23, .blank, " "⟩] ++ ⟨24, .text, "hai"⟩ :: [] := by cbv
  have hvisits : Scan.Visits (.ofSource noted)
      [⟨0, .keyword .structural, "#hai"⟩, ⟨4, .blank, " "⟩, ⟨5, .comment, "#obtw"⟩]
      ⟨[.comment, .page], 10, " \n#OBTW #tldr hai".toList⟩ :=
    .step rfl (.step rfl (.step rfl (.here _)))
  obtain ⟨hstart, -, hkind, hopen, -⟩ := pieces_exact noted
  refine ⟨⟨_, _, _, hpieces, rfl, hstart _ _ _ hpieces, hkind _ ?_⟩,
    ⟨_, _, hvisits, rfl, hopen _ _ hvisits⟩⟩
  rw [hpieces]
  exact List.mem_append_right _ List.mem_cons_self

end Shoutmark.Highlight
