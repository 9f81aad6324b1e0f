import Shoutmark.Proofs.Highlight.Colours

/-! Which words are coloured as keywords. They are the words that read as keywords: the keywords
themselves, and the words that are keywords but for letters outside ASCII that the patterns take
for ASCII letters. Comments are opened and closed by their keywords alone. -/

namespace Shoutmark.Highlight
open Shoutmark.Text

variable {g rest : List Char} {r : Rule}

/-- The rule of a category takes a word just where the word reads as a keyword of it. -/
theorem keywordRule_eq_length_iff (h : IsRun false g rest) (c : Category) :
    (keywordRule c).pattern g = some g.length ↔
      (Keyword.ofWord? (readAs (String.ofList g))).map Keyword.category = some c := by
  have hmem (p : Pattern) : p ∈ (Keyword.all.filter (·.category = c)).map wholeWord ↔
      ∃ k, k.category = c ∧ wholeWord k = p := by
    simp [Keyword.mem_all]
  constructor
  · intro hp
    obtain ⟨p, hpm, hpg⟩ := List.exists_of_findSome?_eq_some hp
    obtain ⟨k, hk, rfl⟩ := (hmem p).mp hpm
    rw [wholeWord_eq_length_iff.mp hpg, Option.map_some, hk]
  · intro hc
    obtain ⟨k, hk, hkc⟩ := Option.map_eq_some_iff.mp hc
    have hsome : ((keywordRule c).pattern g).isSome = true :=
      List.findSome?_isSome_iff.mpr ⟨wholeWord k, (hmem _).mpr ⟨k, hkc, rfl⟩, by
        rw [wholeWord_eq_length_iff.mpr hk]
        rfl⟩
    obtain ⟨n, hn⟩ := Option.isSome_iff_exists.mp hsome
    rw [hn, (takesRuns_keywordRule c h).2 n hn]

/-- Outside a comment a word is coloured as a keyword of the category it reads as. -/
theorem kind_eq_keyword_iff (h : IsRun false g rest) (ho : ¬ Opens g)
    (hr : ruleFor .page g = some r) (c : Category) :
    r.kind = .keyword c ↔
      (Keyword.ofWord? (readAs (String.ofList g))).map Keyword.category = some c := by
  constructor
  · intro hk
    obtain ⟨hm, hp⟩ := ruleFor_some hr
    have hrule : r = keywordRule c := by
      simp only [rules, List.mem_cons, List.not_mem_nil, or_false] at hm
      rcases hm with rfl | rfl | rfl | rfl | rfl | rfl | rfl | rfl | rfl | rfl <;> cases hk <;> rfl
    rw [hrule] at hp
    exact (keywordRule_eq_length_iff h c).mp hp
  · intro hc
    have hkeyword (d : Category) : (keywordRule d).pattern g = some g.length ↔ c = d := by
      rw [keywordRule_eq_length_iff h, hc, Option.some.injEq]
    have hopen : ¬ wholeWord .obtw g = some g.length := fun hw => ho (opens_iff.mpr hw)
    have hrule : ruleFor .page g = some (keywordRule c) := by
      cases c <;> simp [ruleFor, rules, blanks_of_word h, hopen, hkeyword]
    rw [hr, Option.some.injEq] at hrule
    rw [hrule]
    rfl

theorem modes_after_word (h : IsRun false g rest) (hr : ruleFor .page g = some r) :
    r.move.apply [.page] = [.comment, .page] ↔ Opens g := by
  by_cases ho : Opens g
  · rw [ruleFor_opening h ho] at hr
    cases hr
    exact iff_of_true rfl ho
  · rw [move_of_word ho hr]
    exact iff_of_false nofun ho

theorem modes_after_inside (hr : ruleFor .comment g = some r) :
    r.move.apply [.comment, .page] = [.page] ↔ Closes g := by
  by_cases hc : Closes g
  · rw [ruleFor_closing hc] at hr
    cases hr
    exact iff_of_true rfl hc
  · rw [(rule_inside hc hr).2]
    exact iff_of_false nofun hc

/-- A word that is met outside a comment and does not open one is coloured as a keyword of the
category that it reads as. This is the category of the keyword that the word is, unless the word
only reads as a keyword, by a letter outside ASCII. The words that open and close comments are
their keywords. -/
theorem keywords_recognised (x : String) {before : List Piece} {t : Scan} {w rest : List Char}
    (hv : Scan.Visits (.ofSource x) before t) (ht : t.rest = w ++ rest) (hw : IsRun false w rest) :
    (t.modes = [.page] → ∃ p t', t.next = some (p, t') ∧ p.text = String.ofList w ∧
      t'.rest = rest ∧
      (upper (String.ofList w) ≠ "#OBTW" →
        (∀ c, p.kind = .keyword c ↔
          (Keyword.ofWord? (readAs (String.ofList w))).map Keyword.category = some c) ∧
        ((∀ c, p.kind = .keyword c ↔
          (Keyword.ofWord? (String.ofList w)).map Keyword.category = some c) ↔
          ((∃ l ∈ w, IsDisguised l) → Keyword.ofWord? (readAs (String.ofList w)) = none))) ∧
      (t'.modes = [.comment, .page] ↔ upper (String.ofList w) = "#OBTW")) ∧
    (t.modes = [.comment, .page] → ∃ p t', t.next = some (p, t') ∧ p.text = String.ofList w ∧
      t'.rest = rest ∧ p.kind = .comment ∧
      (t'.modes = [.page] ↔ upper (String.ofList w) = "#TLDR")) := by
  obtain ⟨modes, start, s⟩ := t
  cases ht
  refine ⟨fun hm => ?_, fun hm => ?_⟩
  · cases hm
    obtain ⟨r, hr⟩ := exists_ruleFor .page hw
    refine ⟨_, _, next_append [.page] start hw hr, rfl, rfl, fun ho => ?_, modes_after_word hw hr⟩
    have hkind := kind_eq_keyword_iff hw ho hr
    refine ⟨hkind, ?_⟩
    have hread := reads_as_itself_iff (w := String.ofList w)
    rw [String.toList_ofList] at hread
    rw [← hread]
    exact forall_congr' fun c => by rw [← hkind c]
  · cases hm
    obtain ⟨r, hr⟩ := exists_ruleFor .comment hw
    refine ⟨_, _, next_append [.comment, .page] start hw hr, rfl, rfl, ?_, modes_after_inside hr⟩
    by_cases hc : Closes w
    · rw [ruleFor_closing hc] at hr
      cases hr
      rfl
    · exact (rule_inside hc hr).1

/-- The word with the long s is met outside a comment and coloured as the keyword it reads as. -/
theorem keywords_recognised_long_s :
    ∃ before t p t', Scan.Visits (.ofSource "#hai ſee") before t ∧ t.modes = [.page] ∧
      t.rest = ['ſ', 'e', 'e'] ++ [] ∧ IsRun false ['ſ', 'e', 'e'] [] ∧
      t.next = some (p, t') ∧ p.text = "ſee" ∧ p.kind = .keyword .naming ∧
      ¬ t'.modes = [.comment, .page] := by
  have hvisits : Scan.Visits (.ofSource "#hai ſee")
      [⟨0, .keyword .structural, "#hai"⟩, ⟨4, .blank, " "⟩] ⟨[.page], 5, "ſee".toList⟩ :=
    .step rfl (.step rfl (.here _))
  have hrun : IsRun false ['ſ', 'e', 'e'] [] := ⟨nofun, by simp [isBlank], nofun⟩
  obtain ⟨p, t', hnext, htext, -, hkind, hmodes⟩ :=
    (keywords_recognised "#hai ſee" hvisits rfl hrun).1 rfl
  have hplain : upper (String.ofList ['ſ', 'e', 'e']) ≠ "#OBTW" := by decide
  have hnaming : p.kind = .keyword .naming := ((hkind hplain).1 .naming).mpr (by decide)
  exact ⟨_, _, p, t', hvisits, rfl, rfl, hrun, hnext, htext, hnaming, fun h => hplain (hmodes.mp h)⟩

/-- The long s counts as an s in a pattern and not in a keyword, so a word that is no keyword is
coloured as one. -/
theorem disguised_word_coloured :
    pieces "ſee" = [⟨0, .keyword .naming, "ſee"⟩] ∧ upper "ſee" ≠ "#OBTW" ∧
      Keyword.ofWord? "ſee" = none := by
  refine ⟨by cbv, by decide, by decide⟩

end Shoutmark.Highlight
