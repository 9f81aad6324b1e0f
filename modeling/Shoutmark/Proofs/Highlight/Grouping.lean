import Shoutmark.Proofs.Highlight.Runs
import Shoutmark.Proofs.Token.Layout

/-! The words of a text as they are coloured and as they are read. Colouring cuts a text at every
blank and nowhere else; reading cuts it at separators, and also where a word touches the next one.
Where no word read has a blank in it, each word that is coloured is a group of words read, namely of
those with nothing between them. -/

namespace Shoutmark.Highlight
open Shoutmark.Text Shoutmark.Token

/-! ### The words that are coloured -/

/-- The runs of a text that are no blanks. -/
def wordRuns (s : List Char) : List (List Char) := (runs s).filter fun g => !g.all isBlank

/-- The texts of the pieces that are no blanks, of whatever kind. -/
def wordValues (source : String) : List String :=
  ((pieces source).map (·.text)).filter fun v => !v.toList.all isBlank

theorem wordValues_eq (source : String) :
    wordValues source = (wordRuns source.toList).map String.ofList := by
  have hruns : (pieces source).map (·.text.toList) = runs source.toList := texts_pieces _ _ _
  rw [wordValues, wordRuns, ← hruns, List.filter_map, List.filter_map, List.map_map]
  have hself : String.ofList ∘ (fun p : Piece => p.text.toList) = (·.text) :=
    funext fun p => String.ofList_toList
  rw [hself]
  rfl

theorem wordRuns_nil : wordRuns [] = [] := by rw [wordRuns, runs_nil, List.filter_nil]

theorem wordRuns_blanks {w rest : List Char} (hw : ∀ c ∈ w, isBlank c = true)
    (hrest : ∀ c, rest.head? = some c → isBlank c = false) :
    wordRuns (w ++ rest) = wordRuns rest := by
  by_cases hn : w = []
  · rw [hn, List.nil_append]
  · have hrun : IsRun true w rest := ⟨hn, hw, hrest⟩
    have hall : w.all isBlank = true := List.all_eq_true.mpr hw
    rw [wordRuns, runs_append hrun, List.filter_cons_of_neg (by simp [hall])]
    rfl

theorem wordRuns_word {g rest : List Char} (h : IsRun false g rest) :
    wordRuns (g ++ rest) = g :: wordRuns rest := by
  obtain ⟨c, cs, rfl⟩ := List.exists_cons_of_ne_nil h.ne_nil
  have hc : isBlank c = false := h.uniform c List.mem_cons_self
  rw [wordRuns, runs_append h, List.filter_cons_of_pos (by simp [hc])]
  rfl

/-! ### Words in their places -/

structure Placed where
  gap : List Char
  word : String

def Placed.text (p : Placed) : List Char := p.gap ++ p.word.toList

/-- The words lie in the text in this order, each with its gap before it. -/
structure Places (ps : List Placed) (T : List String) (s : List Char) : Prop where
  words : ps.map (·.word) = T
  gaps : ∀ p ∈ ps, IsGap p.gap
  text : ∃ last, IsGap last ∧ s = ps.flatMap Placed.text ++ last

theorem exists_places {before : Option String} {T : List String} {s : List Char}
    (h : LaidOut before T s) : ∃ ps, Places ps T s := by
  induction h with
  | @gap _ w hw => exact ⟨[], rfl, nofun, w, hw, rfl⟩
  | @word _ t ts w rest hw ht _ _ ih =>
    obtain ⟨ps, hwords, hgaps, last, hlast, htext⟩ := ih
    refine ⟨⟨w, t⟩ :: ps, congrArg (t :: ·) hwords, List.forall_mem_cons.mpr ⟨hw, hgaps⟩, last,
      hlast, ?_⟩
    rw [List.flatMap_cons, htext, Placed.text, List.append_assoc, List.append_assoc]

theorem isBlank_of_isSeparator {c : Char} (h : isSeparator c = true) : isBlank c = true := by
  simp only [isSeparator, Bool.or_eq_true, beq_iff_eq] at h
  rcases h with ((rfl | rfl) | rfl) | rfl <;> decide

/-- A word that a coloured word can be made of. -/
def IsSolid (t : String) : Prop := t ≠ "" ∧ ∀ c ∈ t.toList, isBlank c = false

/-- The words of a group touch one another. -/
def Touching (g : List Placed) : Prop := g.IsChain fun _ q => q.gap = []

/-- Between two groups there is a gap. -/
def Separated (groups : List (List Placed)) : Prop :=
  groups.IsChain fun _ g => ∃ q, g.head? = some q ∧ q.gap ≠ []

/-- The text of words that touch one another is their texts joined, behind the gap of the first. -/
theorem text_of_touching {p : Placed} {ps : List Placed} (h : Touching (p :: ps)) :
    (p :: ps).flatMap Placed.text = p.gap ++ (String.join ((p :: ps).map (·.word))).toList := by
  induction ps generalizing p with
  | nil => simp [Placed.text]
  | cons q ps ih =>
    obtain ⟨hq, hrest⟩ := List.isChain_cons_cons.mp h
    have htail := ih hrest
    have hjoin : String.join ((p :: q :: ps).map (·.word)) =
        p.word ++ String.join ((q :: ps).map (·.word)) := String.join_cons
    rw [hq, List.nil_append] at htail
    rw [List.flatMap_cons, htail, hjoin, String.toList_append, Placed.text, List.append_assoc]

theorem head_after_group {g : List Placed} {groups : List (List Placed)} {last : List Char}
    (hsep : Separated (g :: groups)) (hgaps : ∀ p ∈ groups.flatten, IsGap p.gap)
    (hlast : IsGap last) {c : Char}
    (hc : (groups.flatten.flatMap Placed.text ++ last).head? = some c) : isBlank c = true := by
  cases groups with
  | nil => exact isBlank_of_isSeparator (hlast c (List.mem_of_head? hc))
  | cons h groups =>
    obtain ⟨⟨q, hq, hne⟩, -⟩ := List.isChain_cons_cons.mp hsep
    obtain ⟨qs, rfl⟩ := List.head?_eq_some_iff.mp hq
    obtain ⟨d, w, hgap⟩ := List.exists_cons_of_ne_nil hne
    have hqgap : IsGap q.gap := hgaps q (by simp)
    rw [List.flatten_cons, List.cons_append, List.flatMap_cons, Placed.text, hgap] at hc
    obtain rfl : d = c := Option.some.inj hc
    exact isBlank_of_isSeparator (hqgap d (hgap ▸ List.mem_cons_self))

/-- Groups of words that touch, with gaps between the groups, are the words that are coloured. -/
theorem wordRuns_groups {groups : List (List Placed)} {last : List Char} (hne : [] ∉ groups)
    (htouch : ∀ g ∈ groups, Touching g) (hsep : Separated groups)
    (hgaps : ∀ p ∈ groups.flatten, IsGap p.gap) (hsolid : ∀ p ∈ groups.flatten, IsSolid p.word)
    (hlast : IsGap last) :
    wordRuns (groups.flatten.flatMap Placed.text ++ last) =
      groups.map fun g => (String.join (g.map (·.word))).toList := by
  have blank {w : List Char} (hw : IsGap w) : ∀ c ∈ w, isBlank c = true :=
    fun c hc => isBlank_of_isSeparator (hw c hc)
  induction groups with
  | nil =>
    have h : wordRuns (last ++ []) = wordRuns [] := wordRuns_blanks (blank hlast) nofun
    rw [List.append_nil, wordRuns_nil] at h
    exact h
  | cons g groups ih =>
    obtain ⟨hg, hnil⟩ := not_or.mp (mt List.mem_cons.mpr hne)
    obtain ⟨p, ps, rfl⟩ := List.exists_cons_of_ne_nil (Ne.symm hg)
    obtain ⟨htouchg, htouch⟩ := List.forall_mem_cons.mp htouch
    rw [List.flatten_cons, List.forall_mem_append] at hgaps hsolid
    have hrest := ih hnil htouch hsep.tail hgaps.2 hsolid.2
    have hword : ∀ c ∈ (String.join ((p :: ps).map (·.word))).toList, isBlank c = false := by
      intro c hc
      rw [String.toList_join, List.flatMap_map] at hc
      obtain ⟨q, hq, hcq⟩ := List.mem_flatMap.mp hc
      exact (hsolid.1 q hq).2 c hcq
    have hfirst : p.word.toList ≠ [] := fun h =>
      (hsolid.1 p List.mem_cons_self).1 (String.toList_eq_nil_iff.mp h)
    have hrun : IsRun false (String.join ((p :: ps).map (·.word))).toList
        (groups.flatten.flatMap Placed.text ++ last) := by
      refine ⟨?_, hword, fun c hc => head_after_group hsep hgaps.2 hlast hc⟩
      rw [List.map_cons, String.join_cons, String.toList_append]
      exact List.append_ne_nil_of_left_ne_nil hfirst _
    have hgap : ∀ c, ((String.join ((p :: ps).map (·.word))).toList ++
        (groups.flatten.flatMap Placed.text ++ last)).head? = some c → isBlank c = false := by
      intro c hc
      rw [List.head?_append_of_ne_nil _ hrun.ne_nil] at hc
      exact hword c (List.mem_of_head? hc)
    rw [List.flatten_cons, List.flatMap_append, text_of_touching htouchg, List.append_assoc,
      List.append_assoc, wordRuns_blanks (blank (hgaps.1 p List.mem_cons_self)) hgap,
      wordRuns_word hrun, hrest]
    rfl

/-! ### The groups of a text -/

/-- A word begins a new group where there is a gap before it. -/
def groupsOf (ps : List Placed) : List (List Placed) := ps.splitBy fun _ q => q.gap.isEmpty

theorem touching_of_mem_groupsOf {ps g : List Placed} (h : g ∈ groupsOf ps) : Touching g :=
  (List.isChain_of_mem_splitBy h).imp fun _ _ hq => List.isEmpty_iff.mp hq

theorem separated_groupsOf (ps : List Placed) : Separated (groupsOf ps) := by
  refine (List.isChain_getLast_head_splitBy _ ps).imp fun a b hab => ?_
  obtain ⟨-, hb, hgap⟩ := hab
  refine ⟨b.head hb, List.head?_eq_some_head hb, fun h => ?_⟩
  rw [h] at hgap
  cases hgap

theorem Places.solid {ps : List Placed} {T : List String} {s : List Char} (h : Places ps T s)
    (hT : ∀ t ∈ T, IsWord t) (hb : ∀ t ∈ T, ∀ c ∈ t.toList, isBlank c = false) :
    ∀ p ∈ ps, IsSolid p.word := by
  intro p hp
  have hword : p.word ∈ T := h.words ▸ List.mem_map_of_mem hp
  exact ⟨fun he => (hT _ hword).toList_ne_nil (String.toList_eq_nil_iff.mpr he), hb _ hword⟩

/-- The words that are coloured are the groups of any placing of the words read. -/
theorem Places.wordValues_eq {ps : List Placed} {T : List String} {source : String}
    (h : Places ps T source.toList) (hT : ∀ t ∈ T, IsWord t)
    (hb : ∀ t ∈ T, ∀ c ∈ t.toList, isBlank c = false) {groups : List (List Placed)}
    (hflat : groups.flatten = ps) (hne : [] ∉ groups) (htouch : ∀ g ∈ groups, Touching g)
    (hsep : Separated groups) :
    wordValues source = groups.map fun g => String.join (g.map (·.word)) := by
  have hsolid := h.solid hT hb
  obtain ⟨-, hgaps, last, hlast, htext⟩ := h
  subst hflat
  rw [Highlight.wordValues_eq, htext, wordRuns_groups hne htouch hsep hgaps hsolid hlast,
    List.map_map]
  exact List.map_congr_left fun g _ => String.ofList_toList

theorem separated_singletons {p : Placed} {ps : List Placed} (h : ∀ q ∈ ps, q.gap ≠ []) :
    Separated ((p :: ps).map fun q => [q]) := by
  induction ps generalizing p with
  | nil => exact .singleton _
  | cons q ps ih =>
    obtain ⟨hq, hps⟩ := List.forall_mem_cons.mp h
    exact .cons_cons ⟨q, rfl, hq⟩ (ih hps)

theorem places_intercalate (T : List String) :
    ∃ ps, Places ps T (" ".intercalate T).toList ∧ Separated (ps.map fun p => [p]) := by
  have hspace : IsGap [' '] := by decide
  cases T with
  | nil => exact ⟨[], ⟨rfl, nofun, [], nofun, by rw [String.intercalate_nil]; rfl⟩, .nil⟩
  | cons t T =>
    have hgaps : ∀ q ∈ T.map (Placed.mk [' ']), IsGap q.gap ∧ q.gap ≠ [] := by
      intro q hq
      obtain ⟨u, -, rfl⟩ := List.mem_map.mp hq
      exact ⟨hspace, List.cons_ne_nil _ _⟩
    refine ⟨⟨[], t⟩ :: T.map (Placed.mk [' ']), ⟨?_, ?_, [], nofun, ?_⟩,
      separated_singletons fun q hq => (hgaps q hq).2⟩
    · rw [List.map_cons, List.map_map]
      exact congrArg (t :: ·) (List.map_id T)
    · exact List.forall_mem_cons.mpr ⟨nofun, fun q hq => (hgaps q hq).1⟩
    · rw [toList_intercalate_space, List.flatMap_cons, List.flatMap_map, List.append_nil]
      rfl

/-- Where no word read has a blank in it, the words that are coloured are groups of the words read,
in their order and with none left out. Two neighbours are in one group just where there is no gap
between them. With a space between all of them, the words coloured are the words read. -/
theorem coloured_words_group {s : String} {T : List String} (hT : tokenize s = .ok T)
    (hb : ∀ t ∈ T, ∀ c ∈ t.toList, isBlank c = false) :
    (∃ ps, Places ps T s.toList) ∧
    (∀ ps, Places ps T s.toList → ∃ groups : List (List Placed),
      groups.flatten = ps ∧ [] ∉ groups ∧
      wordValues s = groups.map (fun g => String.join (g.map (·.word))) ∧
      (∀ g ∈ groups, g.IsChain fun _ q => q.gap = []) ∧
      groups.IsChain fun _ g => ∃ q, g.head? = some q ∧ q.gap ≠ []) ∧
    wordValues (" ".intercalate T) = T := by
  have hlaid : LaidOut none T s.toList := tokenize_ok_iff.mp hT
  have hwords : ∀ t ∈ T, IsWord t := hlaid.isWord
  refine ⟨exists_places hlaid, fun ps hps => ?_, ?_⟩
  · have hflat : (groupsOf ps).flatten = ps := List.flatten_splitBy _ ps
    have hne : [] ∉ groupsOf ps := List.nil_notMem_splitBy _ ps
    have htouch : ∀ g ∈ groupsOf ps, Touching g := fun g => touching_of_mem_groupsOf
    have hsep := separated_groupsOf ps
    exact ⟨groupsOf ps, hflat, hne, hps.wordValues_eq hwords hb hflat hne htouch hsep, htouch, hsep⟩
  · obtain ⟨ps, hps, hsep⟩ := places_intercalate T
    have hflat : (ps.map fun p => [p]).flatten = ps := by
      rw [← List.flatMap_def, List.flatMap_singleton']
    rw [hps.wordValues_eq hwords hb hflat (by simp) (by simp [Touching]) hsep, List.map_map,
      ← hps.words]
    exact List.map_congr_left fun p _ => by simp

/-- A keyword that is touched by a word is coloured together with it. -/
theorem coloured_words_group_touching :
    tokenize "#hai!a\t#mkay" = .ok ["#hai", "!a", "#mkay"] ∧
      Places [⟨[], "#hai"⟩, ⟨[], "!a"⟩, ⟨['\t'], "#mkay"⟩] ["#hai", "!a", "#mkay"]
        "#hai!a\t#mkay".toList ∧
      (∃ groups : List (List Placed),
        groups.flatten = [⟨[], "#hai"⟩, ⟨[], "!a"⟩, ⟨['\t'], "#mkay"⟩] ∧ [] ∉ groups ∧
        wordValues "#hai!a\t#mkay" = groups.map (fun g => String.join (g.map (·.word))) ∧
        (∀ g ∈ groups, g.IsChain fun _ q => q.gap = []) ∧
        groups.IsChain fun _ g => ∃ q, g.head? = some q ∧ q.gap ≠ []) ∧
      wordValues "#hai !a #mkay" = ["#hai", "!a", "#mkay"] := by
  have hlaid : LaidOut none ["#hai", "!a", "#mkay"] "#hai!a\t#mkay".toList :=
    .word (w := []) (nofun) (Or.inr (by decide)) (nofun)
      (.word (w := []) (nofun) (Or.inl (by decide))
        (fun a ha _ => Or.inr (by cases ha; exact ⟨by decide, by rintro c ⟨⟩; decide⟩))
        (.word (w := ['\t']) (by decide) (Or.inr (by decide)) (nofun) (.gap (nofun))))
  have hread : tokenize "#hai!a\t#mkay" = .ok ["#hai", "!a", "#mkay"] := tokenize_ok_iff.mpr hlaid
  have hplaces : Places [⟨[], "#hai"⟩, ⟨[], "!a"⟩, ⟨['\t'], "#mkay"⟩] ["#hai", "!a", "#mkay"]
      "#hai!a\t#mkay".toList := by
    refine ⟨rfl, ?_, [], nofun, by decide⟩
    simp only [List.forall_mem_cons]
    exact ⟨by decide, by decide, by decide, nofun⟩
  obtain ⟨-, hgroups, hspaced⟩ := coloured_words_group hread (by simp [isBlank])
  exact ⟨hread, hplaces, hgroups _ hplaces, hspaced⟩

end Shoutmark.Highlight
