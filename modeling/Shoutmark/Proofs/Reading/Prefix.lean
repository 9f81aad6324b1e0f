import Shoutmark.Proofs.Reading.Outcome

/-! Faults are met at the first token that rules every program out. Whatever place some tokens lead
to, the keywords that close what is open there complete a program; only a variable's use may be
completed and still fail, for want of a value. -/

namespace Shoutmark.Reading
open Shoutmark.Grammar

/-- The use of a variable is open. -/
def Place.inUse : Place → Bool
  | .see _ | .usedName _ | .useEnd _ _ => true
  | _ => false

/-- The tokens end inside the use of a variable. -/
def UseOpen (lists : Bool) (tokens : List String) : Prop :=
  ∃ q s, feed lists .fresh tokens = .going q s ∧ q.inUse = true

/-- Some tokens after these make a program that is read to its end. If the use of a variable is
open they may also lead to a variable that has no value. -/
def Completable (lists : Bool) (tokens : List String) : Prop :=
  ∃ more : List String, (∀ t ∈ more, t ≠ "") ∧
    ((∃ d, program lists (.start (tokens ++ more)) = .ok () d) ∨
      (UseOpen lists tokens ∧
        ∃ name d, program lists (.start (tokens ++ more)) = .error (.undefinedVariable name) d))

/-- The keywords that close a frame and all that is around it. -/
def Frame.ending : Frame → List Keyword
  | .body => [.kthxbye]
  | .paragraph => [.oic, .kthxbye]
  | .item => [.mkay, .oic, .kthxbye]

/-- Keywords that close what is open at a place. Where any token is taken, a keyword does too. -/
def Place.ending : Place → List Keyword
  | .start => [.hai, .kthxbye]
  | .opening => [.kthxbye]
  | .comment _ => [.tldr, .kthxbye]
  | .headWord => [.head, .oic, .kthxbye]
  | .head => [.oic, .kthxbye]
  | .titleWord => [.title, .mkay, .oic, .kthxbye]
  | .titleText _ => [.mkay, .oic, .kthxbye]
  | .forms f => f.ending
  | .block => .paragraf :: Frame.paragraph.ending
  | .items => [.oic, .kthxbye]
  | .itemWord => .item :: Frame.item.ending
  | .construct f => .newline :: f.ending
  | .styled f _ _ => .mkay :: f.ending
  | .address f m => m.word :: .mkay :: f.ending
  | .addressEnd f _ _ => .mkay :: f.ending
  | .haz f => .haz :: .haz :: .it :: .iz :: .mkay :: f.ending
  | .name f => .haz :: .it :: .iz :: .mkay :: f.ending
  | .it f _ => .it :: .iz :: .mkay :: f.ending
  | .iz f _ => .iz :: .mkay :: f.ending
  | .value f _ _ => .mkay :: f.ending
  | .see f => .see :: .see :: .mkay :: f.ending
  | .usedName f => .see :: .mkay :: f.ending
  | .useEnd f _ => .mkay :: f.ending

def spellings (ks : List Keyword) : List String := ks.map Keyword.spelling

@[simp] theorem spellings_cons (k : Keyword) (ks : List Keyword) :
    spellings (k :: ks) = k.spelling :: spellings ks := rfl

theorem spellings_ne_empty {ks : List Keyword} {t : String} (h : t ∈ spellings ks) : t ≠ "" := by
  obtain ⟨k, -, rfl⟩ := List.mem_map.mp h
  exact k.spelling_ne_empty

@[simp] theorem require_spelling (k : Keyword) (s : Sheet) (p : Progress) :
    require k k.spelling s p = p :=
  require_of_eq (Keyword.ofWord?_spelling k) s p

@[simp] theorem gather_spelling (k : Keyword) (s : Sheet) (m p : Progress) :
    gather k k.spelling s m p = p :=
  gather_of_eq (Keyword.ofWord?_spelling k) s m p

variable {lists : Bool}

/-- The keywords lead from a place to the end of a program. -/
def Ends (lists : Bool) (q : Place) (s : Sheet) (ks : List Keyword) : Prop :=
  ∃ s', feed lists (.going q s) (spellings ks) = .finished s'

theorem Ends.last {q : Place} {s s' : Sheet} {k : Keyword}
    (h : step lists q k.spelling s = .finished s') : Ends lists q s [k] :=
  ⟨s', h⟩

theorem Ends.cons {q q' : Place} {s s' : Sheet} {k : Keyword} {ks : List Keyword}
    (h : step lists q k.spelling s = .going q' s') (he : Ends lists q' s' ks) :
    Ends lists q s (k :: ks) := by
  obtain ⟨s'', he⟩ := he
  exact ⟨s'', by rw [spellings_cons, feed_going_cons, h, he]⟩

theorem step_closing (f : Frame) (s : Sheet) :
    step lists (.forms f) f.closing.spelling s = f.leave (s.write f.tail) :=
  gather_spelling f.closing _ _ _

theorem body_ends (s : Sheet) : Ends lists (.forms .body) s [.kthxbye] :=
  .last (step_closing .body s)

theorem items_ends (s : Sheet) : Ends lists .items s [.oic, .kthxbye] := by
  have hs : step lists .items Keyword.oic.spelling s =
      .going (.forms .body) (s.write "</ul>\n") := by simp [step]
  exact .cons hs (body_ends _)

theorem head_ends (s : Sheet) : Ends lists .head s [.oic, .kthxbye] :=
  .cons (gather_spelling .oic s _ (.going (.forms .body) s)) (body_ends s)

theorem forms_ends (f : Frame) (s : Sheet) : Ends lists (.forms f) s f.ending := by
  cases f with
  | body => exact body_ends s
  | paragraph => exact .cons (step_closing .paragraph s) (body_ends _)
  | item => exact .cons (step_closing .item s) (items_ends _)

theorem useEnd_ends (f : Frame) (n : String) (s : Sheet) :
    Ends lists (.useEnd f n) s (.mkay :: f.ending) ∨
      feed lists (.going (.useEnd f n) s) (spellings (.mkay :: f.ending)) =
        .refused (.undefinedVariable n) s := by
  have hm : step lists (.useEnd f n) Keyword.mkay.spelling s = useValue f n s :=
    require_spelling .mkay s _
  rw [useValue] at hm
  cases hv : s.values.get? n with
  | some value =>
    rw [hv] at hm
    exact Or.inl (.cons hm (forms_ends f _))
  | none =>
    rw [hv] at hm
    rw [spellings_cons, feed_going_cons, hm, feed_refused]
    exact Or.inr rfl

/-- From every place outside the use of a variable a program can be completed. -/
theorem place_ends {q : Place} (hq : q.inUse = false) (s : Sheet) : Ends lists q s q.ending := by
  have value (f : Frame) (n : String) (ws : List String) (s : Sheet) :
      Ends lists (.value f n ws) s (.mkay :: f.ending) :=
    .cons (gather_spelling .mkay _ _ _) (forms_ends f _)
  have it (f : Frame) (n : String) (s : Sheet) :
      Ends lists (.it f n) s (.it :: .iz :: .mkay :: f.ending) :=
    .cons (require_spelling .it s _) (.cons (require_spelling .iz s _) (value f n [] s))
  have name (f : Frame) (s : Sheet) :
      Ends lists (.name f) s (.haz :: .it :: .iz :: .mkay :: f.ending) := .cons rfl (it f _ s)
  have addressEnd (f : Frame) (m : Medium) (a : String) (s : Sheet) :
      Ends lists (.addressEnd f m a) s (.mkay :: f.ending) :=
    .cons (require_spelling .mkay s _) (forms_ends f _)
  have titleText (ws : List String) (s : Sheet) :
      Ends lists (.titleText ws) s [.mkay, .oic, .kthxbye] :=
    .cons (gather_spelling .mkay _ _ _) (head_ends _)
  have opening (s : Sheet) : Ends lists .opening s [.kthxbye] := by
    have hs : step lists .opening Keyword.kthxbye.spelling s =
        step lists (.forms .body) Keyword.kthxbye.spelling s := by simp [step]
    exact .last (hs.trans (step_closing .body s))
  have block (s : Sheet) : step lists .block Keyword.paragraf.spelling s =
      .going (.forms .paragraph) (s.write "<p>") := by simp [step]
  have newline (f : Frame) (s : Sheet) : step lists (.construct f) Keyword.newline.spelling s =
      .going (.forms f) (s.write "<br/>\n") := by simp [step, stepConstruct]
  cases q with
  | start => exact .cons (require_spelling .hai s _) (opening s)
  | opening => exact opening s
  | comment ws => exact .cons (gather_spelling .tldr _ _ _) (opening _)
  | headWord => exact .cons (require_spelling .head s _) (head_ends s)
  | head => exact head_ends s
  | titleWord => exact .cons (require_spelling .title s _) (titleText [] s)
  | titleText ws => exact titleText ws s
  | forms f => exact forms_ends f s
  | block => exact .cons (block s) (forms_ends .paragraph _)
  | items => exact items_ends s
  | itemWord => exact .cons (require_spelling .item s _) (forms_ends .item _)
  | construct f => exact .cons (newline f s) (forms_ends f _)
  | styled f style ws => exact .cons (gather_spelling .mkay _ _ _) (forms_ends f _)
  | address f m => exact .cons rfl (addressEnd f m _ s)
  | addressEnd f m a => exact addressEnd f m a s
  | haz f => exact .cons (require_spelling .haz s _) (name f s)
  | name f => exact name f s
  | it f n => exact it f n s
  | iz f n => exact .cons (require_spelling .iz s _) (value f n [] s)
  | value f n ws => exact value f n ws s
  | see f => cases hq
  | usedName f => cases hq
  | useEnd f n => cases hq

/-- The use of a variable can be completed, and then a program, unless the variable has no value. -/
theorem use_ends {q : Place} (hq : q.inUse = true) (s : Sheet) :
    Ends lists q s q.ending ∨
      ∃ n s', feed lists (.going q s) (spellings q.ending) =
        .refused (.undefinedVariable n) s' := by
  have taken (f : Frame) (s : Sheet) :
      Ends lists (.usedName f) s (.see :: .mkay :: f.ending) ∨
        feed lists (.going (.usedName f) s) (spellings (.see :: .mkay :: f.ending)) =
          .refused (.undefinedVariable Keyword.see.spelling) s :=
    (useEnd_ends f _ s).imp (.cons rfl) id
  cases q with
  | see f =>
    have hs : step lists (.see f) Keyword.see.spelling s = .going (.usedName f) s :=
      require_spelling .see s _
    refine (taken f s).imp (.cons hs) fun h => ⟨Keyword.see.spelling, s, ?_⟩
    rw [Place.ending, spellings_cons, feed_going_cons, hs, h]
  | usedName f => exact (taken f s).imp_right fun h => ⟨_, s, h⟩
  | useEnd f n => exact (useEnd_ends f n s).imp_right fun h => ⟨n, s, h⟩
  | _ => cases hq

theorem completable_of_going {tokens : List String} {q : Place} {s : Sheet}
    (h : feed lists .fresh tokens = .going q s) : Completable lists tokens := by
  have hf : feed lists .fresh (tokens ++ spellings q.ending) =
      feed lists (.going q s) (spellings q.ending) := by rw [feed_append, h]
  refine ⟨spellings q.ending, fun _ ht => spellings_ne_empty ht, ?_⟩
  have done (he : Ends lists q s q.ending) :
      ∃ d, program lists (.start (tokens ++ spellings q.ending)) = .ok () d := by
    obtain ⟨s', he⟩ := he
    obtain ⟨c, hp⟩ := program_finished (hf.trans he)
    exact ⟨_, hp⟩
  cases hq : q.inUse with
  | false => exact Or.inl (done (place_ends hq s))
  | true =>
    refine (use_ends hq s).imp done fun he => ?_
    obtain ⟨n, s', he⟩ := he
    obtain ⟨c, hp⟩ := program_refused (hf.trans he)
    exact ⟨⟨q, s, h, hq⟩, n, _, hp⟩

/-- A syntax fault is met at the first token that no program goes on with: up to and with the
token at hand the tokens begin no program, and those before it do. If the tokens are used up, all
of them do. -/
theorem syntax_fault_earliest {T : List String} (hT : ∀ t ∈ T, t ≠ "") {f : Fault} {d : Draft}
    (hf : f.token?.isSome = true) (h : program lists (.start T) = .error f d) :
    (d.cursor.token ≠ "" →
      (∀ more d', program lists (.start (T.take (d.cursor.position + 1) ++ more)) ≠ .ok () d') ∧
        Completable lists (T.take d.cursor.position)) ∧
    (d.cursor.token = "" → Completable lists T) := by
  obtain hr | ⟨⟨q, s, hg⟩, hc, -⟩ := feed_of_error h
  · obtain ⟨v, t, w, q, s, rfl, hv, hs⟩ := feed_stops hr (by simp)
    have hv : feed lists .fresh v = .going q s := hv
    have hcur := Cursor.shows_start (v ++ t :: w)
    -- the fault is no undefined variable, so the cursor stays on the token that is refused
    have hd : d.cursor = (Cursor.start (v ++ t :: w)).skip v.length := by
      rw [program_at hv, hs, proceed] at h
      obtain ⟨-, hd⟩ := EStateM.Result.error.inj h
      rw [← hd, Draft.cursor_draft]
      cases f with
      | undefinedVariable n => cases hf
      | _ => rfl
    have hp : d.cursor.position = v.length := by
      rw [hd, hcur.position_skip]
      exact Nat.zero_add _
    have ht : d.cursor.token = t := by rw [hd, hcur.skip.token]
    have hne : d.cursor.token ≠ "" := ht ▸ hT t (by simp)
    refine ⟨fun _ => ⟨fun more d' hok => ?_, ?_⟩, fun he => absurd he hne⟩
    · have hfin := feed_of_ok hok
      have htake : (v ++ t :: w).take (v.length + 1) = v ++ [t] := by
        rw [List.take_length_add_append]
        rfl
      rw [hp, htake, feed_append, feed_append, hv, feed_going_cons, hs, feed_nil,
        feed_refused] at hfin
      cases hfin
    · rw [hp, List.take_left]
      exact completable_of_going hv
  · exact ⟨fun hne => absurd hc hne, fun _ => completable_of_going hg⟩

/-- The item of a list breaks off inside the use of a variable. -/
theorem syntax_fault_earliest_in_item : ∃ d,
    program true (.start ["#hai", "x", "#maek", "List", "#GIMMEH", "ITEM", "#LEMME", "SEE", "A",
      "B"]) = .error (.mismatch "#MKAY" "B") d ∧ d.cursor.position = 9 ∧
    (∀ more d', program true (.start (["#hai", "x", "#maek", "List", "#GIMMEH", "ITEM", "#LEMME",
      "SEE", "A", "B"] ++ more)) ≠ .ok () d') ∧
    Completable true ["#hai", "x", "#maek", "List", "#GIMMEH", "ITEM", "#LEMME", "SEE", "A"] := by
  have hv : feed true .fresh ["#hai", "x", "#maek", "List", "#GIMMEH", "ITEM", "#LEMME", "SEE",
      "A"] = .going (.useEnd .item "A") ⟨#["x ", "<ul>\n", "<li>"], .empty, none, #[]⟩ := by
    decide +kernel
  have hs : step true (.useEnd .item "A") "B" ⟨#["x ", "<ul>\n", "<li>"], .empty, none, #[]⟩ =
      .refused (.mismatch "#MKAY" "B") ⟨#["x ", "<ul>\n", "<li>"], .empty, none, #[]⟩ := by
    decide +kernel
  have hp := program_at (w := []) (t := "B") hv
  rw [hs] at hp
  obtain ⟨hne, hc⟩ := (syntax_fault_earliest (by decide) rfl hp).1 (by decide +kernel)
  exact ⟨_, hp, by decide +kernel, hne, hc⟩

end Shoutmark.Reading
