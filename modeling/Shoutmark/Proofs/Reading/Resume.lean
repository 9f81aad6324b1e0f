import Shoutmark.Proofs.Reading.Place

/-! The productions read one token at a time. Resuming a program at a place is a production of its
own; what the grammar's productions still do from there on is the same, so a whole program is what
resuming at the start does, on every draft. -/

namespace Shoutmark.Reading
open Shoutmark.Grammar

/-- Where the cursor stands after a fault: on the token that is refused, except that a variable is
looked up once its use is read to the end. -/
def faultCursor (f : Fault) (c : Cursor) : Cursor :=
  match f with
  | .undefinedVariable _ => c.advance
  | _ => c

theorem step_empty {lists : Bool} {q q' : Place} {s s' : Sheet}
    (h : step lists q "" s = .going q' s') : q.takes = true ∧ q'.takes = false := by
  cases q with
  | address f m | name f | usedName f => cases h; exact ⟨rfl, rfl⟩
  | opening | forms f => simp [step, stepForms] at h
  | construct f => simp [step, stepConstruct] at h
  | _ => simp [step] at h

/-- Going on from a place leaves less to read, or the place took the empty token and the next one
takes none. -/
theorem resume_decreases {lists : Bool} {q q' : Place} {d : Draft} {s : Sheet}
    (h : step lists q d.cursor.token d.sheet = .going q' s) :
    2 * (s.draft d.cursor.advance).remaining + q'.takes.toNat <
      2 * d.remaining + q.takes.toNat := by
  have hr : (s.draft d.cursor.advance).remaining = d.advance.remaining := rfl
  rw [hr]
  by_cases ht : d.cursor.token = ""
  · rw [ht] at h
    obtain ⟨hq, hq'⟩ := step_empty h
    have := d.remaining_advance_le
    simp only [hq, hq', Bool.toNat_true, Bool.toNat_false]
    omega
  · have := Draft.remaining_advance_lt ht
    have hb := Bool.toNat_lt q'.takes
    omega

/-- What is still done from a place on. -/
def resume (lists : Bool) (q : Place) : Production Unit := fun d =>
  match _ : step lists q d.cursor.token d.sheet with
  | .going q' s => resume lists q' (s.draft d.cursor.advance)
  | .finished s => .ok () (s.draft d.cursor.advance)
  | .refused f s => .error f (s.draft (faultCursor f d.cursor))
termination_by d => 2 * d.remaining + q.takes.toNat
decreasing_by exact resume_decreases ‹_›

/-- What is still done after the token at the cursor has led to some progress. -/
def proceed (lists : Bool) (c : Cursor) : Progress → EStateM.Result Fault Draft Unit
  | .going q s => resume lists q (s.draft c.advance)
  | .finished s => .ok () (s.draft c.advance)
  | .refused f s => .error f (s.draft (faultCursor f c))

variable {lists : Bool}

theorem resume_eq (q : Place) (d : Draft) :
    resume lists q d = proceed lists d.cursor (step lists q d.cursor.token d.sheet) := by
  rw [resume]
  split <;> rename_i h <;> rw [h, proceed]

/-! ### Single productions -/

theorem bind_ok {α β : Type} {p : Production α} {f : α → Production β} {d d' : Draft} {a : α}
    (h : p d = .ok a d') : (p >>= f) d = f a d' := by
  rw [bind_apply, h]

theorem bind_error {α β : Type} {p : Production α} {f : α → Production β} {d d' : Draft}
    {e : Fault} (h : p d = .error e d') : (p >>= f) d = .error e d' := by
  rw [bind_apply, h]

theorem expect_apply (k : Keyword) (d : Draft) :
    expect k d = if Keyword.ofWord? d.cursor.token = some k then .ok () d.advance
      else .error (.mismatch k.spelling d.cursor.token) d := by
  by_cases h : Keyword.ofWord? d.cursor.token = some k
  · rw [if_pos h, expect, matchWord, if_pos (Keyword.sameWord_spelling_iff.mpr h)]
  · rw [if_neg h, expect, matchWord, if_neg (mt Keyword.sameWord_spelling_iff.mp h)]

/-- Where a keyword is required, requiring it and going on is what reading does. -/
theorem expect_then_apply {k : Keyword} {F : Production Unit} {d : Draft} {p : Progress}
    (hF : F d.advance = proceed lists d.cursor p) :
    (expect k >>= fun _ => F) d =
      proceed lists d.cursor (require k d.cursor.token d.sheet p) := by
  rw [bind_apply, expect_apply]
  by_cases h : Keyword.ofWord? d.cursor.token = some k
  · rw [if_pos h, require_of_eq h]
    exact hF
  · rw [if_neg h, require, if_neg h]
    rfl

theorem expect_then {q : Place} {k : Keyword} {F : Production Unit} {p : Sheet → Progress}
    (hq : ∀ t s, step lists q t s = require k t s (p s))
    (hF : ∀ d : Draft, F d.advance = proceed lists d.cursor (p d.sheet)) :
    (expect k >>= fun _ => F) = resume lists q := by
  funext d
  rw [expect_then_apply (hF d), resume_eq, hq]

/-- The induction over the words that are gathered needs those gathered before. -/
private theorem collect_then_from {q : List String → Place} {k : Keyword}
    {F : List String → Production Unit} {before : List String → Sheet → Sheet}
    {next : List String → Sheet → Progress}
    (hq : ∀ ws t s, step lists (q ws) t s =
      gather k t (before ws s) (.going (q (ws ++ [t])) s) (next ws s))
    (hF : ∀ ws d, F ws d =
      proceed lists d.cursor (require k d.cursor.token (before ws d.sheet) (next ws d.sheet)))
    (ws : List String) :
    (collect k.spelling >>= fun v => F (ws ++ v)) = resume lists (q ws) := by
  funext d
  fun_induction collect k.spelling d generalizing ws with
  | case1 d h =>
    have hg : d.cursor.token = "" ∨ Keyword.ofWord? d.cursor.token = some k := by
      simpa [Keyword.sameWord_spelling_iff, or_comm] using h
    have hc : collect k.spelling d = .ok [] d := by rw [collect, if_pos h]
    rw [resume_eq, hq, gather, if_pos hg, ← hF]
    exact (bind_ok hc).trans (by rw [List.append_nil])
  | case2 d h tokens d' hr ih =>
    have hg : ¬ (d.cursor.token = "" ∨ Keyword.ofWord? d.cursor.token = some k) := by
      simpa [Keyword.sameWord_spelling_iff, and_comm] using h
    have hc : collect k.spelling d = .ok (d.cursor.token :: tokens) d' := by
      rw [collect, if_neg h, hr]
    rw [resume_eq, hq, gather, if_neg hg]
    have hn := bind_ok (f := fun v => F (ws ++ [d.cursor.token] ++ v)) hr
    rw [List.append_assoc, List.singleton_append] at hn
    exact (bind_ok hc).trans (hn.symm.trans (ih (ws ++ [d.cursor.token])))
  | case3 d h e d' hr ih =>
    have hg : ¬ (d.cursor.token = "" ∨ Keyword.ofWord? d.cursor.token = some k) := by
      simpa [Keyword.sameWord_spelling_iff, and_comm] using h
    have hc : collect k.spelling d = .error e d' := by rw [collect, if_neg h, hr]
    rw [resume_eq, hq, gather, if_neg hg]
    exact (bind_error hc).trans ((bind_error hr).symm.trans (ih (ws ++ [d.cursor.token])))

/-- Where words are gathered, collecting them and going on is what reading does. -/
theorem collect_then {q : List String → Place} {k : Keyword} {F : List String → Production Unit}
    {before : List String → Sheet → Sheet} {next : List String → Sheet → Progress}
    (hq : ∀ ws t s, step lists (q ws) t s =
      gather k t (before ws s) (.going (q (ws ++ [t])) s) (next ws s))
    (hF : ∀ ws d, F ws d =
      proceed lists d.cursor (require k d.cursor.token (before ws d.sheet) (next ws d.sheet))) :
    (collect k.spelling >>= F) = resume lists (q []) :=
  collect_then_from hq hF []

/-- A loop over a step that stays at a place is what reading at that place does, if what follows
the loop is. -/
theorem repeatWhile_then {q : Place} {go : Draft → Bool} {body after : Production Unit}
    {h : ConsumesIf go body}
    (hbody : ∀ d, go d = true → (body >>= fun _ => resume lists q) d = resume lists q d)
    (hafter : ∀ d, go d = false → after d = resume lists q d) :
    (repeatWhile go body h >>= fun _ => after) = resume lists q := by
  funext d
  fun_induction repeatWhile go body h d with
  | case1 d hg d' hs ih =>
    have hb : (repeatWhile go body h >>= fun _ => after) d =
        (repeatWhile go body h >>= fun _ => after) d' := by
      simp only [bind, EStateM.bind, repeatWhile_turn hg hs]
    exact hb.trans (ih.trans ((bind_ok hs).symm.trans (hbody d hg)))
  | case2 d hg e d' hs =>
    exact (bind_error (repeatWhile_fault hg hs)).trans ((bind_error hs).symm.trans (hbody d hg))
  | case3 d hg =>
    have hg' : go d = false := by simpa using hg
    exact (bind_ok (repeatWhile_done hg')).trans (hafter d hg')

/-! ### What is gathered -/

theorem phrase_then {k : Keyword} (F : String → Production Unit) :
    (phrase k >>= F) = (collect k.spelling >>= fun ws => F (phraseOf ws)) := by
  simp only [phrase, bind_assoc, pure_bind, phraseOf]

theorem comment_tail :
    (collect Keyword.tldr.spelling >>= fun ws => expect .tldr >>= fun _ =>
      report (.comment (phraseOf ws)) >>= fun _ => resume lists .opening) =
    resume lists (.comment []) :=
  collect_then (q := .comment) (fun _ _ _ => rfl) fun _ _ => expect_then_apply rfl

theorem titleText_tail :
    (collect Keyword.mkay.spelling >>= fun ws => expect .mkay >>= fun _ =>
      entitle (phraseOf ws) >>= fun _ => report (.title (phraseOf ws)) >>= fun _ =>
      write ("<html><head><title>" ++ phraseOf ws ++ "</title></head><body>\n") >>= fun _ =>
      resume lists .head) =
    resume lists (.titleText []) :=
  collect_then (q := .titleText) (fun _ _ _ => rfl) fun _ _ => expect_then_apply rfl

theorem styled_tail (f : Frame) (style : Style) :
    (collect Keyword.mkay.spelling >>= fun ws => writeSpaced ws >>= fun _ =>
      expect .mkay >>= fun _ => write ("</" ++ style.tag ++ ">") >>= fun _ =>
      resume lists (.forms f)) =
    resume lists (.styled f style []) :=
  collect_then (q := .styled f style) (fun _ _ _ => rfl) fun _ _ =>
    (bind_ok rfl).trans (expect_then_apply rfl)

theorem value_tail (f : Frame) (name : String) :
    (collect Keyword.mkay.spelling >>= fun ws => define name (phraseOf ws) >>= fun _ =>
      expect .mkay >>= fun _ => tell (.variableDefined name (phraseOf ws)) >>= fun _ =>
      resume lists (.forms f)) =
    resume lists (.value f name []) :=
  collect_then (q := .value f name) (fun _ _ _ => rfl) fun _ _ =>
    (bind_ok rfl).trans (expect_then_apply rfl)

/-! ### Inline forms -/

theorem expect_resume {q q' : Place} {k : Keyword}
    (hq : ∀ t s, step lists q t s = require k t s (.going q' s)) :
    (expect k >>= fun _ => resume lists q') = resume lists q :=
  expect_then hq fun _ => rfl

theorem expect_at {k : Keyword} {F : Production Unit} {d : Draft}
    (h : Keyword.ofWord? d.cursor.token = some k) : (expect k >>= fun _ => F) d = F d.advance := by
  refine bind_ok (a := ()) ?_
  rw [expect_apply, if_pos h]

theorem take_then {q : String → Place} {q' : Place}
    (hq : ∀ t s, step lists q' t s = .going (q t) s) :
    (take >>= fun t => resume lists (q t)) = resume lists q' := by
  funext d
  rw [resume_eq, hq]
  rfl

theorem defineVariable_then (f : Frame) {d : Draft}
    (h : Keyword.ofWord? d.cursor.token = some .i) :
    (defineVariable >>= fun _ => resume lists (.forms f)) d = resume lists (.haz f) d.advance := by
  have iz (n : String) : (expect .iz >>= fun _ => resume lists (.value f n [])) =
      resume lists (.iz f n) := expect_resume fun _ _ => rfl
  have it (n : String) : (expect .it >>= fun _ => resume lists (.iz f n)) =
      resume lists (.it f n) := expect_resume fun _ _ => rfl
  have name : (take >>= fun n => resume lists (.it f n)) = resume lists (.name f) :=
    take_then fun _ _ => rfl
  have haz : (expect .haz >>= fun _ => resume lists (.name f)) = resume lists (.haz f) :=
    expect_resume fun _ _ => rfl
  simp only [defineVariable, bind_assoc, phrase_then, value_tail, iz, it, name, haz]
  exact expect_at h

theorem writeValue_apply (name : String) (d : Draft) :
    writeValue name d = match d.values.get? name with
      | some value => .ok () (d.write (value ++ " "))
      | none => .error (.undefinedVariable name) d := by
  change (match d.values.get? name with
    | some value => write (value ++ " ")
    | none => fail (.undefinedVariable name) : Production Unit) d = _
  cases d.values.get? name with
  | some value => rfl
  | none => rfl

theorem useEnd_tail (f : Frame) (n : String) :
    (expect .mkay >>= fun _ => writeValue n >>= fun _ => resume lists (.forms f)) =
      resume lists (.useEnd f n) := by
  refine expect_then (p := useValue f n) (fun _ _ => rfl) fun d => ?_
  have hv : d.advance.values = d.values := rfl
  have hs : d.sheet.values = d.values := rfl
  have hw := writeValue_apply n d.advance
  rw [hv] at hw
  rw [useValue, hs]
  cases h : d.values.get? n with
  | some value =>
    rw [h] at hw
    exact bind_ok hw
  | none =>
    rw [h] at hw
    exact bind_error hw

theorem useVariable_then (f : Frame) {d : Draft}
    (h : Keyword.ofWord? d.cursor.token = some .lemme) :
    (useVariable >>= fun _ => resume lists (.forms f)) d = resume lists (.see f) d.advance := by
  have name : (take >>= fun n => resume lists (.useEnd f n)) = resume lists (.usedName f) :=
    take_then fun _ _ => rfl
  have see : (expect .see >>= fun _ => resume lists (.usedName f)) = resume lists (.see f) :=
    expect_resume fun _ _ => rfl
  simp only [useVariable, bind_assoc, useEnd_tail, name, see]
  exact expect_at h

theorem media_then (f : Frame) (m : Medium) :
    (media m.word.spelling >>= fun a => write (m.player a) >>= fun _ =>
      report (m.diagnostic a) >>= fun _ => resume lists (.forms f)) =
    (expect m.word >>= fun _ => resume lists (.address f m)) := by
  have stop (a : String) : (expect .mkay >>= fun _ => write (m.player a) >>= fun _ =>
      report (m.diagnostic a) >>= fun _ => resume lists (.forms f)) =
      resume lists (.addressEnd f m a) := expect_then (fun _ _ => rfl) fun _ => rfl
  have address : (take >>= fun a => resume lists (.addressEnd f m a)) =
      resume lists (.address f m) := take_then fun _ _ => rfl
  simp only [media, bind_assoc, pure_bind, stop, address]
  rfl

theorem audio_then (f : Frame) {d : Draft} (h : Keyword.ofWord? d.cursor.token = some .soundz) :
    (audio >>= fun _ => resume lists (.forms f)) d =
      resume lists (.address f .audio) d.advance := by
  simp only [audio, bind_assoc]
  exact (congrFun (media_then f .audio) d).trans (expect_at h)

theorem video_then (f : Frame) {d : Draft} (h : Keyword.ofWord? d.cursor.token = some .vidz) :
    (video >>= fun _ => resume lists (.forms f)) d =
      resume lists (.address f .video) d.advance := by
  simp only [video, bind_assoc]
  exact (congrFun (media_then f .video) d).trans (expect_at h)

theorem styled_then (f : Frame) (style : Style) {d : Draft}
    (h : Keyword.ofWord? d.cursor.token = some style.word) :
    (styled style.word.spelling style.tag >>= fun _ => resume lists (.forms f)) d =
      resume lists (.styled f style [])
        ((d.sheet.write ("<" ++ style.tag ++ ">")).draft d.cursor.advance) := by
  simp only [styled, bind_assoc, styled_tail]
  exact expect_at h

theorem keyword?_then (F : Option Keyword → Production Unit) (d : Draft) :
    (keyword? >>= F) d = F (Keyword.ofWord? d.cursor.token) d := rfl

theorem construct_then (f : Frame) :
    (construct >>= fun _ => resume lists (.forms f)) = resume lists (.construct f) := by
  funext d
  rw [resume_eq, step, stepConstruct, construct, bind_assoc, keyword?_then]
  have newline_then (h : Keyword.ofWord? d.cursor.token = some .newline) :
      (newline >>= fun _ => resume lists (.forms f)) d =
        resume lists (.forms f) (d.advance.write "<br/>\n") := by
    rw [newline, bind_assoc, expect_at h]
    rfl
  cases h : Keyword.ofWord? d.cursor.token with
  | none => rfl
  | some k =>
    cases k with
    | bold => exact styled_then f .bold h
    | italics => exact styled_then f .italics h
    | newline => exact newline_then h
    | soundz => exact audio_then f h
    | vidz => exact video_then f h
    | _ => rfl

theorem text_then (f : Frame) (d : Draft) :
    (text >>= fun _ => resume lists (.forms f)) d =
      proceed lists d.cursor
        (if isText d.cursor.token then
          .going (.forms f) (d.sheet.write (textPiece d.cursor.token))
        else .refused (.notText d.cursor.token) d.sheet) := by
  have ht : text d = (if isText d.cursor.token then
      .ok () (d.write (textPiece d.cursor.token)).advance
      else .error (.notText d.cursor.token) d) := by
    rw [text, bind_apply, token]
    dsimp only
    split <;> rfl
  by_cases h : isText d.cursor.token = true
  · rw [if_pos h] at ht ⊢
    exact bind_ok ht
  · rw [if_neg h] at ht ⊢
    exact bind_error ht

theorem inline_then (f : Frame) (d : Draft) :
    (Grammar.inline >>= fun _ => resume lists (.forms f)) d =
      proceed lists d.cursor (stepForm f d.cursor.token d.sheet) := by
  rw [Grammar.inline, bind_assoc, keyword?_then, stepForm]
  have gimmeh_then : ((advance >>= fun _ => construct) >>= fun _ => resume lists (.forms f)) d =
      resume lists (.construct f) d.advance := by
    rw [bind_assoc, construct_then]
    rfl
  cases h : Keyword.ofWord? d.cursor.token with
  | none => exact text_then f d
  | some k =>
    cases k with
    | gimmeh => exact gimmeh_then
    | lemme => exact useVariable_then f h
    | i => exact defineVariable_then f h
    | _ => exact text_then f d

/-! ### Blocks -/

theorem before?_iff {d : Draft} {k : Keyword} :
    d.before? k = true ↔ ¬ (d.cursor.token = "" ∨ Keyword.ofWord? d.cursor.token = some k) := by
  simp only [Draft.before?, Bool.and_eq_true, Bool.not_eq_true', ← Bool.not_eq_true,
    Draft.at?_iff, Cursor.exhausted_iff, not_or]
  exact and_comm

theorem not_before? {d : Draft} {k : Keyword} (h : d.before? k = false) :
    d.cursor.token = "" ∨ Keyword.ofWord? d.cursor.token = some k := by
  apply Classical.byContradiction
  intro hn
  rw [before?_iff.mpr hn] at h
  cases h

/-- The end of a frame: what closes it is written before its closing word is looked for. -/
theorem close_then {f : Frame} {F : Production Unit} {d : Draft}
    (ha : F (d.write f.tail).advance = proceed lists d.cursor (f.leave (d.sheet.write f.tail)))
    (hd : d.before? f.closing = false) :
    (write f.tail >>= fun _ => expect f.closing >>= fun _ => F) d =
      resume lists (.forms f) d := by
  rw [resume_eq, step, stepForms, gather, if_pos (not_before? hd)]
  exact (bind_ok rfl).trans (expect_then_apply ha)

theorem forms_then {f : Frame} (hf : f ≠ .body) {F : Production Unit}
    (ha : ∀ d : Draft, F (d.write f.tail).advance =
      proceed lists d.cursor (f.leave (d.sheet.write f.tail))) :
    (repeatWhile (Draft.before? · f.closing) Grammar.inline (consumes_inline.consumesIf _) >>=
      fun _ => write f.tail >>= fun _ => expect f.closing >>= fun _ => F) =
      resume lists (.forms f) := by
  refine repeatWhile_then (fun d hd => ?_) fun d hd => close_then (ha d) hd
  rw [inline_then, resume_eq, step, stepForms, gather, if_neg (before?_iff.mp hd),
    if_neg fun h => hf h.1]

theorem paragraphContent_then :
    (paragraphContent >>= fun _ => resume lists (.forms .body)) =
      (expect .paragraf >>= fun _ => write "<p>" >>= fun _ =>
        resume lists (.forms .paragraph)) := by
  rw [← forms_then (f := .paragraph) (F := resume lists (.forms .body)) (by decide) fun _ => rfl]
  simp only [paragraphContent, bind_assoc]
  rfl

theorem listItem_then :
    (listItem >>= fun _ => resume lists .items) =
      (expect .gimmeh >>= fun _ => resume lists .itemWord) := by
  have item : (expect .item >>= fun _ => write "<li>" >>= fun _ => resume lists (.forms .item)) =
      resume lists .itemWord := expect_then (fun _ _ => rfl) fun _ => rfl
  rw [← item, ← forms_then (f := .item) (F := resume lists .items) (by decide) fun _ => rfl]
  simp only [listItem, bind_assoc]
  rfl

theorem listContent_then :
    (listContent >>= fun _ => resume lists (.forms .body)) =
      (expect .list >>= fun _ => write "<ul>\n" >>= fun _ => resume lists .items) := by
  have items : (repeatWhile (Draft.at? · .gimmeh) listItem (consumes_listItem.consumesIf _) >>=
      fun _ => write "</ul>\n" >>= fun _ => expect .oic >>= fun _ => resume lists (.forms .body)) =
      resume lists .items := by
    refine repeatWhile_then (fun d hd => ?_) fun d hd => ?_
    · have h := Draft.at?_iff.mp hd
      rw [listItem_then, expect_at h, resume_eq .items, step, if_pos h, proceed]
      rfl
    · have h : Keyword.ofWord? d.cursor.token ≠ some .gimmeh := by
        rw [Ne, ← Draft.at?_iff, hd]
        decide
      rw [resume_eq, step, if_neg h]
      exact (bind_ok rfl).trans (expect_then_apply rfl)
  simp only [listContent, bind_assoc, items]

theorem block_then {d : Draft} (h : Keyword.ofWord? d.cursor.token = some .maek) :
    (block lists >>= fun _ => resume lists (.forms .body)) d = resume lists .block d.advance := by
  rw [block, bind_assoc, expect_at h, bind_assoc, keyword?_then, resume_eq, step]
  by_cases hl : lists = true ∧ Keyword.ofWord? d.advance.cursor.token = some .list
  · rw [if_pos hl, if_pos (Bool.and_eq_true_iff.mpr ⟨hl.1, decide_eq_true hl.2⟩), listContent_then,
      expect_at hl.2]
    rfl
  · have hb : ¬ (lists && decide (Keyword.ofWord? d.advance.cursor.token = some .list)) = true :=
      fun hb => hl ⟨(Bool.and_eq_true_iff.mp hb).1,
        of_decide_eq_true (Bool.and_eq_true_iff.mp hb).2⟩
    rw [if_neg hl, if_neg hb, paragraphContent_then]
    exact expect_then_apply rfl

/-! ### The whole program -/

theorem bodyItem_stays (d : Draft) (hd : d.before? .kthxbye = true) :
    (bodyItem lists >>= fun _ => resume lists (.forms .body)) d =
      resume lists (.forms .body) d := by
  have hg : ¬ (d.cursor.token = "" ∨ Keyword.ofWord? d.cursor.token = some Frame.body.closing) :=
    before?_iff.mp hd
  rw [resume_eq, step, stepForms, gather, if_neg hg, bodyItem, bind_assoc, keyword?_then]
  by_cases hm : Keyword.ofWord? d.cursor.token = some .maek
  · rw [if_pos ⟨rfl, hm⟩, hm]
    exact block_then hm
  · rw [if_neg fun h => hm h.2]
    have hi : (Grammar.inline >>= fun _ => resume lists (.forms .body)) d = _ := inline_then .body d
    rw [stepForm] at hi ⊢
    cases h : Keyword.ofWord? d.cursor.token with
    | none => exact text_then .body d
    | some k =>
      rw [h] at hi
      cases k with
      | maek => exact absurd h hm
      | gimmeh => exact hi
      | lemme => exact useVariable_then .body h
      | i => exact defineVariable_then .body h
      | _ => exact text_then .body d

theorem body_then : (body lists >>= fun _ => expect .kthxbye) = resume lists (.forms .body) := by
  rw [body, bind_assoc]
  refine repeatWhile_then bodyItem_stays fun d hd => ?_
  refine Eq.trans ?_ (close_then (f := .body) (F := pure ()) rfl hd)
  simp only [bind_pure_unit]
  rfl

theorem comment_then {d : Draft} (h : Keyword.ofWord? d.cursor.token = some .obtw) :
    (comment >>= fun _ => resume lists .opening) d = resume lists (.comment []) d.advance := by
  simp only [comment, bind_assoc, phrase_then, comment_tail]
  exact expect_at h

theorem title_then {d : Draft} (h : Keyword.ofWord? d.cursor.token = some .gimmeh) :
    (title >>= fun _ => resume lists .head) d = resume lists .titleWord d.advance := by
  have word : (expect .title >>= fun _ => resume lists (.titleText [])) = resume lists .titleWord :=
    expect_resume fun _ _ => rfl
  simp only [title, bind_assoc, phrase_then, titleText_tail, word]
  exact expect_at h

theorem headItem_stays (d : Draft) (hd : d.before? .oic = true) :
    (headItem >>= fun _ => resume lists .head) d = resume lists .head d := by
  rw [resume_eq, step, gather, if_neg (before?_iff.mp hd), headItem, bind_assoc, keyword?_then]
  by_cases h : Keyword.ofWord? d.cursor.token = some .gimmeh
  · rw [if_pos h, if_pos h]
    exact title_then h
  · rw [if_neg h, if_neg h]
    rfl

theorem headWord_tail :
    (expect .head >>= fun _ => repeatWhile (Draft.before? · .oic) headItem (consumes_headItem _) >>=
      fun _ => expect .oic >>= fun _ => resume lists (.forms .body)) = resume lists .headWord := by
  have items : (repeatWhile (Draft.before? · .oic) headItem (consumes_headItem _) >>= fun _ =>
      expect .oic >>= fun _ => resume lists (.forms .body)) = resume lists .head := by
    refine repeatWhile_then headItem_stays fun d hd => ?_
    rw [resume_eq, step, gather, if_pos (not_before? hd)]
    exact expect_then_apply rfl
  rw [items]
  exact expect_resume fun _ _ => rfl

theorem head_then {d : Draft} (h : d.at? .obtw = false) :
    (head >>= fun _ => resume lists (.forms .body)) d = resume lists .opening d := by
  have hc : Keyword.ofWord? d.cursor.token ≠ some .obtw := by
    rw [Ne, ← Draft.at?_iff, h]
    decide
  rw [head, bind_assoc, keyword?_then, resume_eq .opening, step]
  cases hk : Keyword.ofWord? d.cursor.token with
  | none => exact resume_eq (.forms .body) d
  | some k =>
    cases k with
    | obtw => exact absurd hk hc
    | maek =>
      rw [if_pos rfl]
      simp only [bind_assoc, headWord_tail]
      exact expect_at hk
    | _ => exact resume_eq (.forms .body) d

/-- A whole program does what reading it one token at a time does, whatever the draft. -/
theorem program_eq_resume : program lists = resume lists .start := by
  have opening : (repeatWhile (Draft.at? · .obtw) comment (consumes_comment.consumesIf _) >>=
      fun _ => head >>= fun _ => resume lists (.forms .body)) = resume lists .opening := by
    refine repeatWhile_then (fun d hd => ?_) fun d hd => head_then hd
    have h := Draft.at?_iff.mp hd
    rw [comment_then h, resume_eq .opening, step, h]
    rfl
  rw [program, body_then, opening]
  exact expect_resume fun _ _ => rfl

end Shoutmark.Reading
