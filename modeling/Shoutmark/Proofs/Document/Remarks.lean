import Shoutmark.Proofs.Document.Reads

/-! What a program holds without a trace on its page: its comments, and the tokens of its head that
no one asks for. Comments are told and leave the place where they stand; what is read after them
does not ask what was told before. -/

namespace Shoutmark.Reading
open Shoutmark.Grammar

/-! ### What was told before -/

/-- The sheet as it is when these events were told before. -/
def Sheet.behind (es : Array Event) (s : Sheet) : Sheet := { s with events := es ++ s.events }

def Progress.behind (es : Array Event) : Progress → Progress
  | .going q s => .going q (s.behind es)
  | .finished s => .finished (s.behind es)
  | .refused f s => .refused f (s.behind es)

variable {lists : Bool} (es : Array Event)

theorem Sheet.behind_tell (e : Event) (s : Sheet) :
    (s.tell e).behind es = (s.behind es).tell e := by
  simp [behind, tell]

theorem Sheet.behind_headline (words : List String) (s : Sheet) :
    (s.headline words).behind es = (s.behind es).headline words := by
  simp [headline, behind, tell, entitle, write]

theorem require_behind (k : Keyword) (t : String) (s : Sheet) (p : Progress) :
    (require k t s p).behind es = require k t (s.behind es) (p.behind es) := by
  unfold require
  split <;> rfl

theorem gather_behind (k : Keyword) (t : String) (s : Sheet) (more next : Progress) :
    (gather k t s more next).behind es =
      gather k t (s.behind es) (more.behind es) (next.behind es) := by
  unfold gather
  split
  · exact require_behind es k t s next
  · rfl

theorem stepForms_behind (f : Frame) (t : String) (s : Sheet) :
    (stepForms f t s).behind es = stepForms f t (s.behind es) := by
  have form : (stepForm f t s).behind es = stepForm f t (s.behind es) := by
    unfold stepForm
    split
    · rfl
    · rfl
    · rfl
    · split <;> rfl
  have more : (if f = .body ∧ Keyword.ofWord? t = some .maek then Progress.going .block s
      else stepForm f t s).behind es =
      if f = .body ∧ Keyword.ofWord? t = some .maek then .going .block (s.behind es)
      else stepForm f t (s.behind es) := by
    split
    · rfl
    · exact form
  have leave : (f.leave (s.write f.tail)).behind es = f.leave ((s.behind es).write f.tail) := by
    cases f <;> rfl
  rw [stepForms, gather_behind, more, leave]
  rfl

theorem stepConstruct_behind (f : Frame) (t : String) (s : Sheet) :
    (stepConstruct f t s).behind es = stepConstruct f t (s.behind es) := by
  unfold stepConstruct
  split <;> rfl

/-- What a token does does not hang on what was told before. -/
theorem step_behind (q : Place) (t : String) (s : Sheet) :
    (step lists q t s).behind es = step lists q t (s.behind es) := by
  cases q with
  | start => exact require_behind es _ t s _
  | opening =>
    rw [step, step]
    split
    · rfl
    · rfl
    · exact stepForms_behind es .body t s
  | comment words =>
    rw [step, step, gather_behind, ← Sheet.behind_tell]
    rfl
  | headWord => exact require_behind es _ t s _
  | head =>
    rw [step, step, gather_behind]
    split <;> rfl
  | titleWord => exact require_behind es _ t s _
  | titleText words =>
    rw [step, step, gather_behind, ← Sheet.behind_headline]
    rfl
  | forms f => exact stepForms_behind es f t s
  | block =>
    rw [step, step]
    split
    · rfl
    · exact require_behind es _ t s _
  | items =>
    rw [step, step]
    split
    · rfl
    · exact require_behind es _ t _ _
  | itemWord => exact require_behind es _ t s _
  | construct f => exact stepConstruct_behind es f t s
  | styled f style words => exact gather_behind es _ t _ _ _
  | address f m => rfl
  | addressEnd f m a =>
    rw [step, step, require_behind, Progress.behind, Sheet.behind_tell]
    rfl
  | haz f => exact require_behind es _ t s _
  | name f => rfl
  | it f n => exact require_behind es _ t s _
  | iz f n => exact require_behind es _ t s _
  | value f n words =>
    rw [step, step, gather_behind, Progress.behind, Progress.behind, Sheet.behind_tell]
    rfl
  | see f => exact require_behind es _ t s _
  | usedName f => rfl
  | useEnd f n =>
    rw [step, step, require_behind]
    congr 1
    have hv : (s.behind es).values = s.values := rfl
    rw [useValue, useValue, hv]
    cases s.values.get? n <;> rfl

theorem feed_behind (p : Progress) (u : List String) :
    feed lists (p.behind es) u = (feed lists p u).behind es := by
  induction u generalizing p with
  | nil => rfl
  | cons t u ih =>
    have hn : (p.behind es).next lists t = (p.next lists t).behind es := by
      cases p with
      | going q s => exact (step_behind es q t s).symm
      | finished s => rfl
      | refused f s => rfl
    show feed lists ((p.behind es).next lists t) u = _
    rw [hn, ih]
    rfl

theorem outcome_behind (p : Progress) :
    (p.behind es).outcome = (p.outcome.1, p.outcome.2.behind es) := by
  cases p <;> rfl

end Shoutmark.Reading

namespace Shoutmark.Document
open Shoutmark.Grammar Shoutmark.Reading

variable {lists : Bool}

/-! ### Comments -/

def commentEvents (comments : List (Words .tldr)) : List Event :=
  comments.map fun ws => .diagnostic (.comment (phraseOf ws.val))

theorem renderComments_eq (comments : List (Words .tldr)) (s : Sheet) :
    renderComments comments s = { s with events := s.events ++ commentEvents comments } := by
  induction comments generalizing s with
  | nil => simp [renderComments, commentEvents]
  | cons ws comments ih =>
    show renderComments comments (s.tell (.diagnostic (.comment (phraseOf ws.val)))) = _
    rw [ih]
    simp [Sheet.tell, commentEvents]

theorem renderComments_blank (comments : List (Words .tldr)) :
    renderComments comments .blank = Sheet.blank.behind (commentEvents comments).toArray := by
  rw [renderComments_eq]
  simp [Sheet.blank, Sheet.behind]

theorem diagnostics_behind (comments : List (Words .tldr)) (s : Sheet) :
    diagnosticLines (s.behind (commentEvents comments).toArray).events.toList =
      (comments.map fun ws => "Comment: " ++ phraseOf ws.val) ++
        diagnosticLines s.events.toList := by
  have lines : diagnosticLines (commentEvents comments) =
      comments.map fun ws => "Comment: " ++ phraseOf ws.val := by
    induction comments with
    | nil => rfl
    | cons ws comments ih =>
      rw [List.map_cons, ← ih]
      rfl
  show diagnosticLines ((commentEvents comments).toArray ++ s.events).toList = _
  rw [Array.toList_append, diagnosticLines_append, lines]

theorem feed_comments {h : String} (hh : Keyword.ofWord? h = some .hai)
    {comments : List (Words .tldr)} {u : List String} (hu : ∀ t ∈ u, t ≠ "")
    (hs : Spelling u (comments.flatMap commentYield)) :
    feed lists .fresh (h :: u) =
      (Progress.going .opening .blank).behind (commentEvents comments).toArray := by
  have hai : step lists .start h .blank = .going .opening .blank := require_of_eq hh .blank _
  rw [Progress.fresh, feed_going_cons, hai, reads_comments comments .blank u hu hs,
    renderComments_blank]
  rfl

/-- A program ends as it does without its comments, which are told first. -/
theorem outcome_comments {h : String} (hh : Keyword.ofWord? h = some .hai)
    {comments : List (Words .tldr)} {u : List String} (hu : ∀ t ∈ u, t ≠ "")
    (hs : Spelling u (comments.flatMap commentYield)) (R : List String) :
    outcomeOf (program lists (.start (h :: (u ++ R)))) =
      ((feed lists (.going .opening .blank) (R ++ ["", ""])).outcome.1,
        (feed lists (.going .opening .blank) (R ++ ["", ""])).outcome.2.behind
          (commentEvents comments).toArray) := by
  rw [← List.cons_append, outcomeOf_program_append, feed_comments hh hu hs, feed_behind,
    outcome_behind]

theorem sheet_draftOf (r : EStateM.Result Fault Draft Unit) :
    (draftOf r).sheet = (outcomeOf r).2 := by
  cases r <;> rfl

/-! ### The head -/

def titleWords (items : List HeadItem) : List (List String) :=
  items.filterMap fun
    | .title ws => some ws.val
    | .junk _ _ _ => none

theorem renderHead_eq (items : List HeadItem) (s : Sheet) :
    renderHead (some items) s = (titleWords items).foldl (fun s ws => s.headline ws) s := by
  induction items generalizing s with
  | nil => rfl
  | cons item items ih =>
    show renderHead (some items) (item.render s) = _
    rw [ih]
    cases item <;> rfl

theorem feed_head {h m w : String} (hh : Keyword.ofWord? h = some .hai)
    (hm : Keyword.ofWord? m = some .maek) (hw : Keyword.ofWord? w = some .head)
    {comments : List (Words .tldr)} {u : List String} (hu : ∀ t ∈ u, t ≠ "")
    (hs : Spelling u (comments.flatMap commentYield)) {items : List HeadItem} {v : List String}
    (hv : ∀ t ∈ v, t ≠ "") (hsv : Spelling v (items.flatMap HeadItem.yield)) :
    feed lists .fresh (h :: (u ++ m :: w :: v)) =
      .going .head ((titleWords items).foldl (fun s ws => s.headline ws)
        (Sheet.blank.behind (commentEvents comments).toArray)) := by
  have maek (s : Sheet) : step lists .opening m s = .going .headWord s := by rw [step, hm]
  have head (s : Sheet) : step lists .headWord w s = .going .head s := require_of_eq hw s _
  rw [← List.cons_append, feed_append, feed_comments hh hu hs, Progress.behind, feed_going_cons,
    maek, feed_going_cons, head, reads_headItems items _ v hv hsv, renderHead_eq]

/-- Comments change nothing but what is told first, and tokens of the head that no one asks for
change nothing at all, whatever comes after them and however the program ends. -/
theorem remarks_immaterial (lists : Bool) {h : String} (hh : Keyword.ofWord? h = some .hai) :
    (∀ (C C' : List (Words .tldr)) (u u' R : List String), (∀ t ∈ u, t ≠ "") →
      (∀ t ∈ u', t ≠ "") → Spelling u (C.flatMap commentYield) →
      Spelling u' (C'.flatMap commentYield) →
        let r := program lists (.start (h :: (u ++ R)))
        let r' := program lists (.start (h :: (u' ++ R)))
        (outcomeOf r').1 = (outcomeOf r).1 ∧ (draftOf r').html = (draftOf r).html ∧
          (draftOf r').values = (draftOf r).values ∧ (draftOf r').title = (draftOf r).title ∧
          ∃ told,
            (draftOf r).diagnostics =
              (C.map fun ws => "Comment: " ++ Text.strip (" ".intercalate ws.val)) ++ told ∧
            (draftOf r').diagnostics =
              (C'.map fun ws => "Comment: " ++ Text.strip (" ".intercalate ws.val)) ++ told) ∧
    (∀ (C : List (Words .tldr)) (items items' : List HeadItem) (m w : String)
      (u v v' S : List String), (∀ t ∈ u, t ≠ "") → (∀ t ∈ v, t ≠ "") → (∀ t ∈ v', t ≠ "") →
      Keyword.ofWord? m = some .maek → Keyword.ofWord? w = some .head →
      Spelling u (C.flatMap commentYield) → Spelling v (items.flatMap HeadItem.yield) →
      Spelling v' (items'.flatMap HeadItem.yield) → titleWords items' = titleWords items →
        let r := program lists (.start (h :: (u ++ m :: w :: v) ++ S))
        let r' := program lists (.start (h :: (u ++ m :: w :: v') ++ S))
        (outcomeOf r').1 = (outcomeOf r).1 ∧ (draftOf r').sheet = (draftOf r).sheet) := by
  constructor
  · intro C C' u u' R hu hu' hs hs' r r'
    have ho : outcomeOf r = _ := outcome_comments hh hu hs R
    have ho' : outcomeOf r' = _ := outcome_comments hh hu' hs' R
    generalize (feed lists (.going .opening .blank) (R ++ ["", ""])).outcome = o at ho ho'
    have hr : (draftOf r).sheet = _ := (sheet_draftOf r).trans (congrArg Prod.snd ho)
    have hr' : (draftOf r').sheet = _ := (sheet_draftOf r').trans (congrArg Prod.snd ho')
    have lines (d : Draft) : d.diagnostics = diagnosticLines d.sheet.events.toList := rfl
    refine ⟨by rw [ho, ho'], ?_, ?_, ?_, diagnosticLines o.2.events.toList, ?_, ?_⟩
    · exact (congrArg Sheet.html hr').trans (congrArg Sheet.html hr).symm
    · exact (congrArg Sheet.values hr').trans (congrArg Sheet.values hr).symm
    · exact (congrArg Sheet.title hr').trans (congrArg Sheet.title hr).symm
    · rw [lines, hr]
      exact diagnostics_behind C _
    · rw [lines, hr']
      exact diagnostics_behind C' _
  · intro C items items' m w u v v' S hu hv hv' hm hw hs hsv hsv' htitles r r'
    have ho : outcomeOf r' = outcomeOf r := by
      rw [outcomeOf_program_append, outcomeOf_program_append, feed_head hh hm hw hu hs hv hsv,
        feed_head hh hm hw hu hs hv' hsv', htitles]
    exact ⟨by rw [ho], by rw [sheet_draftOf, sheet_draftOf, ho]⟩

def aside : List String := ["#OBTW", "#hai", "b", "#tldr"]

/-- A head with one title, and tokens around it. -/
def loudHead : List String := ["#KTHXBYE", "#gimmeh", "Title", "b", "#MKAY", "LIST"]

/-- A comment makes one more line, and the tokens around a title make none, in a program that is
refused in the end. -/
theorem remarks_immaterial_refused :
    (∃ told,
      (draftOf (program true (.start ("#HAI" :: (aside ++ ["a", "#OIC"]))))).diagnostics =
        ["Comment: #hai b"] ++ told ∧
      (draftOf (program true (.start ("#HAI" :: ([] ++ ["a", "#OIC"]))))).diagnostics =
        [] ++ told) ∧
    (draftOf (program true (.start ("#HAI" :: ([] ++ "#MAEK" :: "HEAD" ::
        ["#gimmeh", "Title", "b", "#MKAY"]) ++ ["#OIC", "#OIC"])))).sheet =
      (draftOf (program true (.start ("#HAI" :: ([] ++ "#MAEK" :: "HEAD" :: loudHead) ++
        ["#OIC", "#OIC"])))).sheet := by
  obtain ⟨hcomments, hhead⟩ :=
    remarks_immaterial true (show Keyword.ofWord? "#HAI" = some .hai by decide)
  have hno : Spelling [] (([] : List (Words .tldr)).flatMap commentYield) := .nil
  have haside : Spelling aside ([⟨["#hai", "b"], by decide⟩].flatMap commentYield) :=
    .cons (by decide) (.cons rfl (.cons rfl (.cons (by decide) .nil)))
  have htitle : Spelling ["#gimmeh", "Title", "b", "#MKAY"]
      ([HeadItem.title ⟨["b"], by decide⟩].flatMap HeadItem.yield) :=
    .cons (by decide) (.cons (by decide) (.cons rfl (.cons (by decide) .nil)))
  have hloud : Spelling loudHead
      ([HeadItem.junk "#KTHXBYE" (by decide) (by decide), .title ⟨["b"], by decide⟩,
        .junk "LIST" (by decide) (by decide)].flatMap HeadItem.yield) :=
    .cons rfl (.cons (by decide) (.cons (by decide) (.cons rfl (.cons (by decide)
      (.cons rfl .nil)))))
  obtain ⟨-, -, -, -, told, hr, hr'⟩ :=
    hcomments _ _ aside [] ["a", "#OIC"] (by decide) (nofun) haside hno
  refine ⟨⟨told, ?_, hr'⟩, ?_⟩
  · exact hr.trans (congrArg (· ++ told) (by decide +kernel))
  · exact (hhead _ _ _ "#MAEK" "HEAD" [] _ _ ["#OIC", "#OIC"] (nofun) (by decide) (by decide)
      (by decide) (by decide) hno hloud htitle rfl).2

end Shoutmark.Document
