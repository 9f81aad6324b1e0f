import Shoutmark.Proofs.Reading.Onward
import Shoutmark.Proofs.Reading.Outcome

/-! The constructs that a run reads to their end: comments, titles, media and definitions. Each of
them tells one thing, once its closing word is passed, and nothing else tells anything. So what a
run has told, however it ends, is what these constructs tell, one after the other. -/

namespace Shoutmark.Reading
open Shoutmark.Grammar

variable {lists : Bool}

/-! ### Tokens up to a keyword -/

/-- The tokens from the one at hand on, up to a keyword or the end of the input. -/
def upTo (k : Keyword) (c : Cursor) : List String :=
  (c.token :: c.ahead).takeWhile fun t => t != "" && Keyword.ofWord? t != some k

theorem upTo_cons {k : Keyword} {c : Cursor} (ht : c.token ≠ "")
    (hk : Keyword.ofWord? c.token ≠ some k) : upTo k c = c.token :: upTo k c.advance := by
  have hrest : upTo k c.advance =
      c.ahead.takeWhile fun t => t != "" && Keyword.ofWord? t != some k := by
    rw [upTo, Cursor.token_advance, Cursor.ahead_advance]
    cases c.ahead with
    | nil => rfl
    | cons t rest => rfl
  rw [hrest, upTo, List.takeWhile_cons_of_pos]
  simp [ht, hk]

theorem collect_upTo (k : Keyword) (d : Draft) :
    ∃ d', collect k.spelling d = .ok (upTo k d.cursor) d' ∧ d'.sheet = d.sheet := by
  fun_induction collect k.spelling d with
  | case1 d h =>
    refine ⟨d, ?_, rfl⟩
    have hstop : Keyword.ofWord? d.cursor.token = some k ∨ d.cursor.token = "" := by
      simpa [Keyword.sameWord_spelling_iff] using h
    rw [upTo, List.takeWhile_cons_of_neg]
    rcases hstop with hk | ht
    · simp [hk]
    · simp [ht]
  | case2 d h tokens d' hr ih =>
    obtain ⟨d'', hok, hs⟩ := ih
    rw [hr] at hok
    cases hok
    have hmore : Keyword.ofWord? d.cursor.token ≠ some k ∧ d.cursor.token ≠ "" := by
      simpa [Keyword.sameWord_spelling_iff] using h
    exact ⟨d', by rw [upTo_cons hmore.2 hmore.1, Draft.cursor_advance], hs⟩
  | case3 d h e d' hr ih =>
    obtain ⟨d'', hok, -⟩ := ih
    rw [hr] at hok
    cases hok

/-! ### Constructs -/

/-- What tells something once it is read to its end. -/
inductive Construct
  | comment
  | title
  | media (m : Medium)
  | definition
  deriving DecidableEq, Repr

namespace Construct

def run : Construct → Production Unit
  | comment => Grammar.comment
  | title => Grammar.title
  | media .audio => Grammar.audio
  | media .video => Grammar.video
  | definition => defineVariable

def event : Construct → Draft → Event
  | comment, d => .diagnostic (.comment (phraseOf (upTo .tldr d.advance.cursor)))
  | title, d => .diagnostic (.title (phraseOf (upTo .mkay d.advance.advance.cursor)))
  | media m, d => .diagnostic (m.diagnostic d.advance.cursor.token)
  | definition, d => .variableDefined (definedName d) (phraseOf (upTo .mkay (valueStart d).cursor))

theorem consumes_run (x : Construct) : Consumes x.run := by
  cases x with
  | comment => exact consumes_comment
  | title => exact consumes_title
  | media m =>
    cases m with
    | audio => exact consumes_audio
    | video => exact consumes_video
  | definition => exact consumes_defineVariable

end Construct

/-- What goes on after a keyword goes on from the next token. -/
theorem ok_of_expect {β : Type} {k : Keyword} {F : Production β} {d d' : Draft} {b : β}
    (h : (expect k >>= fun _ => F) d = .ok b d') : F d.advance = .ok b d' := by
  obtain ⟨_, d₁, he, h⟩ := ok_of_bind h
  rw [expect_apply] at he
  split at he
  · cases he
    exact h
  · cases he

/-- What goes on after a phrase has its words and a sheet that is as before. -/
theorem ok_of_phrase {β : Type} {k : Keyword} {F : String → Production β} {d d' : Draft} {b : β}
    (h : (phrase k >>= F) d = .ok b d') :
    ∃ d₁, d₁.sheet = d.sheet ∧ F (phraseOf (upTo k d.cursor)) d₁ = .ok b d' := by
  obtain ⟨d₁, hc, hs⟩ := collect_upTo k d
  have hphrase : phrase k d = .ok (phraseOf (upTo k d.cursor)) d₁ := bind_ok hc
  exact ⟨d₁, hs, (bind_ok hphrase).symm.trans h⟩

theorem events_push {d d₁ d' : Draft} {e : Event} (hs : d₁.sheet = d.sheet)
    (he : d'.events = d₁.events.push e) : d'.events.toList = d.events.toList ++ [e] := by
  have hd : d₁.events = d.events := congrArg Sheet.events hs
  rw [he, hd, Array.toList_push]

theorem events_comment {d d' : Draft} (h : comment d = .ok () d') :
    d'.events.toList = d.events.toList ++ [Construct.comment.event d] := by
  obtain ⟨d₁, hs, h⟩ := ok_of_phrase (ok_of_expect h)
  cases ok_of_expect h
  exact events_push (d := d) hs rfl

theorem events_title {d d' : Draft} (h : title d = .ok () d') :
    d'.events.toList = d.events.toList ++ [Construct.title.event d] := by
  obtain ⟨d₁, hs, h⟩ := ok_of_phrase (ok_of_expect (ok_of_expect h))
  cases ok_of_expect h
  exact events_push (d := d) hs rfl

theorem events_media {m : Medium} {d d' : Draft}
    (h : (media m.word.spelling >>= fun a => write (m.player a) >>= fun _ =>
      report (m.diagnostic a)) d = .ok () d') :
    d'.events.toList = d.events.toList ++ [(Construct.media m).event d] := by
  simp only [media, bind_assoc, pure_bind] at h
  obtain ⟨a, d₁, ha, h⟩ := ok_of_bind (ok_of_expect h)
  cases ha
  cases ok_of_expect h
  exact events_push (d := d) rfl rfl

theorem events_definition {d d' : Draft} (h : defineVariable d = .ok () d') :
    d'.events.toList = d.events.toList ++ [Construct.definition.event d] := by
  have hend := definitionEnd d
  rw [h] at hend
  cases hend with
  | @closed words d₁ hw hs =>
    obtain ⟨d₂, hc, -⟩ := collect_upTo .mkay (valueStart d)
    rw [hw] at hc
    cases hc
    exact events_push (d := d) hs rfl

/-- A construct that is read to its end tells one thing. -/
theorem Construct.events_ok {x : Construct} {d d' : Draft} (h : x.run d = .ok () d') :
    d'.events.toList = d.events.toList ++ [x.event d] := by
  cases x with
  | comment => exact events_comment h
  | title => exact events_title h
  | media m =>
    cases m with
    | audio => exact events_media (m := .audio) h
    | video => exact events_media (m := .video) h
  | definition => exact events_definition h

theorem Construct.events_error {x : Construct} {d d' : Draft} {f : Fault}
    (h : x.run d = .error f d') : d'.events = d.events := by
  cases x with
  | comment => exact congrArg Sheet.events (failsClean_comment d f d' h)
  | title => exact congrArg Sheet.events (failsClean_title d f d' h)
  | media m =>
    cases m with
    | audio => exact congrArg Sheet.events (failsClean_audio d f d' h)
    | video => exact congrArg Sheet.events (failsClean_video d f d' h)
  | definition =>
    have hend := definitionEnd d
    rw [show defineVariable d = .error f d' from h] at hend
    cases hend with
    | refused _ hs => exact congrArg Sheet.events hs
    | unclosed _ hs => exact congrArg Sheet.events hs

/-! ### Where constructs start -/

/-- The construct that a token starts at a place, and the place after it. -/
def Place.starts (q : Place) (t : String) : Option (Construct × Place) :=
  match q, Keyword.ofWord? t with
  | .opening, some .obtw => some (.comment, .opening)
  | .opening, some .i => some (.definition, .forms .body)
  | .head, some .gimmeh => some (.title, .head)
  | .forms f, some .i => some (.definition, .forms f)
  | .construct f, some .soundz => some (.media .audio, .forms f)
  | .construct f, some .vidz => some (.media .video, .forms f)
  | _, _ => none

/-- The place is in the middle of such a construct. -/
def Place.inside : Place → Bool
  | .comment _ | .titleWord | .titleText _ | .address _ _ | .addressEnd _ _ _ | .haz _ | .name _
  | .it _ _ | .iz _ _ | .value _ _ _ => true
  | _ => false

theorem resume_forms_i (f : Frame) {d : Draft} (h : Keyword.ofWord? d.cursor.token = some .i) :
    resume lists (.forms f) d = (defineVariable >>= fun _ => resume lists (.forms f)) d := by
  rw [defineVariable_then f h, resume_eq, step_i f h]
  rfl

/-- Where a construct starts, a run reads it and goes on from the place after it. -/
theorem resume_starts {q q' : Place} {x : Construct} {d : Draft}
    (h : q.starts d.cursor.token = some (x, q')) :
    resume lists q d = (x.run >>= fun _ => resume lists q') d := by
  unfold Place.starts at h
  split at h
  · rename_i hk
    cases h
    rw [Construct.run, comment_then hk, resume_eq .opening, step, hk]
    rfl
  · rename_i hk
    cases h
    rw [Construct.run, ← resume_forms_i .body hk, resume_eq .opening, step, hk]
    exact (resume_eq (.forms .body) d).symm
  · rename_i hk
    cases h
    have hne : d.cursor.token ≠ "" := fun he => by simp [he] at hk
    rw [Construct.run, title_then hk, resume_eq .head, step, gather_of_ne hne (by simp [hk]),
      if_pos hk]
    rfl
  · rename_i f hk
    cases h
    exact resume_forms_i f hk
  · rename_i f hk
    cases h
    rw [Construct.run, audio_then f hk, resume_eq, step, stepConstruct, hk]
    rfl
  · rename_i f hk
    cases h
    rw [Construct.run, video_then f hk, resume_eq, step, stepConstruct, hk]
    rfl
  · cases h

/-- Nothing is told, and no construct is entered. -/
def Progress.Quiet (s : Sheet) : Progress → Prop
  | .going q s' => q.inside = false ∧ s'.events = s.events
  | .finished s' | .refused _ s' => s'.events = s.events

theorem quiet_stepForms (f : Frame) {t : String} (ht : Keyword.ofWord? t ≠ some .i) (s : Sheet) :
    (stepForms f t s).Quiet s := by
  refine gather_of rfl (fun _ _ => ?_) fun _ => ?_
  · split
    · exact ⟨rfl, rfl⟩
    · unfold stepForm
      split
      · exact ⟨rfl, rfl⟩
      · exact ⟨rfl, rfl⟩
      · exact absurd ‹_› ht
      · split
        · exact ⟨rfl, rfl⟩
        · exact rfl
  · cases f with
    | body => exact rfl
    | paragraph => exact ⟨rfl, rfl⟩
    | item => exact ⟨rfl, rfl⟩

theorem quiet_stepConstruct (f : Frame) {t : String}
    (ht : (Place.construct f).starts t = none) (s : Sheet) : (stepConstruct f t s).Quiet s := by
  unfold stepConstruct
  split
  · exact ⟨rfl, rfl⟩
  · exact ⟨rfl, rfl⟩
  · exact ⟨rfl, rfl⟩
  · rename_i hk
    simp [Place.starts, hk] at ht
  · rename_i hk
    simp [Place.starts, hk] at ht
  · exact rfl

/-- A token that starts no construct tells nothing, outside of constructs. -/
theorem quiet_step {q : Place} {t : String} (hq : q.inside = false) (ht : q.starts t = none)
    (s : Sheet) : (step lists q t s).Quiet s := by
  cases q with
  | start => exact require_of rfl fun _ => ⟨rfl, rfl⟩
  | opening =>
    rw [step]
    split
    · rename_i hk
      simp [Place.starts, hk] at ht
    · exact ⟨rfl, rfl⟩
    · exact quiet_stepForms .body (fun hk => by simp [Place.starts, hk] at ht) s
  | headWord => exact require_of rfl fun _ => ⟨rfl, rfl⟩
  | head =>
    refine gather_of rfl (fun _ _ => ?_) fun _ => ⟨rfl, rfl⟩
    split
    · rename_i hk
      simp [Place.starts, hk] at ht
    · exact ⟨rfl, rfl⟩
  | forms f => exact quiet_stepForms f (fun hk => by simp [Place.starts, hk] at ht) s
  | block =>
    rw [step]
    split
    · exact ⟨rfl, rfl⟩
    · exact require_of rfl fun _ => ⟨rfl, rfl⟩
  | items =>
    rw [step]
    split
    · exact ⟨rfl, rfl⟩
    · exact require_of rfl fun _ => ⟨rfl, rfl⟩
  | itemWord => exact require_of rfl fun _ => ⟨rfl, rfl⟩
  | construct f => exact quiet_stepConstruct f ht s
  | styled f style words => exact gather_of rfl (fun _ _ => ⟨rfl, rfl⟩) fun _ => ⟨rfl, rfl⟩
  | see f => exact require_of rfl fun _ => ⟨rfl, rfl⟩
  | usedName f => exact ⟨rfl, rfl⟩
  | useEnd f n =>
    refine require_of rfl fun _ => ?_
    unfold useValue
    split
    · exact ⟨rfl, rfl⟩
    · exact rfl
  | _ => cases hq

theorem quiet_of_step {q : Place} {t : String} {s : Sheet} {p : Progress}
    (hq : q.inside = false) (ht : q.starts t = none) (h : step lists q t s = p) : p.Quiet s := by
  rw [← h]
  exact quiet_step hq ht s

/-! ### Runs -/

/-- The place after a construct is in the middle of none, and takes no token but a fitting one. -/
theorem outside_of_starts {q q' : Place} {t : String} {x : Construct}
    (h : q.starts t = some (x, q')) : q'.inside = false ∧ q'.takes = false := by
  unfold Place.starts at h
  split at h <;> cases h <;> exact ⟨rfl, rfl⟩

/-- Reading a construct leaves less to read, as a step does. -/
theorem starts_decreases {q q' : Place} {x : Construct} {d d' : Draft}
    (h : q.starts d.cursor.token = some (x, q')) (hr : x.run d = .ok () d') :
    2 * d'.remaining + q'.takes.toNat < 2 * d.remaining + q.takes.toNat := by
  have hlt : d'.remaining < d.remaining := x.consumes_run d () d' hr
  rw [(outside_of_starts h).2, Bool.toNat_false]
  omega

/-- A run from a place on, construct by construct: those that it reads to their end, in order and
each with the draft it starts on, and how the run ends. -/
def course (lists : Bool) (q : Place) (d : Draft) :
    List (Construct × Draft) × EStateM.Result Fault Draft Unit :=
  match _ : q.starts d.cursor.token with
  | some (x, q') =>
    match _ : x.run d with
    | .ok () d' =>
      let rest := course lists q' d'
      ((x, d) :: rest.1, rest.2)
    | .error f d' => ([], .error f d')
  | none =>
    match _ : step lists q d.cursor.token d.sheet with
    | .going q' s => course lists q' (s.draft d.cursor.advance)
    | .finished s => ([], .ok () (s.draft d.cursor.advance))
    | .refused f s => ([], .error f (s.draft (faultCursor f d.cursor)))
termination_by 2 * d.remaining + q.takes.toNat
decreasing_by
  · exact starts_decreases ‹_› ‹_›
  · exact resume_decreases ‹_›

/-- A course leads where the run leads. -/
theorem course_end (q : Place) (d : Draft) : (course lists q d).2 = resume lists q d := by
  fun_induction course lists q d with
  | case1 q d x q' hx d' hr rest ih => rw [resume_starts hx, bind_ok hr, ih]
  | case2 q d x q' hx f d' hr => rw [resume_starts hx, bind_error hr]
  | case3 q d hx q' s hs ih => rw [resume_eq, hs, proceed, ih]
  | case4 q d hx s hs => rw [resume_eq, hs, proceed]
  | case5 q d hx f s hs => rw [resume_eq, hs, proceed]

/-- What a run tells is what its constructs tell, in order. -/
theorem course_events {q : Place} (hq : q.inside = false) (d : Draft) :
    (draftOf (course lists q d).2).events.toList =
      d.events.toList ++ (course lists q d).1.map fun x => x.1.event x.2 := by
  fun_induction course lists q d with
  | case1 q d x q' hx d' hr rest ih =>
    rw [ih (outside_of_starts hx).1, x.events_ok hr, List.append_assoc]
    rfl
  | case2 q d x q' hx f d' hr =>
    rw [List.map_nil, List.append_nil, draftOf, x.events_error hr]
  | case3 q d hx q' s hs ih =>
    obtain ⟨hq', he⟩ : q'.inside = false ∧ s.events = d.events := quiet_of_step hq hx hs
    rw [ih hq', ← he]
    rfl
  | case4 q d hx s hs =>
    have he : s.events = d.events := quiet_of_step hq hx hs
    rw [List.map_nil, List.append_nil, ← he]
    rfl
  | case5 q d hx f s hs =>
    have he : s.events = d.events := quiet_of_step hq hx hs
    rw [List.map_nil, List.append_nil, ← he]
    rfl

/-- The constructs that a program reads to their end, in order, each with the draft that it starts
on. -/
def completed (lists : Bool) (tokens : List String) : List (Construct × Draft) :=
  (course lists .start (.start tokens)).1

/-- So what a program tells is what these tell, be it read to its end or not. -/
theorem events_program (lists : Bool) (tokens : List String) :
    (draftOf (program lists (.start tokens))).events.toList =
      (completed lists tokens).map fun x => x.1.event x.2 := by
  rw [program_eq_resume, ← course_end]
  exact course_events rfl (.start tokens)

end Shoutmark.Reading
