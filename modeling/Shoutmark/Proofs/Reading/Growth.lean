import Shoutmark.Proofs.Reading.Resume

/-! What is written stays. A program adds to the page, to the names of its variables and to what
there is to tell, and takes nothing back, however it ends. -/

namespace Shoutmark.Reading
open Shoutmark.Grammar

/-- The second sheet has what the first one has, and maybe more after it. -/
structure Sheet.Grows (s s' : Sheet) : Prop where
  html : s.html.toList <+: s'.html.toList
  names : s.values.names <+: s'.values.names
  events : s.events.toList <+: s'.events.toList

namespace Sheet.Grows

variable {s s' s'' : Sheet}

theorem refl (s : Sheet) : s.Grows s := ⟨List.prefix_rfl, List.prefix_rfl, List.prefix_rfl⟩

theorem trans (h : s.Grows s') (h' : s'.Grows s'') : s.Grows s'' :=
  ⟨h.html.trans h'.html, h.names.trans h'.names, h.events.trans h'.events⟩

theorem write (h : s.Grows s') (piece : String) : s.Grows (s'.write piece) := by
  refine ⟨h.html.trans ?_, h.names, h.events⟩
  simp [Sheet.write]

theorem writeSpaced (h : s.Grows s') (words : List String) : s.Grows (s'.writeSpaced words) := by
  refine ⟨h.html.trans ?_, h.names, h.events⟩
  simp [Sheet.writeSpaced]

theorem tell (h : s.Grows s') (e : Event) : s.Grows (s'.tell e) := by
  refine ⟨h.html, h.names, h.events.trans ?_⟩
  simp [Sheet.tell]

theorem define (h : s.Grows s') (name value : String) : s.Grows (s'.define name value) := by
  refine ⟨h.html, h.names.trans ?_, h.events⟩
  show s'.values.names <+: (s'.values.set name value).names
  rw [Variables.names_set]
  split
  · exact List.prefix_rfl
  · exact List.prefix_append _ _

theorem entitle (h : s.Grows s') (title : String) : s.Grows (s'.entitle title) :=
  ⟨h.html, h.names, h.events⟩

theorem headline (h : s.Grows s') (words : List String) : s.Grows (s'.headline words) :=
  ((h.entitle _).tell _).write _

end Sheet.Grows

def Progress.sheet : Progress → Sheet
  | .going _ s | .finished s | .refused _ s => s

/-- Nothing of the sheet is lost. -/
def Progress.Extends (s : Sheet) (p : Progress) : Prop := s.Grows p.sheet

variable {lists : Bool}

theorem extends_stepForms (f : Frame) (t : String) (s : Sheet) :
    (stepForms f t s).Extends s := by
  have closed : s.Grows (s.write f.tail) := (Sheet.Grows.refl s).write f.tail
  refine gather_of closed (fun _ _ => ?_) fun _ => ?_
  · split
    · exact .refl s
    · unfold stepForm
      split
      · exact .refl s
      · exact .refl s
      · exact .refl s
      · split
        · exact (Sheet.Grows.refl s).write _
        · exact .refl s
  · cases f <;> exact closed

theorem extends_stepConstruct (f : Frame) (t : String) (s : Sheet) :
    (stepConstruct f t s).Extends s := by
  unfold stepConstruct
  split
  · exact (Sheet.Grows.refl s).write _
  · exact (Sheet.Grows.refl s).write _
  · exact (Sheet.Grows.refl s).write _
  · exact .refl s
  · exact .refl s
  · exact .refl s

/-- No token takes back what is written. -/
theorem extends_step (q : Place) (t : String) (s : Sheet) : (step lists q t s).Extends s := by
  have same : s.Grows s := .refl s
  cases q with
  | start => exact require_of same fun _ => same
  | opening =>
    rw [step]
    split
    · exact same
    · exact same
    · exact extends_stepForms .body t s
  | comment words => exact gather_of same (fun _ _ => same) fun _ => same.tell _
  | headWord => exact require_of same fun _ => same
  | head =>
    refine gather_of same (fun _ _ => ?_) fun _ => same
    split <;> exact same
  | titleWord => exact require_of same fun _ => same
  | titleText words => exact gather_of same (fun _ _ => same) fun _ => same.headline _
  | forms f => exact extends_stepForms f t s
  | block =>
    rw [step]
    split
    · exact same.write _
    · exact require_of same fun _ => same.write _
  | items =>
    rw [step]
    split
    · exact same
    · exact require_of (same.write _) fun _ => same.write _
  | itemWord => exact require_of same fun _ => same.write _
  | construct f => exact extends_stepConstruct f t s
  | styled f style words =>
    have written := same.writeSpaced words
    exact gather_of written (fun _ _ => same) fun _ => written.write _
  | address f m => exact same
  | addressEnd f m a => exact require_of same fun _ => (same.write _).tell _
  | haz f => exact require_of same fun _ => same
  | name f => exact same
  | it f n => exact require_of same fun _ => same
  | iz f n => exact require_of same fun _ => same
  | value f n words =>
    have defined := same.define n (phraseOf words)
    exact gather_of defined (fun _ _ => same) fun _ => defined.tell _
  | see f => exact require_of same fun _ => same
  | usedName f => exact same
  | useEnd f n =>
    refine require_of same fun _ => ?_
    unfold useValue
    split
    · exact same.write _
    · exact same

theorem grows_of_step {q : Place} {t : String} {s : Sheet} {p : Progress}
    (h : step lists q t s = p) : s.Grows p.sheet := by
  have he : (step lists q t s).Extends s := extends_step q t s
  rw [h] at he
  exact he

/-- From any place on, what a draft holds stays at the front of what it comes to hold. -/
theorem resume_grows (q : Place) (d : Draft) :
    d.sheet.Grows (draftOf (resume lists q d)).sheet := by
  fun_induction resume lists q d with
  | case1 q d q' s h ih => exact (grows_of_step h).trans ih
  | case2 q d s h => exact grows_of_step h
  | case3 q d f s h => exact grows_of_step h

theorem diagnostics_prefix {s s' : Sheet} (h : s.Grows s') :
    diagnosticLines s.events.toList <+: diagnosticLines s'.events.toList := by
  obtain ⟨more, hm⟩ := h.events
  rw [← hm, diagnosticLines_append]
  exact List.prefix_append _ _

end Shoutmark.Reading
