import Shoutmark.Proofs.Document.Nesting

/-! Variables are a shorthand. While a body is read, its definitions can be left out and its uses
replaced by the tokens of the value that is current there; what comes of it is a body that is read
to the same page, with no variable in it. The head keeps the first block of the body from being
taken for one once nothing stands before it. -/

namespace Shoutmark.Reading
open Shoutmark.Grammar

/-! ### Leaving definitions out and uses replaced -/

def Place.inVariable : Place → Bool
  | .haz _ | .name _ | .it _ _ | .iz _ _ | .value _ _ _ | .see _ | .usedName _ | .useEnd _ _ => true
  | _ => false

def Progress.inVariable : Progress → Bool
  | .going q _ => q.inVariable
  | _ => false

/-- Names with the tokens of their values, the latest definition first. -/
abbrev Definitions := List (String × List String)

/-- The definition that a token completes. -/
def Place.completed (t : String) : Place → Definitions
  | .value _ n words => if Keyword.ofWord? t = some .mkay then [(n, words)] else []
  | _ => []

/-- The name whose use ends here. -/
def Place.use? : Place → Option String
  | .useEnd _ n => some n
  | _ => none

/-- What stands for a token that is read here and leads on to the given progress. -/
def Place.replacement (known : Definitions) (t : String) (next : Progress) (q : Place) :
    List String :=
  match q.use? with
  | some n => (known.lookup n).getD []
  | none => if q.inVariable || next.inVariable then [] else [t]

/-- The tokens without the definitions among them, and with values in the place of uses. -/
def inlined (lists : Bool) : Progress → Definitions → List String → List String
  | .going q s, known, t :: u =>
    q.replacement known t (step lists q t s) ++
      inlined lists (step lists q t s) (q.completed t ++ known) u
  | _, _, u => u

variable {lists : Bool} {q : Place} {s s' : Sheet}

theorem Place.replacement_of_inVariable (hq : q.inVariable = true) (hu : q.use? = none)
    (known : Definitions) (t : String) (next : Progress) : q.replacement known t next = [] := by
  rw [replacement, hu]
  exact if_pos (by rw [hq, Bool.true_or])

theorem inlined_opening {known : Definitions} {t : String} {p : Progress}
    (h : step lists q t s = p) (hp : p.inVariable = true) (hu : q.use? = none)
    (u : List String) :
    inlined lists (.going q s) known (t :: u) = inlined lists p (q.completed t ++ known) u := by
  have hr : q.replacement known t p = [] := by
    rw [Place.replacement, hu]
    exact if_pos (by rw [hp, Bool.or_true])
  rw [inlined, h, hr, List.nil_append]

theorem inlined_inside {known : Definitions} {t : String} {p : Progress}
    (h : step lists q t s = p) (hq : q.inVariable = true) (hu : q.use? = none)
    (u : List String) :
    inlined lists (.going q s) known (t :: u) = inlined lists p (q.completed t ++ known) u := by
  rw [inlined, h, Place.replacement_of_inVariable hq hu, List.nil_append]

/-- A value that reads as the text it is: words, none of them a punctuation mark, and no blank at
either end. -/
structure PlainValue (ws : List String) : Prop where
  nonempty : ws ≠ []
  words : ∀ w ∈ ws, isText w = true ∧ w ∉ punctuation
  first : ∀ w ∈ ws.head?, ∀ c ∈ w.toList.head?, Text.isBlank c = false
  last : ∀ w ∈ ws.getLast?, ∀ c ∈ w.toList.getLast?, Text.isBlank c = false

/-- If a use ends here, the value current here is plain. -/
def Place.UsesPlain (known : Definitions) (q : Place) : Prop :=
  ∀ n ∈ q.use?, ∃ ws ∈ known.lookup n, PlainValue ws

/-- Every use reads a plain value. -/
def UsesPlain (lists : Bool) : Progress → Definitions → List String → Prop
  | .going q s, known, t :: u =>
    q.UsesPlain known ∧ UsesPlain lists (step lists q t s) (q.completed t ++ known) u
  | _, _, _ => True

/-! ### Sheets without variables -/

/-- The second sheet shows what the first one shows, and no variable has a value. -/
structure Sheet.Resolved (s s' : Sheet) : Prop where
  page : s'.page = s.page
  title : s'.title = s.title
  diagnostics : diagnosticLines s'.events.toList = diagnosticLines s.events.toList
  values : s'.values = .empty

namespace Sheet.Resolved

theorem write (h : s.Resolved s') (piece : String) : (s.write piece).Resolved (s'.write piece) := by
  refine ⟨?_, h.title, h.diagnostics, h.values⟩
  rw [page_write, page_write, h.page]

theorem writeSpaced (h : s.Resolved s') (words : List String) :
    (s.writeSpaced words).Resolved (s'.writeSpaced words) := by
  refine ⟨?_, h.title, h.diagnostics, h.values⟩
  rw [page_writeSpaced, page_writeSpaced, h.page]

theorem tell (h : s.Resolved s') (e : Event) : (s.tell e).Resolved (s'.tell e) := by
  refine ⟨h.page, h.title, ?_, h.values⟩
  simp only [Sheet.tell, Array.toList_push, diagnosticLines_append, h.diagnostics]

/-- A definition changes the first sheet only, and nothing that is shown. -/
theorem define (h : s.Resolved s') (name value : String) :
    ((s.define name value).tell (.variableDefined name value)).Resolved s' := by
  refine ⟨h.page, h.title, ?_, h.values⟩
  rw [h.diagnostics]
  show _ = diagnosticLines (s.events.push (.variableDefined name value)).toList
  rw [Array.toList_push, diagnosticLines_append]
  exact (List.append_nil _).symm

end Sheet.Resolved

/-- The values are those of the definitions. -/
def Known (known : Definitions) (v : Variables) : Prop :=
  ∀ n, v.get? n = (known.lookup n).map phraseOf

theorem Known.set {known : Definitions} {v : Variables} (h : Known known v) (name : String)
    (words : List String) : Known ((name, words) :: known) (v.set name (phraseOf words)) := by
  intro n
  by_cases hn : n = name
  · subst hn
    rw [Variables.get?_set_self, List.lookup_cons_self]
    rfl
  · rw [Variables.get?_set_of_ne hn, List.lookup_cons, beq_false_of_ne hn]
    exact h n

/-! ### Plain values as text -/

theorem spaced_eq {ws : List String} (h : ws ≠ []) :
    String.join (ws.map (· ++ " ")) = " ".intercalate ws ++ " " := by
  induction ws with
  | nil => exact absurd rfl h
  | cons w ws ih =>
    rw [List.map_cons, String.join_cons]
    by_cases hws : ws = []
    · simp [hws]
    · rw [ih hws, String.intercalate_cons_of_ne_nil hws, ← String.append_assoc]

theorem intercalate_cons (w : String) (ws : List String) :
    ∃ rest, " ".intercalate (w :: ws) = w ++ rest := by
  by_cases h : ws = []
  · exact ⟨"", by simp [h]⟩
  · refine ⟨" " ++ " ".intercalate ws, ?_⟩
    rw [String.intercalate_cons_of_ne_nil h, String.append_assoc]

theorem intercalate_concat (ws : List String) (w : String) :
    ∃ front, " ".intercalate (ws ++ [w]) = front ++ w := by
  by_cases h : ws = []
  · exact ⟨"", by simp [h]⟩
  · refine ⟨" ".intercalate ws ++ " ", ?_⟩
    rw [String.intercalate_append_of_ne_nil h (List.cons_ne_nil _ _), String.intercalate_singleton]

theorem PlainValue.phraseOf_eq {ws : List String} (h : PlainValue ws) :
    phraseOf ws = " ".intercalate ws := by
  have long {w : String} (hw : w ∈ ws) : w.toList ≠ [] := by
    have ht := (h.words w hw).1
    intro he
    rw [String.toList_eq_nil_iff.mp he] at ht
    cases ht
  refine Text.strip_eq_self (fun c hc => ?_) fun c hc => ?_
  · obtain ⟨w, rest, rfl⟩ := List.exists_cons_of_ne_nil h.nonempty
    obtain ⟨tail, ht⟩ := intercalate_cons w rest
    rw [ht, String.toList_append, List.head?_append_of_ne_nil _ (long List.mem_cons_self)] at hc
    exact h.first w rfl c hc
  · obtain ⟨front, w, rfl⟩ : ∃ front w, ws = front ++ [w] :=
      ⟨_, _, (List.dropLast_append_getLast h.nonempty).symm⟩
    obtain ⟨lead, hl⟩ := intercalate_concat front w
    rw [hl, String.toList_append,
      List.getLast?_append_of_ne_nil _ (long List.mem_concat_self)] at hc
    exact h.last w List.getLast?_concat c hc

theorem feed_words {ws : List String}
    (h : ∀ w ∈ ws, isText w = true ∧ w ∉ punctuation) (f : Frame) (s : Sheet) :
    feed lists (.going (.forms f) s) ws = .going (.forms f) (s.writeSpaced ws) := by
  induction ws generalizing s with
  | nil => simp [Sheet.writeSpaced]
  | cons w ws ih =>
    obtain ⟨ht, hp⟩ := h w List.mem_cons_self
    rw [feed_going_cons, step, Document.stepForms_text f ht, textPiece, if_neg hp,
      ih fun w hw => h w (List.mem_cons_of_mem _ hw)]
    simp [Sheet.writeSpaced, Sheet.write]

theorem Sheet.Resolved.value (h : s.Resolved s') {ws : List String}
    (hws : PlainValue ws) : (s.write (phraseOf ws ++ " ")).Resolved (s'.writeSpaced ws) := by
  refine ⟨?_, h.title, h.diagnostics, h.values⟩
  rw [page_write, page_writeSpaced, h.page, spaced_eq hws.nonempty, hws.phraseOf_eq]

/-! ### One token -/

def Place.isPlain : Place → Bool
  | .forms _ | .block | .items | .itemWord | .construct _ | .styled _ _ _ | .address _ _
  | .addressEnd _ _ _ => true
  | _ => false

/-- The place that a definition or a use stands at. -/
def Place.home : Place → Place
  | .haz f | .name f | .it f _ | .iz f _ | .value f _ _ | .see f | .usedName f | .useEnd f _ =>
    .forms f
  | q => q

/-- What a token does at a plain place, with and without variables: it opens a definition or a use,
or it does the same to both sheets. -/
inductive Copied (q : Place) (s s' : Sheet) : Progress → Progress → Prop
  | opens {q' : Place} {p' : Progress} : q'.inVariable = true → q'.home = q →
      Copied q s s' (.going q' s) p'
  | going {q' : Place} {e e' : Sheet} : q'.isPlain = true → e.values = s.values → e.Resolved e' →
      Copied q s s' (.going q' e) (.going q' e')
  | finished {e e' : Sheet} : e.Resolved e' → Copied q s s' (.finished e) (.finished e')
  | refused {f : Fault} {e : Sheet} {p' : Progress} : Copied q s s' (.refused f e) p'

theorem copied_require {k : Keyword} {t : String} {e e' : Sheet} {p p' : Progress}
    (h : Copied q s s' p p') : Copied q s s' (require k t e p) (require k t e' p') := by
  unfold require
  split
  · exact h
  · exact .refused

theorem copied_gather {k : Keyword} {t : String} {e e' : Sheet} {p p' r r' : Progress}
    (more : Copied q s s' p p') (next : Copied q s s' r r') :
    Copied q s s' (gather k t e p r) (gather k t e' p' r') := by
  unfold gather
  split
  · exact copied_require next
  · exact more

theorem copied_stepForms (h : s.Resolved s') (f : Frame) (t : String) :
    Copied (.forms f) s s' (stepForms f t s) (stepForms f t s') := by
  refine copied_gather ?_ ?_
  · split
    · exact .going rfl rfl h
    · unfold stepForm
      split
      · exact .going rfl rfl h
      · exact .opens rfl rfl
      · exact .opens rfl rfl
      · split
        · exact .going rfl rfl (h.write _)
        · exact .refused
  · cases f with
    | body => exact .finished (h.write _)
    | paragraph => exact .going rfl rfl (h.write _)
    | item => exact .going rfl rfl (h.write _)

theorem copied_stepConstruct (h : s.Resolved s') (f : Frame) (t : String) :
    Copied q s s' (stepConstruct f t s) (stepConstruct f t s') := by
  unfold stepConstruct
  split
  · exact .going rfl rfl (h.write _)
  · exact .going rfl rfl (h.write _)
  · exact .going rfl rfl (h.write _)
  · exact .going rfl rfl h
  · exact .going rfl rfl h
  · exact .refused

theorem copied_step (hq : q.isPlain = true) (h : s.Resolved s') (t : String) :
    Copied q s s' (step lists q t s) (step lists q t s') := by
  cases q with
  | forms f => exact copied_stepForms h f t
  | block =>
    rw [step, step]
    split
    · exact .going rfl rfl (h.write _)
    · exact copied_require (.going rfl rfl (h.write _))
  | items =>
    rw [step, step]
    split
    · exact .going rfl rfl h
    · exact copied_require (.going rfl rfl (h.write _))
  | itemWord => exact copied_require (.going rfl rfl (h.write _))
  | construct f => exact copied_stepConstruct h f t
  | styled f style words =>
    exact copied_gather (.going rfl rfl h) (.going rfl rfl ((h.writeSpaced _).write _))
  | address f m => exact .going rfl rfl h
  | addressEnd f m a => exact copied_require (.going rfl rfl ((h.write _).tell _))
  | _ => cases hq

/-- What a token does inside of a definition or a use: only the end of a use shows. -/
inductive Absorbed (known : Definitions) (q : Place) (s s' : Sheet) (t : String) : Progress → Prop
  | going {q' : Place} {e : Sheet} : q.use? = none →
      (q'.isPlain = true ∨ q'.inVariable = true) → q'.home = q.home → e.Resolved s' →
      Known (q.completed t ++ known) e.values → Absorbed known q s s' t (.going q' e)
  | used {f : Frame} {n : String} {ws : List String} : q = .useEnd f n →
      known.lookup n = some ws →
      Absorbed known q s s' t (.going (.forms f) (s.write (phraseOf ws ++ " ")))
  | refused {f : Fault} {e : Sheet} : Absorbed known q s s' t (.refused f e)

theorem absorbed_step {known : Definitions} (hq : q.inVariable = true) (h : s.Resolved s')
    (hk : Known known s.values) (t : String) : Absorbed known q s s' t (step lists q t s) := by
  cases q with
  | haz f => exact require_of .refused fun _ => .going rfl (Or.inr rfl) rfl h hk
  | name f => exact .going rfl (Or.inr rfl) rfl h hk
  | it f n => exact require_of .refused fun _ => .going rfl (Or.inr rfl) rfl h hk
  | iz f n => exact require_of .refused fun _ => .going rfl (Or.inr rfl) rfl h hk
  | value f n words =>
    refine gather_of .refused (fun _ ht => ?_) fun ht => ?_
    · refine .going rfl (Or.inr rfl) rfl h ?_
      rw [Place.completed, if_neg ht]
      exact hk
    · refine .going rfl (Or.inl rfl) rfl (h.define n (phraseOf words)) ?_
      rw [Place.completed, if_pos ht]
      exact hk.set n words
  | see f => exact require_of .refused fun _ => .going rfl (Or.inr rfl) rfl h hk
  | usedName f => exact .going rfl (Or.inr rfl) rfl h hk
  | useEnd f n =>
    refine require_of .refused fun _ => ?_
    rw [useValue, hk n]
    cases hn : known.lookup n with
    | none => exact .refused
    | some ws => exact .used rfl hn
  | _ => cases hq

/-- Where a token leads, and where what stands for it leads without variables. -/
inductive Matched (known : Definitions) : Progress → Progress → Prop
  | going {q : Place} {e e' : Sheet} : (q.isPlain = true ∨ q.inVariable = true) →
      e.Resolved e' → Known known e.values → Matched known (.going q e) (.going q.home e')
  | finished {e e' : Sheet} : e.Resolved e' → Matched known (.finished e) (.finished e')
  | refused {f : Fault} {e : Sheet} {p' : Progress} : Matched known (.refused f e) p'

theorem Place.inVariable_of_isPlain (hq : q.isPlain = true) : q.inVariable = false := by
  cases q with
  | forms | block | items | itemWord | construct | styled | address | addressEnd => rfl
  | _ => cases hq

theorem Place.home_of_isPlain (hq : q.isPlain = true) : q.home = q := by
  cases q with
  | forms | block | items | itemWord | construct | styled | address | addressEnd => rfl
  | _ => cases hq

theorem Place.completed_of_isPlain (hq : q.isPlain = true) (t : String) : q.completed t = [] := by
  cases q with
  | value => cases hq
  | _ => rfl

theorem Place.replacement_of_isPlain (hq : q.isPlain = true) (known : Definitions) (t : String)
    (next : Progress) : q.replacement known t next = if next.inVariable then [] else [t] := by
  cases q with
  | forms | block | items | itemWord | construct | styled | address | addressEnd => rfl
  | _ => cases hq

/-- At a plain place a token stays unless it opens a definition or a use. -/
theorem matched_plain {known : Definitions} (hq : q.isPlain = true) (h : s.Resolved s')
    (hk : Known known s.values) (t : String) :
    Matched (q.completed t ++ known) (step lists q t s)
      (feed lists (.going q.home s') (q.replacement known t (step lists q t s))) := by
  rw [Place.replacement_of_isPlain hq, Place.home_of_isPlain hq, Place.completed_of_isPlain hq]
  have hstep : Copied q s s' (step lists q t s) (step lists q t s') := copied_step hq h t
  have hfeed : feed lists (.going q s') [t] = step lists q t s' := rfl
  generalize step lists q t s' = p' at hstep hfeed
  generalize step lists q t s = p at hstep ⊢
  cases hstep with
  | @opens q' _ hv hh =>
    rw [show Progress.inVariable (.going q' s) = true from hv, if_pos rfl, feed_nil, ← hh]
    exact .going (Or.inr hv) h hk
  | @going q' e e' hq' hv he =>
    have hno : Progress.inVariable (.going q' e) = false := Place.inVariable_of_isPlain hq'
    have hm : Matched known (.going q' e) (.going q'.home e') := .going (Or.inl hq') he (hv ▸ hk)
    rw [Place.home_of_isPlain hq'] at hm
    rw [hno, if_neg Bool.false_ne_true, hfeed]
    exact hm
  | @finished e e' he =>
    have hno : Progress.inVariable (.finished e) = false := rfl
    rw [hno, if_neg Bool.false_ne_true, hfeed]
    exact .finished he
  | refused => exact .refused

/-- Inside of a definition or a use no token stays, and its end is where the value stands. -/
theorem matched_variable {known : Definitions} (hq : q.inVariable = true) (h : s.Resolved s')
    (hk : Known known s.values) (hp : q.UsesPlain known) (t : String) :
    Matched (q.completed t ++ known) (step lists q t s)
      (feed lists (.going q.home s') (q.replacement known t (step lists q t s))) := by
  have hstep : Absorbed known q s s' t (step lists q t s) := absorbed_step hq h hk t
  generalize step lists q t s = p at hstep ⊢
  cases hstep with
  | going hu hq' hh he hk' =>
    rw [Place.replacement_of_inVariable hq hu, feed_nil, ← hh]
    exact .going hq' he hk'
  | @used f n ws hend hn =>
    subst hend
    obtain ⟨ws', hws', hplain⟩ := hp n rfl
    cases hws'.symm.trans hn
    have hr (next : Progress) : (Place.useEnd f n).replacement known t next = ws := by
      simp [Place.replacement, Place.use?, hn]
    rw [hr, Place.home, feed_words hplain.words]
    exact .going (Or.inl rfl) (h.value hplain) hk
  | refused => exact .refused

/-! ### A whole body -/

@[simp] theorem inlined_finished (known : Definitions) (u : List String) :
    inlined lists (.finished s) known u = u := by
  cases u <;> rfl

/-- What a body is read to is shown by the body without its variables. -/
theorem feed_inlined {known : Definitions} {u : List String}
    (hq : q.isPlain = true ∨ q.inVariable = true) (h : s.Resolved s')
    (hk : Known known s.values) (hp : UsesPlain lists (.going q s) known u) {e : Sheet}
    (hu : feed lists (.going q s) u = .finished e) :
    ∃ e', feed lists (.going q.home s') (inlined lists (.going q s) known u) = .finished e' ∧
      e.Resolved e' := by
  induction u generalizing q s s' known with
  | nil => cases hu
  | cons t u ih =>
    obtain ⟨huse, hp⟩ := hp
    rw [feed_going_cons] at hu
    have hstep : Matched (q.completed t ++ known) (step lists q t s)
        (feed lists (.going q.home s') (q.replacement known t (step lists q t s))) := by
      rcases hq with hq | hq
      · exact matched_plain hq h hk t
      · exact matched_variable hq h hk huse t
    rw [inlined, feed_append]
    generalize feed lists (.going q.home s') _ = p' at hstep ⊢
    generalize step lists q t s = p at hstep hu hp ⊢
    cases hstep with
    | going hq' he hk' => exact ih hq' he hk' hp hu
    | @finished e₁ e₁' he =>
      rw [feed_finished] at hu
      cases hu
      exact ⟨e₁', by rw [inlined_finished, feed_finished], he⟩
    | refused =>
      rw [feed_refused] at hu
      cases hu

end Shoutmark.Reading

namespace Shoutmark.Document
open Shoutmark.Grammar Shoutmark.Reading

variable {lists : Bool}

/-! ### Definitions and uses -/

theorem inlined_value (f : Frame) (n : String) {m : String} (hm : Keyword.ofWord? m = some .mkay)
    {ws : List String} (hws : ∀ w ∈ ws, w ≠ "" ∧ Keyword.ofWord? w ≠ some .mkay)
    (gathered : List String) (s : Sheet) (known : Definitions) (u : List String) :
    inlined lists (.going (.value f n gathered) s) known (ws ++ m :: u) =
      inlined lists (.going (.forms f) ((s.define n (phraseOf (gathered ++ ws))).tell
        (.variableDefined n (phraseOf (gathered ++ ws))))) ((n, gathered ++ ws) :: known) u := by
  induction ws generalizing gathered with
  | nil =>
    have close : step lists (.value f n gathered) m s = _ := gather_of_eq hm _ _ _
    rw [List.nil_append, List.append_nil, inlined_inside close rfl rfl, Place.completed, if_pos hm]
    rfl
  | cons w ws ih =>
    obtain ⟨hne, hk⟩ := hws w List.mem_cons_self
    have more : step lists (.value f n gathered) w s = _ := gather_of_ne hne hk _ _ _
    have hrest := ih (fun x hx => hws x (List.mem_cons_of_mem w hx)) (gathered ++ [w])
    rw [List.append_assoc] at hrest
    rw [List.cons_append, inlined_inside more rfl rfl, Place.completed, if_neg hk]
    exact hrest

theorem eq_of_spelling {k : Keyword} {ws : Words k} {v : List String} (h : Spelling v ws.yield) :
    v = ws.val := by
  have hf : List.Forall₂ (fun t a => Spells t (.token a)) v ws.val :=
    List.forall₂_map_right_iff.mp h
  exact List.forall₂_eq_eq_eq ▸ hf

/-- A definition is left out as a whole, and is the latest one from then on. -/
theorem inlined_define (f : Frame) (n : String) (ws : Words .mkay) {v : List String}
    (hne : ∀ t ∈ v, t ≠ "") (hv : Spelling v (Form.define n ws).yield) (s : Sheet)
    (known : Definitions) (u : List String) :
    inlined lists (.going (.forms f) s) known (v ++ u) =
      inlined lists (.going (.forms f) ((Form.define n ws).render s)) ((n, ws.val) :: known) u := by
  rcases hv with _ | ⟨hi, _ | ⟨hhaz, _ | ⟨rfl, _ | ⟨hit, _ | ⟨hiz, hvalue⟩⟩⟩⟩⟩
  obtain ⟨x, y, rfl, hx, hy⟩ := spelling_append.mp hvalue
  cases eq_of_spelling hx
  rcases hy with _ | ⟨hm, _ | _⟩
  have haz : step lists (.haz f) _ s = .going (.name f) s := require_of_eq hhaz s _
  have name (n : String) : step lists (.name f) n s = .going (.it f n) s := rfl
  have it (n : String) : step lists (.it f n) _ s = .going (.iz f n) s := require_of_eq hit s _
  have iz (n : String) : step lists (.iz f n) _ s = .going (.value f n []) s :=
    require_of_eq hiz s _
  have hws : ∀ w ∈ ws.val, w ≠ "" ∧ Keyword.ofWord? w ≠ some .mkay := by
    intro w hw
    exact ⟨hne w (by simp [hw]), ws.property w hw⟩
  rw [List.cons_append, inlined_opening (step_i f hi s) rfl rfl]
  rw [List.cons_append, inlined_inside haz rfl rfl]
  rw [List.cons_append, inlined_inside (name _) rfl rfl]
  rw [List.cons_append, inlined_inside (it _) rfl rfl]
  rw [List.cons_append, inlined_inside (iz _) rfl rfl]
  rw [List.append_assoc]
  exact inlined_value f _ hm hws [] s known u

/-- In the place of a use stand the tokens of the value that is current there. -/
theorem inlined_use (f : Frame) (n : String) {v : List String}
    (hv : Spelling v (Form.use n).yield) {s : Sheet} (hs : (Form.use n).Has s.values)
    (known : Definitions) (u : List String) :
    inlined lists (.going (.forms f) s) known (v ++ u) =
      (known.lookup n).getD [] ++
        inlined lists (.going (.forms f) ((Form.use n).render s)) known u := by
  rcases hv with _ | ⟨hlemme, _ | ⟨hsee, _ | ⟨rfl, _ | ⟨hmkay, _ | _⟩⟩⟩⟩
  have see : step lists (.see f) _ s = .going (.usedName f) s := require_of_eq hsee s _
  have name (n : String) : step lists (.usedName f) n s = .going (.useEnd f n) s := rfl
  rw [List.cons_append, inlined_opening (step_lemme f hlemme s) rfl rfl]
  rw [List.cons_append, inlined_inside see rfl rfl]
  rw [List.cons_append, inlined_inside (name _) rfl rfl]
  rw [List.cons_append, inlined, step_useEnd f hmkay hs]
  rfl

/-! ### Whole programs -/

/-- The words of a program before its body, if it has a head. -/
def frontYield (comments : List (Words .tldr)) (items : List HeadItem) : List Symbol :=
  .word .hai :: (comments.flatMap commentYield ++ headYield (some items))

theorem reads_front (comments : List (Words .tldr)) (items : List HeadItem) :
    Reads lists .fresh (frontYield comments items)
      (.going (.forms .body) (renderHead (some items) (renderComments comments .blank))) := by
  have hai (t : String) (ht : Keyword.ofWord? t = some .hai) :
      step lists .start t .blank = .going .opening .blank := require_of_eq ht .blank _
  exact .word hai (.append (reads_comments comments .blank) (reads_head items _))

/-- Variables can be taken out of a program with a head if they are used for plain values: without
its definitions, and with values in the place of uses, it is accepted with the same page, and no
variable has a value. What is taken out is each definition as a whole, and what stands for a use are
the tokens of the value that is current there. -/
theorem variables_inlined (lists : Bool) {comments : List (Words .tldr)} {items : List HeadItem}
    {v u : List String} (hne : ∀ t ∈ v ++ u, t ≠ "") (hv : Spelling v (frontYield comments items))
    {d : Draft} (hd : program lists (.start (v ++ u)) = .ok () d)
    (hp : UsesPlain lists (feed lists .fresh v) [] u) :
    (∃ d', program lists (.start (v ++ inlined lists (feed lists .fresh v) [] u)) = .ok () d' ∧
      d'.page = d.page ∧ d'.title = d.title ∧ d'.diagnostics = d.diagnostics ∧
      d'.values = .empty) ∧
    (∀ (f : Frame) (n : String) (ws : Words .mkay) (x : List String), (∀ t ∈ x, t ≠ "") →
      Spelling x (Form.define n ws).yield → ∀ (s : Sheet) (known : Definitions) (y : List String),
        inlined lists (.going (.forms f) s) known (x ++ y) =
          inlined lists (.going (.forms f) ((Form.define n ws).render s)) ((n, ws.val) :: known)
            y) ∧
    ∀ (f : Frame) (n : String) (x : List String), Spelling x (Form.use n).yield →
      ∀ (s : Sheet), (Form.use n).Has s.values → ∀ (known : Definitions) (y : List String),
        inlined lists (.going (.forms f) s) known (x ++ y) =
          (known.lookup n).getD [] ++
            inlined lists (.going (.forms f) ((Form.use n).render s)) known y := by
  refine ⟨?_, fun f n ws x hx hspelt s known y => inlined_define f n ws hx hspelt s known y,
    fun f n x hspelt s hs known y => inlined_use f n hspelt hs known y⟩
  have hfront : feed lists .fresh v = _ :=
    reads_front comments items v (fun t ht => hne t (List.mem_append_left u ht)) hv
  have hfull := feed_of_ok hd
  rw [feed_append, hfront] at hfull
  rw [hfront] at hp ⊢
  generalize hs : renderHead (some items) (renderComments comments .blank) = s at *
  have hvalues : s.values = .empty := by
    rw [← hs, values_renderHead, values_renderComments]
    rfl
  have hknown : Known [] s.values := by
    rw [hvalues]
    exact fun n => rfl
  obtain ⟨e, he, hr⟩ :=
    feed_inlined (Or.inl rfl) ⟨rfl, rfl, rfl, hvalues⟩ hknown hp hfull
  have hall : feed lists .fresh (v ++ inlined lists (.going (.forms .body) s) [] u) =
      .finished e := by
    rw [feed_append, hfront]
    exact he
  obtain ⟨c, hc⟩ := program_finished hall
  exact ⟨_, hc, hr.page, hr.title, hr.diagnostics, hr.values⟩

/-- A body that defines a variable and uses it in a paragraph. -/
def greeting : List String :=
  ["#I", "HAZ", "x", "#IT", "IZ", "a", "b", "#MKAY",
    "#MAEK", "PARAGRAF", "#LEMME", "SEE", "x", "#MKAY", "#OIC", "#KTHXBYE"]

/-- Without its variable it starts with the paragraph, which the head before it keeps from being
read as a head. -/
theorem variables_inlined_greeting :
    ∃ d d', program true (.start (["#HAI", "#maek", "HEAD", "#OIC"] ++ greeting)) = .ok () d ∧
      program true (.start (["#HAI", "#maek", "HEAD", "#OIC"] ++
        ["#MAEK", "PARAGRAF", "a", "b", "#OIC", "#KTHXBYE"])) = .ok () d' ∧
      d'.page = d.page ∧ d'.values = .empty := by
  have hv : Spelling ["#HAI", "#maek", "HEAD", "#OIC"] (frontYield [] []) :=
    .cons (by decide) (.cons (by decide) (.cons (by decide) (.cons (by decide) .nil)))
  have hfront : feed true .fresh ["#HAI", "#maek", "HEAD", "#OIC"] = .going (.forms .body) .blank :=
    reads_front [] [] _ (by decide) hv
  obtain ⟨s, hs⟩ : ∃ s, feed true .fresh (["#HAI", "#maek", "HEAD", "#OIC"] ++ greeting) =
      .finished s := ⟨_, rfl⟩
  obtain ⟨c, hd⟩ := program_finished hs
  have hplain : PlainValue ["a", "b"] :=
    ⟨nofun, by decide, by rintro w ⟨⟩ c ⟨⟩; rfl, by rintro w ⟨⟩ c ⟨⟩; rfl⟩
  have hp : UsesPlain true (.going (.forms .body) .blank) [] greeting := by
    -- the value is read at the fourteenth token, the end of the use
    iterate 13 refine ⟨nofun, ?_⟩
    refine ⟨?_, nofun, nofun, trivial⟩
    rintro n ⟨⟩
    exact ⟨["a", "b"], rfl, hplain⟩
  rw [← hfront] at hp
  obtain ⟨⟨d', hd', hpage, -, -, hvalues⟩, -⟩ := variables_inlined true (by decide) hv hd hp
  rw [hfront] at hd'
  exact ⟨_, d', hd, hd', hpage, hvalues⟩

end Shoutmark.Document
