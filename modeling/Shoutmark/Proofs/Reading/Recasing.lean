import Shoutmark.Proofs.Reading.Words

/-! Programs in another case. Keywords, text and marks are told from a token's capitals alone, and
names from the token itself; so where tokens are spelt anew, with other cases of ASCII letters only
and different tokens differently, a program does the same, step by step. -/

namespace Shoutmark

theorem Keyword.ofWord?_congr {a b : String} (h : Text.upper a = Text.upper b) :
    ofWord? a = ofWord? b := by
  unfold ofWord?
  rw [h]

/-- The letters of a keyword are ASCII letters, whatever their case. -/
theorem Keyword.isAscii_of_ofWord? {word : String} {k : Keyword} (h : ofWord? word = some k) :
    Text.isAscii word = true := by
  rw [← Text.isAscii_upper, ofWord?_eq_some_iff.mp h]
  cases k <;> decide

def Fault.map (f : String → String) : Fault → Fault
  | .mismatch expected found => .mismatch expected (f found)
  | .unknownConstruct t => .unknownConstruct (f t)
  | .notText t => .notText (f t)
  | .undefinedVariable n => .undefinedVariable (f n)

def Cursor.map (f : String → String) (c : Cursor) : Cursor :=
  ⟨c.tokens.map f, c.position, f c.token⟩

@[simp] theorem Cursor.position_map (f : String → String) (c : Cursor) :
    (c.map f).position = c.position := rfl

theorem Cursor.advance_map {f : String → String} (hf : f "" = "") (c : Cursor) :
    (c.map f).advance = c.advance.map f := by
  unfold advance map
  rw [Array.getElem?_map]
  cases c.tokens[c.position + 1]? with
  | none => simp [hf]
  | some t => simp

theorem Cursor.token_advance_cases (c : Cursor) :
    c.advance.token ∈ c.tokens ∨ c.advance.token = "" := by
  unfold advance
  split
  · rename_i t h
    exact Or.inl (Array.mem_of_getElem? h)
  · exact Or.inr rfl

end Shoutmark

namespace Shoutmark.Reading
open Shoutmark.Grammar Shoutmark.Text

/-! ### What is told from capitals alone -/

theorem isText_upper (t : String) : isText (upper t) = isText t := by
  have hne : (upper t != "") = (t != "") := by
    rw [Bool.eq_iff_iff]
    simp [upper_eq_empty]
  have hmark : ((upper t).toList.head? != some '#') = (t.toList.head? != some '#') := by
    rw [toList_upper, List.head?_map, Bool.eq_iff_iff]
    cases t.toList.head? with
    | none => simp
    | some c => simp [toUpper_eq_iff]
  unfold isText
  rw [hne, hmark, isAscii_upper]

theorem isText_congr {a b : String} (h : upper a = upper b) : isText a = isText b := by
  rw [← isText_upper a, h, isText_upper]

theorem upper_textPiece (t : String) : upper (textPiece t) = textPiece (upper t) := by
  have marks : ∀ m ∈ punctuation, ∀ c ∈ m.toList, c.toNat < 65 ∨ 122 < c.toNat := by
    simp [punctuation]
  have hmarks : upper t ∈ punctuation ↔ t ∈ punctuation := by
    have hm (m : String) (h : m ∈ punctuation) : upper t = m ↔ t = m := upper_eq_iff (marks m h)
    constructor
    · intro h
      exact (hm _ h).mp rfl ▸ h
    · intro h
      exact ((hm t h).mpr rfl).symm ▸ h
  unfold textPiece
  by_cases h : t ∈ punctuation
  · rw [if_pos h, if_pos (hmarks.mpr h)]
  · rw [if_neg h, if_neg (mt hmarks.mp h), upper_append]
    rfl

theorem upper_phraseOf (ws : List String) : upper (phraseOf ws) = phraseOf (ws.map upper) := by
  unfold phraseOf
  rw [upper_strip, upper_intercalate]
  rfl

theorem upper_player (m : Medium) {a b : String} (h : upper a = upper b) :
    upper (m.player a) = upper (m.player b) := by
  cases m <;> simp only [Medium.player, player, upper_append, h]

/-! ### Sheets in another case -/

/-- The sheet is written in another case, and its names are spelt anew. -/
structure Sheet.Recased (f : String → String) (s s' : Sheet) : Prop where
  html : s'.html.toList.map upper = s.html.toList.map upper
  values : s'.values.entries.map (Prod.map id upper) = s.values.entries.map (Prod.map f upper)
  title : s'.title.map upper = s.title.map upper
  diagnostics : (diagnosticLines s'.events.toList).map upper =
    (diagnosticLines s.events.toList).map upper

namespace Sheet.Recased

variable {f : String → String} {s s' : Sheet}

theorem write (h : s.Recased f s') {p p' : String} (hp : upper p' = upper p) :
    (s.write p).Recased f (s'.write p') := by
  refine ⟨?_, h.values, h.title, h.diagnostics⟩
  simp [Sheet.write, h.html, hp]

theorem writeSpaced (h : s.Recased f s') {ws ws' : List String}
    (hws : ws'.map upper = ws.map upper) : (s.writeSpaced ws).Recased f (s'.writeSpaced ws') := by
  have spaced (ws : List String) :
      (ws.map (· ++ " ")).map upper = (ws.map upper).map (· ++ " ") := by
    simp [upper_append, show upper " " = " " from rfl]
  refine ⟨?_, h.values, h.title, h.diagnostics⟩
  simp only [Sheet.writeSpaced, Array.toList_appendList, List.map_append, h.html, spaced, hws]

theorem tell (h : s.Recased f s') {e e' : Event}
    (he : (diagnosticLines [e']).map upper = (diagnosticLines [e]).map upper) :
    (s.tell e).Recased f (s'.tell e') := by
  refine ⟨h.html, h.values, h.title, ?_⟩
  simp only [Sheet.tell, Array.toList_push, diagnosticLines_append, List.map_append, h.diagnostics,
    he]

theorem entitle (h : s.Recased f s') {t t' : String} (ht : upper t' = upper t) :
    (s.entitle t).Recased f (s'.entitle t') :=
  ⟨h.html, h.values, congrArg some ht, h.diagnostics⟩

theorem headline (h : s.Recased f s') {ws ws' : List String}
    (hws : ws'.map upper = ws.map upper) : (s.headline ws).Recased f (s'.headline ws') := by
  have hp : upper (phraseOf ws') = upper (phraseOf ws) := by
    rw [upper_phraseOf, hws, upper_phraseOf]
  refine ((h.entitle hp).tell ?_).write ?_
  · simp [diagnosticLines, Event.diagnostic?, Diagnostic.message, upper_append, hp]
  · simp only [upper_append, hp]

/-- A value is given to the name spelt anew, if no other name is spelt so. -/
theorem define (h : s.Recased f s') {n v v' : String} (hv : upper v' = upper v)
    (hn : ∀ m ∈ s.values.names, f m = f n → m = n) :
    (s.define n v).Recased f (s'.define (f n) v') := by
  refine ⟨h.html, ?_, h.title, h.diagnostics⟩
  have h' : (Named.put (f n) v' s'.values.entries).map (Prod.map id upper) =
      Named.put (f n) (upper v') (s'.values.entries.map (Prod.map id upper)) :=
    Named.map_put id upper v' fun _ _ he => he
  rw [h.values, hv] at h'
  exact h'.trans (Named.map_put f upper v hn).symm

theorem get? (h : s.Recased f s') {n : String} (hn : ∀ m ∈ s.values.names, f m = f n → m = n) :
    (s'.values.get? (f n)).map upper = (s.values.get? n).map upper := by
  have h' : (s'.values.entries.map (Prod.map id upper)).lookup (f n) =
      (s'.values.entries.lookup (f n)).map upper := Named.lookup_map id upper fun _ _ he => he
  rw [h.values] at h'
  exact h'.symm.trans (Named.lookup_map f upper hn)

end Sheet.Recased

/-! ### Steps in another case -/

def Place.map (f : String → String) : Place → Place
  | .comment ws => .comment (ws.map f)
  | .titleText ws => .titleText (ws.map f)
  | .styled r style ws => .styled r style (ws.map f)
  | .addressEnd r m a => .addressEnd r m (f a)
  | .it r n => .it r (f n)
  | .iz r n => .iz r (f n)
  | .value r n ws => .value r (f n) (ws.map f)
  | .useEnd r n => .useEnd r (f n)
  | q => q

/-- The progress is the same in another case. -/
def Progress.Recased (f : String → String) : Progress → Progress → Prop
  | .going q s, p' => ∃ s', p' = .going (q.map f) s' ∧ s.Recased f s'
  | .finished s, p' => ∃ s', p' = .finished s' ∧ s.Recased f s'
  | .refused e s, p' => ∃ s', p' = .refused (e.map f) s' ∧ s.Recased f s'

/-- Words spelt anew: the case of ASCII letters is all that changes, and different words stay
different. -/
structure Recases (f : String → String) (A : String → Prop) : Prop where
  upper {t : String} : A t → Text.upper (f t) = Text.upper t
  inj {t u : String} : A t → A u → f t = f u → t = u

variable {f : String → String} {A : String → Prop} {lists : Bool}

theorem Recases.map_upper (hf : Recases f A) {ws : List String} (hws : ∀ w ∈ ws, A w) :
    (ws.map f).map Text.upper = ws.map Text.upper := by
  rw [List.map_map]
  exact List.map_congr_left fun w hw => hf.upper (hws w hw)

theorem Recases.phrase (hf : Recases f A) {ws : List String} (hws : ∀ w ∈ ws, A w) :
    Text.upper (phraseOf (ws.map f)) = Text.upper (phraseOf ws) := by
  rw [upper_phraseOf, hf.map_upper hws, upper_phraseOf]

theorem recased_require {k : Keyword} {t : String} {s s' : Sheet} {p p' : Progress}
    (ht : upper (f t) = upper t) (hs : s.Recased f s') (hp : p.Recased f p') :
    (require k t s p).Recased f (require k (f t) s' p') := by
  unfold require
  rw [Keyword.ofWord?_congr ht]
  split
  · exact hp
  · exact ⟨s', rfl, hs⟩

theorem recased_gather {k : Keyword} {t : String} {s s' : Sheet} {m m' p p' : Progress}
    (ht : upper (f t) = upper t) (hs : s.Recased f s') (hm : m.Recased f m')
    (hp : p.Recased f p') : (gather k t s m p).Recased f (gather k (f t) s' m' p') := by
  have he : f t = "" ↔ t = "" := by rw [← upper_eq_empty, ht, upper_eq_empty]
  unfold gather
  simp only [Keyword.ofWord?_congr ht, he]
  split
  · exact recased_require ht hs hp
  · exact hm

theorem recased_stepForms (r : Frame) {t : String} {s s' : Sheet} (ht : upper (f t) = upper t)
    (hs : s.Recased f s') : (stepForms r t s).Recased f (stepForms r (f t) s') := by
  have hclosed : (s.write r.tail).Recased f (s'.write r.tail) := hs.write rfl
  have hpiece : upper (textPiece (f t)) = upper (textPiece t) := by
    rw [upper_textPiece, ht, upper_textPiece]
  refine recased_gather ht hclosed ?_ (by cases r <;> exact ⟨_, rfl, hclosed⟩)
  rw [Keyword.ofWord?_congr ht]
  split
  · exact ⟨s', rfl, hs⟩
  · unfold stepForm
    rw [Keyword.ofWord?_congr ht, isText_congr ht]
    split
    · exact ⟨s', rfl, hs⟩
    · exact ⟨s', rfl, hs⟩
    · exact ⟨s', rfl, hs⟩
    · split
      · exact ⟨_, rfl, hs.write hpiece⟩
      · exact ⟨s', rfl, hs⟩

theorem recased_stepConstruct (r : Frame) {t : String} {s s' : Sheet} (ht : upper (f t) = upper t)
    (hs : s.Recased f s') : (stepConstruct r t s).Recased f (stepConstruct r (f t) s') := by
  unfold stepConstruct
  rw [Keyword.ofWord?_congr ht]
  split
  · exact ⟨_, rfl, hs.write rfl⟩
  · exact ⟨_, rfl, hs.write rfl⟩
  · exact ⟨_, rfl, hs.write rfl⟩
  · exact ⟨s', rfl, hs⟩
  · exact ⟨s', rfl, hs⟩
  · exact ⟨s', rfl, hs⟩

theorem recased_useValue (r : Frame) {n : String} {s s' : Sheet} (hs : s.Recased f s')
    (hn : ∀ m ∈ s.values.names, f m = f n → m = n) :
    (useValue r n s).Recased f (useValue r (f n) s') := by
  have hv := hs.get? hn
  unfold useValue
  cases h : s.values.get? n with
  | none =>
    cases h' : s'.values.get? (f n) with
    | none => exact ⟨s', rfl, hs⟩
    | some v' => simp [h, h'] at hv
  | some v =>
    cases h' : s'.values.get? (f n) with
    | none => simp [h, h'] at hv
    | some v' =>
      have hvv : upper (v' ++ " ") = upper (v ++ " ") := by
        rw [h, h'] at hv
        rw [upper_append, upper_append, Option.some.inj hv]
      exact ⟨_, rfl, hs.write hvv⟩

/-- A token spelt anew does the same at the place with its words spelt anew. -/
theorem recased_step (hf : Recases f A) {q : Place} {t : String} {s s' : Sheet} (ht : A t)
    (hq : ∀ w ∈ q.words, A w) (hn : ∀ n ∈ s.values.names, A n) (hs : s.Recased f s') :
    (step lists q t s).Recased f (step lists (q.map f) (f t) s') := by
  have hu : upper (f t) = upper t := hf.upper ht
  have more (ws : List String) : (ws ++ [t]).map f = ws.map f ++ [f t] := by simp
  have distinct {n : String} (h : A n) : ∀ m ∈ s.values.names, f m = f n → m = n :=
    fun m hm he => hf.inj (hn m hm) h he
  cases q with
  | start => exact recased_require hu hs ⟨s', rfl, hs⟩
  | opening =>
    change (step lists .opening t s).Recased f (step lists .opening (f t) s')
    rw [step, step, Keyword.ofWord?_congr hu]
    split
    · exact ⟨s', rfl, hs⟩
    · exact ⟨s', rfl, hs⟩
    · exact recased_stepForms .body hu hs
  | comment ws =>
    have hp : upper (phraseOf (ws.map f)) = upper (phraseOf ws) := hf.phrase hq
    refine recased_gather hu hs ⟨s', by rw [Place.map, more], hs⟩ ⟨_, rfl, hs.tell ?_⟩
    simp [diagnosticLines, Event.diagnostic?, Diagnostic.message, upper_append, hp]
  | headWord => exact recased_require hu hs ⟨s', rfl, hs⟩
  | head =>
    refine recased_gather hu hs ?_ ⟨s', rfl, hs⟩
    rw [Keyword.ofWord?_congr hu]
    split <;> exact ⟨s', rfl, hs⟩
  | titleWord => exact recased_require hu hs ⟨s', rfl, hs⟩
  | titleText ws =>
    exact recased_gather hu hs ⟨s', by rw [Place.map, more], hs⟩
      ⟨_, rfl, hs.headline (hf.map_upper hq)⟩
  | forms r => exact recased_stepForms r hu hs
  | block =>
    change (step lists .block t s).Recased f (step lists .block (f t) s')
    rw [step, step, Keyword.ofWord?_congr hu]
    split
    · exact ⟨_, rfl, hs.write rfl⟩
    · exact recased_require hu hs ⟨_, rfl, hs.write rfl⟩
  | items =>
    change (step lists .items t s).Recased f (step lists .items (f t) s')
    rw [step, step, Keyword.ofWord?_congr hu]
    split
    · exact ⟨s', rfl, hs⟩
    · exact recased_require hu (hs.write rfl) ⟨_, rfl, hs.write rfl⟩
  | itemWord => exact recased_require hu hs ⟨_, rfl, hs.write rfl⟩
  | construct r => exact recased_stepConstruct r hu hs
  | styled r style ws =>
    have written : (s.writeSpaced ws).Recased f (s'.writeSpaced (ws.map f)) :=
      hs.writeSpaced (hf.map_upper hq)
    exact recased_gather hu written ⟨s', by rw [Place.map, more], hs⟩ ⟨_, rfl, written.write rfl⟩
  | address r m => exact ⟨s', rfl, hs⟩
  | addressEnd r m a =>
    have ha : upper (f a) = upper a := hf.upper (hq a List.mem_cons_self)
    refine recased_require hu hs ⟨_, rfl, (hs.write (upper_player m ha)).tell ?_⟩
    cases m <;>
      simp [diagnosticLines, Event.diagnostic?, Medium.diagnostic, Diagnostic.message, upper_append,
        ha]
  | haz r => exact recased_require hu hs ⟨s', rfl, hs⟩
  | name r => exact ⟨s', rfl, hs⟩
  | it r n => exact recased_require hu hs ⟨s', rfl, hs⟩
  | iz r n => exact recased_require hu hs ⟨s', rfl, hs⟩
  | value r n ws =>
    -- the name was read, as all names with a value were, so none of the others is spelt like it
    have hp : upper (phraseOf (ws.map f)) = upper (phraseOf ws) :=
      hf.phrase fun w hw => hq w (List.mem_cons_of_mem n hw)
    have defined : (s.define n (phraseOf ws)).Recased f
        (s'.define (f n) (phraseOf (ws.map f))) :=
      hs.define hp (distinct (hq n List.mem_cons_self))
    exact recased_gather hu defined ⟨s', by rw [Place.map, more], hs⟩ ⟨_, rfl, defined.tell rfl⟩
  | see r => exact recased_require hu hs ⟨s', rfl, hs⟩
  | usedName r => exact ⟨s', rfl, hs⟩
  | useEnd r n =>
    exact recased_require hu hs (recased_useValue r hs (distinct (hq n List.mem_cons_self)))

theorem recased_of_step (hf : Recases f A) {q : Place} {t : String} {s s' : Sheet} {p : Progress}
    (ht : A t) (hq : ∀ w ∈ q.words, A w) (hn : ∀ n ∈ s.values.names, A n) (hs : s.Recased f s')
    (h : step lists q t s = p) : p.Recased f (step lists (q.map f) (f t) s') := by
  rw [← h]
  exact recased_step hf ht hq hn hs

/-! ### Programs in another case -/

/-- The second run ends as the first one does, in another case. -/
def SameEnd (f : String → String) : EStateM.Result Fault Draft Unit →
    EStateM.Result Fault Draft Unit → Prop
  | .ok _ d, r' =>
    ∃ d', r' = .ok () d' ∧ d'.cursor = d.cursor.map f ∧ d.sheet.Recased f d'.sheet
  | .error e d, r' =>
    ∃ d', r' = .error (e.map f) d' ∧ d'.cursor = d.cursor.map f ∧ d.sheet.Recased f d'.sheet

theorem faultCursor_map {e : Fault} {c : Cursor} (hf : f "" = "") :
    faultCursor (e.map f) (c.map f) = (faultCursor e c).map f := by
  cases e with
  | undefinedVariable n => exact c.advance_map hf
  | _ => rfl

/-- From any place on, the tokens spelt anew come to the same end. -/
theorem resume_recased (hf : Recases f A) (he : A "") {q : Place} {d : Draft} {s' : Sheet}
    (hT : ∀ t ∈ d.cursor.tokens, A t) (ht : A d.cursor.token) (hq : ∀ w ∈ q.words, A w)
    (hn : ∀ n ∈ d.sheet.values.names, A n) (hs : d.sheet.Recased f s') :
    SameEnd f (resume lists q d) (resume lists (q.map f) (s'.draft (d.cursor.map f))) := by
  -- by induction on the run, which keeps every word it deals with in the kind that is spelt anew
  have hempty : f "" = "" := upper_eq_empty.mp (hf.upper he)
  have hr {q : Place} {d : Draft} {s' : Sheet} : resume lists (q.map f)
      (s'.draft (d.cursor.map f)) =
        proceed lists (d.cursor.map f) (step lists (q.map f) (f d.cursor.token) s') :=
    resume_eq _ _
  fun_induction resume lists q d generalizing s' with
  | case1 q d q' s h ih =>
    obtain ⟨s₁, h', hs₁⟩ := recased_of_step hf ht hq hn hs h
    have hw : (step lists q d.cursor.token d.sheet).Within A := within_step ht hq hn
    rw [h] at hw
    have ht' : A d.cursor.advance.token := by
      rcases d.cursor.token_advance_cases with hm | hm
      · exact hT _ hm
      · rw [hm]
        exact he
    have hT' : ∀ t ∈ d.cursor.advance.tokens, A t := by
      rw [d.cursor.tokens_advance]
      exact hT
    rw [hr, h', proceed, d.cursor.advance_map hempty]
    exact ih hT' ht' hw.1 hw.2 hs₁
  | case2 q d s h =>
    obtain ⟨s₁, h', hs₁⟩ := recased_of_step hf ht hq hn hs h
    rw [hr, h', proceed, d.cursor.advance_map hempty]
    exact ⟨_, rfl, rfl, hs₁⟩
  | case3 q d e s h =>
    obtain ⟨s₁, h', hs₁⟩ := recased_of_step hf ht hq hn hs h
    rw [hr, h', proceed, faultCursor_map hempty]
    exact ⟨_, rfl, rfl, hs₁⟩

/-- Spells words anew, the empty one aside. -/
def respell (f : String → String) (t : String) : String := if t = "" then "" else f t

theorem map_respell {T : List String} (hup : ∀ t ∈ T, upper (f t) = upper t) :
    T.map (respell f) = T.map f := by
  refine List.map_congr_left fun t ht => ?_
  unfold respell
  split
  · rename_i he
    subst he
    exact (upper_eq_empty.mp (hup "" ht)).symm
  · rfl

theorem recases_respell {T : List String} (hinj : ∀ t ∈ T, ∀ u ∈ T, f t = f u → t = u)
    (hup : ∀ t ∈ T, upper (f t) = upper t) : Recases (respell f) fun t => t ∈ T ∨ t = "" := by
  have empty : respell f "" = "" := if_pos rfl
  have nonempty {t : String} (ht : t ≠ "") : respell f t = f t := if_neg ht
  have upper {t : String} (ht : t ∈ T ∨ t = "") : Text.upper (respell f t) = Text.upper t := by
    by_cases he : t = ""
    · rw [he, empty]
    · rw [nonempty he, hup t (ht.resolve_right he)]
  refine ⟨upper, fun {t u} ht hu h => ?_⟩
  have he : t = "" ↔ u = "" := by
    rw [← upper_eq_empty, ← upper ht, h, upper hu, upper_eq_empty]
  by_cases ht' : t = ""
  · rw [ht', he.mp ht']
  · have hu' : u ≠ "" := mt he.mpr ht'
    rw [nonempty ht', nonempty hu'] at h
    exact hinj t (ht.resolve_right ht') u (hu.resolve_right hu') h

theorem program_recased {T : List String} (hinj : ∀ t ∈ T, ∀ u ∈ T, f t = f u → t = u)
    (hup : ∀ t ∈ T, upper (f t) = upper t) :
    SameEnd (respell f) (program lists (.start T)) (program lists (.start (T.map f))) := by
  have hstart : Cursor.start (T.map f) = (Cursor.start T).map (respell f) := by
    rw [← map_respell hup]
    cases T with
    | nil => simp [Cursor.start, Cursor.map, respell]
    | cons t T => simp [Cursor.start, Cursor.map]
  have ht : (Cursor.start T).token ∈ T ∨ (Cursor.start T).token = "" := by
    cases T with
    | nil => exact Or.inr rfl
    | cons t T => exact Or.inl List.mem_cons_self
  have hT : ∀ t ∈ (Cursor.start T).tokens, t ∈ T ∨ t = "" := by
    intro t ht
    exact Or.inl (List.mem_toArray.mp ht)
  rw [program_start, program_start, hstart]
  exact resume_recased (q := .start) (d := Sheet.blank.draft (.start T)) (recases_respell hinj hup)
    (Or.inr rfl) hT ht (List.forall_mem_nil _) (List.forall_mem_nil _) ⟨rfl, rfl, rfl, rfl⟩

theorem Sheet.Recased.names {s s' : Sheet} (h : s.Recased f s') :
    s'.values.names = s.values.names.map f := by
  have hn := congrArg (List.map Prod.fst) h.values
  rw [List.map_map, List.map_map] at hn
  rw [Variables.names, Variables.names, List.map_map]
  exact hn

theorem Sheet.Recased.phrases {s s' : Sheet} (h : s.Recased f s') :
    s'.values.entries.map (fun e => upper e.2) = s.values.entries.map (fun e => upper e.2) := by
  have hv := congrArg (List.map Prod.snd) h.values
  rw [List.map_map, List.map_map] at hv
  exact hv

theorem page_recased {d d' : Draft} (h : d.sheet.Recased f d'.sheet) :
    upper d'.page = upper d.page := by
  unfold Draft.page
  rw [upper_join, upper_join]
  exact congrArg String.join h.html

/-- A name is given a value, and a name is used. -/
def giveAndUse (given word used : String) : List String :=
  ["#HAI", "#I", "HAZ", given, "#IT", "IZ", word, "#MKAY", "#LEMME", "SEE", used, "#MKAY",
    "#KTHXBYE"]

/-- A name has a value only if this very name is given one, in this very case. -/
theorem program_giveAndUse {word : String} (hw : word ≠ "")
    (hk : Keyword.ofWord? word ≠ some .mkay) (given used : String) :
    ∃ d, program lists (.start (giveAndUse given word used)) =
      if used = given then .ok () d else .error (.undefinedVariable used) d := by
  let s : Sheet := (Sheet.blank.define given (phraseOf [word])).tell
    (.variableDefined given (phraseOf [word]))
  have hgiven : feed lists .fresh ["#HAI", "#I", "HAZ", given, "#IT", "IZ"] =
      .going (.value .body given []) .blank := rfl
  have hword : feed lists (.going (.value .body given []) .blank) [word] =
      .going (.value .body given [word]) .blank := gather_of_ne hw hk _ _ _
  have hused : feed lists (.going (.value .body given [word]) .blank)
      ["#MKAY", "#LEMME", "SEE", used, "#MKAY"] = useValue .body used s := rfl
  have hfeed : feed lists .fresh (giveAndUse given word used) =
      feed lists (useValue .body used s) ["#KTHXBYE"] := by
    rw [← hused, ← hword, ← hgiven, ← feed_append, ← feed_append, ← feed_append]
    rfl
  by_cases he : used = given
  · have hv : s.values.get? used = some (phraseOf [word]) := by
      rw [he]
      exact Variables.get?_set_self given (phraseOf [word]) .empty
    rw [useValue, hv] at hfeed
    obtain ⟨c, hc⟩ := program_finished hfeed
    exact ⟨_, hc.trans (if_pos he).symm⟩
  · have hv : s.values.get? used = none :=
      Variables.get?_set_of_ne he (phraseOf [word]) .empty
    rw [useValue, hv] at hfeed
    obtain ⟨c, hc⟩ := program_refused hfeed
    exact ⟨_, hc.trans (if_neg he).symm⟩

/-- Where tokens are spelt anew, in other cases of ASCII letters and different ones differently, a
program ends at the same token and in the same way: with the same page, title and diagnostics in
another case and with the names spelt anew, or with the same fault, its word spelt anew. What is
taken for a keyword has ASCII letters only, and a name is not another one in another case. -/
theorem recasing_exact (lists : Bool) :
    (∀ (T : List String) (f : String → String), (∀ t ∈ T, ∀ u ∈ T, f t = f u → t = u) →
      (∀ t ∈ T, upper (f t) = upper t) →
      (∀ d, program lists (.start T) = .ok () d → ∃ d',
        program lists (.start (T.map f)) = .ok () d' ∧ d'.cursor.position = d.cursor.position ∧
        upper d'.page = upper d.page ∧ d'.title.map upper = d.title.map upper ∧
        d'.diagnostics.map upper = d.diagnostics.map upper ∧
        d'.values.names = d.values.names.map f ∧
        d'.values.entries.map (fun e => upper e.2) = d.values.entries.map (fun e => upper e.2)) ∧
      (∀ e d, program lists (.start T) = .error e d → ∃ d',
        program lists (.start (T.map f)) = .error (e.map (respell f)) d' ∧
        d'.cursor.position = d.cursor.position)) ∧
    (∀ word k, Keyword.ofWord? word = some k → ∀ c ∈ word.toList, c.toNat < 128) ∧
    (∀ given used word : String, word ≠ "" → Keyword.ofWord? word ≠ some .mkay → ∃ d,
      program lists (.start (giveAndUse given word used)) =
        if used = given then .ok () d else .error (.undefinedVariable used) d) := by
  refine ⟨fun T f hinj hup => ?_, fun word k hk c hc => ?_, fun given used word hw hk => ?_⟩
  · have hsame : SameEnd (respell f) (program lists (.start T))
        (program lists (.start (T.map f))) := program_recased hinj hup
    constructor
    · intro d h
      rw [h] at hsame
      obtain ⟨d', h', hc, hs⟩ := hsame
      have hnames : d'.values.names = d.values.names.map f :=
        hs.names.trans (map_respell fun n hn => hup n (names_of_ok h n hn))
      exact ⟨d', h', by rw [hc, Cursor.position_map], page_recased hs, hs.title, hs.diagnostics,
        hnames, hs.phrases⟩
    · intro e d h
      rw [h] at hsame
      obtain ⟨d', h', hc, -⟩ := hsame
      exact ⟨d', h', by rw [hc, Cursor.position_map]⟩
  · have ha : Text.isAscii word = true := Keyword.isAscii_of_ofWord? hk
    exact of_decide_eq_true (List.all_eq_true.mp ha c hc)
  · exact program_giveAndUse hw hk given used

/-- Two variables whose names differ in case only. -/
def twoNames : List String :=
  ["#HAI", "#I", "HAZ", "x", "#IT", "IZ", "one", "#MKAY", "#i", "haz", "X", "#it", "iz", "Two",
    "#mkay", "#LEMME", "SEE", "x", "#MKAY", "#KTHXBYE"]

/-- The two names change places, and keywords and text change their case. -/
def swapCase : String → String
  | "x" => "X"
  | "X" => "x"
  | "#HAI" => "#Hai"
  | "SEE" => "seE"
  | "one" => "ONE"
  | t => t

/-- The names change places and each keeps its value. A name that is not given a value is not found
in another case. -/
theorem recasing_exact_swapped :
    (∃ d, program false (.start (twoNames.map swapCase)) = .ok () d ∧
      d.values.names = ["X", "x"] ∧ upper d.page = "ONE </BODY></HTML>") ∧
    (∃ d, program false (.start (giveAndUse "x" "one" "X")) =
      .error (.undefinedVariable "X") d) := by
  obtain ⟨recased, -, given⟩ := recasing_exact false
  constructor
  · let s : Sheet := ⟨#["one ", "</body></html>"], ⟨[("x", "one"), ("X", "Two")]⟩, none,
      #[.variableDefined "x" "one", .variableDefined "X" "Two"]⟩
    have hfeed : feed false .fresh twoNames = .finished s := by decide +kernel
    obtain ⟨c, hc⟩ := program_finished hfeed
    obtain ⟨d, hd, -, hpage, -, -, hnames, -⟩ :=
      (recased twoNames swapCase (by decide) (by decide)).1 _ hc
    have hupper : upper (String.join s.html.toList) = "ONE </BODY></HTML>" := by decide +kernel
    have hswapped : s.values.names.map swapCase = ["X", "x"] := by decide +kernel
    exact ⟨d, hd, hnames.trans hswapped, hpage.trans hupper⟩
  · exact given "x" "X" "one" (by decide) (by decide)

end Shoutmark.Reading
