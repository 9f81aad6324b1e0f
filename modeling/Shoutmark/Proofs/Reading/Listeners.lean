import Shoutmark.Listeners
import Shoutmark.Proofs.Reading.Constructs
import Shoutmark.Proofs.Reading.Continuation

/-! Whoever follows a compilation has no part in it. The sink receives a line for each comment, title
and medium that is read to its end, whether or not the program is; the log prints these lines where
no sink is given, and a line for each definition. -/

namespace Shoutmark

def Event.line (e : Event) : LogLine := ⟨e.level, e.message⟩

/-- The event is a matter of the log. A diagnostic is none where there is a sink. -/
def Event.isLogged (sink : Bool) (e : Event) : Bool := e.diagnostic?.isNone || !sink

/-- The log prints the event. -/
def Listeners.logs (l : Listeners) (e : Event) : Bool := l.prints e.level && e.isLogged l.sink

/-! ### What is heard of some events -/

namespace Heard

theorem hear_of_not_diagnostic (l : Listeners) (h : Heard) {e : Event} (he : e.diagnostic? = none) :
    h.hear l e = h.log l e.level e.message := by
  rw [hear]
  rintro d rfl
  cases he

theorem hear_diagnostic (l : Listeners) (h : Heard) (d : Diagnostic) :
    h.hear l (.diagnostic d) = ⟨h.collected ++ diagnosticLines [.diagnostic d],
      h.received ++ (if l.sink then diagnosticLines [.diagnostic d] else []),
      h.printed ++ ([Event.diagnostic d].filter l.logs).map Event.line⟩ := by
  have hlines : diagnosticLines [.diagnostic d] = [d.message] := rfl
  have hline : (Event.diagnostic d).line = ⟨1, d.message⟩ := rfl
  have hlogs : l.logs (.diagnostic d) = (l.prints 1 && !l.sink) := rfl
  rw [hlines, hear, capture, emit, log, List.filter_cons, List.filter_nil, hlogs]
  cases l.sink with
  | true => simp
  | false =>
    cases l.prints 1 with
    | true => simp [hline]
    | false => simp

theorem hear_eq (l : Listeners) (h : Heard) (e : Event) :
    h.hear l e = ⟨h.collected ++ diagnosticLines [e],
      h.received ++ (if l.sink then diagnosticLines [e] else []),
      h.printed ++ ([e].filter l.logs).map Event.line⟩ := by
  by_cases hd : ∃ d, e = .diagnostic d
  · obtain ⟨d, rfl⟩ := hd
    exact hear_diagnostic l h d
  · have he : e.diagnostic? = none := by
      cases e with
      | diagnostic d => exact absurd ⟨d, rfl⟩ hd
      | _ => rfl
    have hlines : diagnosticLines [e] = [] := by simp [diagnosticLines, he]
    rw [hear_of_not_diagnostic l h he, hlines, log]
    cases hp : l.prints e.level <;> simp [Listeners.logs, Event.isLogged, hp, he, Event.line]

theorem foldl_hear (l : Listeners) (es : List Event) (h : Heard) :
    es.foldl (hear l) h = ⟨h.collected ++ diagnosticLines es,
      h.received ++ (if l.sink then diagnosticLines es else []),
      h.printed ++ (es.filter l.logs).map Event.line⟩ := by
  induction es generalizing h with
  | nil => simp [diagnosticLines]
  | cons e es ih =>
    have hlines : diagnosticLines (e :: es) = diagnosticLines [e] ++ diagnosticLines es :=
      diagnosticLines_append [e] es
    have hlogs : (e :: es).filter l.logs = [e].filter l.logs ++ es.filter l.logs :=
      List.filter_append [e] es
    rw [List.foldl_cons, ih, hear_eq, hlines, hlogs]
    cases l.sink <;> simp

end Heard

/-! ### What a compilation tells -/

namespace Reading
open Grammar

/-- The words of a source; there are none if one of them is not valid. -/
def wordsOf (source : String) : List String :=
  match Token.tokenize source with
  | .ok tokens => tokens
  | .error _ => []

/-- The count of the words, told if all of them are valid. -/
def scanned (source : String) : List Event :=
  match Token.tokenize source with
  | .ok tokens => [.tokensProduced tokens.length]
  | .error _ => []

/-- What the constructs tell that are read to their end. -/
def toldOf (xs : List (Construct × Draft)) : List Event := xs.map fun x => x.1.event x.2

variable {lists : Bool} {source : String} {tokens : List String}

theorem compile_of_words (ht : Token.tokenize source = .ok tokens) (hne : tokens ≠ []) :
    compile lists source =
      match program lists (.start tokens) with
      | .error f d => ⟨.error (.fault f),
        [.tokenizing, .tokensProduced tokens.length, .parsing tokens.length] ++ d.events.toList⟩
      | .ok () d => ⟨.ok (d.toPage tokens),
        [.tokenizing, .tokensProduced tokens.length, .parsing tokens.length] ++ d.events.toList ++
          [.charactersGenerated (d.toPage tokens).html.length]⟩ := by
  rw [compile, ht]
  cases tokens with
  | nil => exact absurd rfl hne
  | cons t tokens => rfl

theorem completed_nil : completed lists [] = [] := by
  have hnothing : (draftOf (program lists (.start []))).events = #[] := by
    rw [program_eq_resume, resume_eq]
    simp [Draft.start, Cursor.start, step, proceed, draftOf, Sheet.draft, Draft.sheet]
  have htold := events_program lists []
  rw [hnothing] at htold
  exact List.map_eq_nil_iff.mp htold.symm

/-- A compilation tells the count of its words and what the constructs tell that are read to their
end, and besides only how far it has come. -/
theorem events_compile (lists : Bool) (source : String) :
    ∃ before after, (compile lists source).events =
        .tokenizing :: (scanned source ++ (before ++ toldOf (completed lists (wordsOf source)) ++
          after)) ∧
      ∀ e ∈ before ++ after, e.level = 2 := by
  cases ht : Token.tokenize source with
  | error word =>
    refine ⟨[], [], ?_, nofun⟩
    simp [compile, scanned, wordsOf, ht, completed_nil, toldOf]
  | ok tokens =>
    by_cases hne : tokens = []
    · subst hne
      refine ⟨[], [], ?_, nofun⟩
      simp [compile, scanned, wordsOf, ht, completed_nil, toldOf]
    · have htold := events_program lists tokens
      rw [compile_of_words ht hne]
      cases hp : program lists (.start tokens) with
      | error f d =>
        rw [hp] at htold
        refine ⟨[.parsing tokens.length], [], ?_, by simp [Event.level]⟩
        simp [scanned, wordsOf, ht, toldOf, ← htold, draftOf]
      | ok _ d =>
        rw [hp] at htold
        refine ⟨[.parsing tokens.length], [.charactersGenerated (d.toPage tokens).html.length], ?_,
          by simp [Event.level]⟩
        simp [scanned, wordsOf, ht, toldOf, ← htold, draftOf]

/-- The diagnostics of a page are those that were told on the way to it. -/
theorem diagnostics_of_ok {page : Page} (h : (compile lists source).outcome = .ok page) :
    page.diagnostics = (compile lists source).diagnostics := by
  obtain ⟨T, d, hT, hne, hp, rfl⟩ := compile_ok_iff.mp h
  rw [compile_of_words hT hne, hp, Compilation.diagnostics, diagnosticLines_append,
    diagnosticLines_append]
  exact (List.append_nil (diagnosticLines d.events.toList)).symm

/-! ### The lines of constructs -/

/-- The line that a construct makes for the sink when it is read to its end from here. -/
def Construct.line? : Construct → Draft → Option String
  | comment, d => some ("Comment: " ++ phraseOf (upTo .tldr d.advance.cursor))
  | title, d => some ("Parsed Title: " ++ phraseOf (upTo .mkay d.advance.advance.cursor))
  | media .audio, d => some ("Audio URL: " ++ d.advance.cursor.token)
  | media .video, d => some ("Video URL: " ++ d.advance.cursor.token)
  | definition, _ => none

/-- The line that it makes for the log alone. -/
def Construct.trace? : Construct → Draft → Option String
  | definition, d => some ("Defined variable " ++ Text.quoted (definedName d) ++ " = " ++
      Text.quoted (phraseOf (upTo .mkay (valueStart d).cursor)))
  | _, _ => none

def linesOf (lists : Bool) (source : String) : List String :=
  (completed lists (wordsOf source)).filterMap fun x => x.1.line? x.2

def tracesOf (lists : Bool) (source : String) : List String :=
  (completed lists (wordsOf source)).filterMap fun x => x.1.trace? x.2

theorem Construct.event_cases (x : Construct) (d : Draft) :
    (∃ m : Diagnostic, x.event d = .diagnostic m ∧ x.line? d = some m.message ∧ x.trace? d = none) ∨
      (∃ name value, x.event d = .variableDefined name value ∧ x.line? d = none ∧
        x.trace? d = some (Event.variableDefined name value).message) := by
  cases x with
  | comment => exact Or.inl ⟨_, rfl, rfl, rfl⟩
  | title => exact Or.inl ⟨_, rfl, rfl, rfl⟩
  | media m =>
    cases m with
    | audio => exact Or.inl ⟨_, rfl, rfl, rfl⟩
    | video => exact Or.inl ⟨_, rfl, rfl, rfl⟩
  | definition => exact Or.inr ⟨_, _, rfl, rfl, rfl⟩

theorem filterMap_toldOf {β : Type} {f : Event → Option β} {g : Construct → Draft → Option β}
    (h : ∀ x d, f (x.event d) = g x d) (xs : List (Construct × Draft)) :
    (toldOf xs).filterMap f = xs.filterMap fun x => g x.1 x.2 := by
  have hf : (f ∘ fun x : Construct × Draft => x.1.event x.2) = fun x => g x.1 x.2 :=
    funext fun x => h x.1 x.2
  rw [toldOf, List.filterMap_map, hf]

theorem diagnosticLines_toldOf (xs : List (Construct × Draft)) :
    diagnosticLines (toldOf xs) = xs.filterMap fun x => x.1.line? x.2 := by
  rw [diagnosticLines, List.map_filterMap]
  refine filterMap_toldOf (g := Construct.line?) (fun x d => ?_) xs
  rcases x.event_cases d with ⟨m, he, hl, -⟩ | ⟨name, value, he, hl, -⟩
  · rw [he, hl]
    rfl
  · rw [he, hl]
    rfl

/-- An address is told, and a fault after it takes nothing back. -/
example : diagnosticLines (toldOf (completed false
    ["#HAI", "#GIMMEH", "SOUNDZ", "a", "#MKAY", "#OIC"])) = ["Audio URL: a"] := by
  have hfeed : feed false .fresh ["#HAI", "#GIMMEH", "SOUNDZ", "a", "#MKAY", "#OIC"] =
      .refused (.notText "#OIC") ⟨#[player "audio" "audio/mpeg" "a"], .empty, none,
        #[.diagnostic (.audio "a")]⟩ := by decide +kernel
  obtain ⟨c, hp⟩ := program_refused hfeed
  rw [toldOf, ← events_program, hp]
  rfl

theorem map_filter_level (k : Nat) (es : List Event) :
    (es.filter (·.level == k)).map Event.line =
      es.filterMap fun e => if e.level == k then some e.line else none := by
  rw [← List.filterMap_eq_map, List.filterMap_filter]
  rfl

theorem levelOne_toldOf (xs : List (Construct × Draft)) :
    ((toldOf xs).filter (·.level == 1)).map Event.line =
      (xs.filterMap fun x => x.1.line? x.2).map (LogLine.mk 1) := by
  rw [map_filter_level, List.map_filterMap]
  refine filterMap_toldOf (g := fun x d => (x.line? d).map (LogLine.mk 1)) (fun x d => ?_) xs
  rcases x.event_cases d with ⟨m, he, hl, -⟩ | ⟨name, value, he, hl, -⟩
  · rw [he, hl]
    rfl
  · rw [he, hl]
    rfl

theorem levelThree_toldOf (xs : List (Construct × Draft)) :
    ((toldOf xs).filter (·.level == 3)).map Event.line =
      (xs.filterMap fun x => x.1.trace? x.2).map (LogLine.mk 3) := by
  rw [map_filter_level, List.map_filterMap]
  refine filterMap_toldOf (g := fun x d => (x.trace? d).map (LogLine.mk 3)) (fun x d => ?_) xs
  rcases x.event_cases d with ⟨m, he, -, ht⟩ | ⟨name, value, he, -, ht⟩
  · rw [he, ht]
    rfl
  · rw [he, ht]
    rfl

/-! ### The levels of what a compilation tells -/

/-- Apart from level 2, a compilation tells the count of its words and what its constructs tell. -/
theorem filter_level (lists : Bool) (source : String) {k : Nat} (hk : k ≠ 2) :
    (compile lists source).events.filter (·.level == k) =
      (scanned source).filter (·.level == k) ++
        (toldOf (completed lists (wordsOf source))).filter (·.level == k) := by
  obtain ⟨before, after, he, htwo⟩ := events_compile lists source
  have hnone {es : List Event} (hes : ∀ e ∈ es, e.level = 2) :
      es.filter (·.level == k) = [] := by
    refine List.filter_eq_nil_iff.mpr fun e h => ?_
    rw [hes e h, beq_iff_eq]
    exact Ne.symm hk
  have hbefore := hnone fun e h => htwo e (List.mem_append_left after h)
  have hafter := hnone fun e h => htwo e (List.mem_append_right before h)
  have hfirst : [Event.tokenizing].filter (·.level == k) = [] :=
    hnone fun e h => by rw [List.mem_singleton.mp h]; rfl
  rw [he, ← List.singleton_append, List.filter_append, List.filter_append, List.filter_append,
    List.filter_append, hfirst, hbefore, hafter, List.nil_append, List.nil_append, List.append_nil]

theorem scanned_level (source : String) : ∀ e ∈ scanned source, e.level = 3 := by
  intro e h
  unfold scanned at h
  split at h
  · rw [List.mem_singleton.mp h]
    rfl
  · cases h

/-- What a compilation tells at level 1 is what its constructs tell there. -/
theorem events_levelOne (lists : Bool) (source : String) :
    (compile lists source).events.filter (·.level == 1) =
      (toldOf (completed lists (wordsOf source))).filter (·.level == 1) := by
  have hscanned : (scanned source).filter (·.level == 1) = [] := by
    refine List.filter_eq_nil_iff.mpr fun e h => ?_
    rw [scanned_level source e h]
    decide
  rw [filter_level lists source (by decide), hscanned, List.nil_append]

/-- At level 3 the count of the words comes first. -/
theorem events_levelThree (lists : Bool) (source : String) :
    (compile lists source).events.filter (·.level == 3) =
      scanned source ++ (toldOf (completed lists (wordsOf source))).filter (·.level == 3) := by
  have hscanned : (scanned source).filter (·.level == 3) = scanned source := by
    refine List.filter_eq_self.mpr fun e h => ?_
    rw [scanned_level source e h]
    rfl
  rw [filter_level lists source (by decide), hscanned]

theorem diagnosticLines_levelOne (es : List Event) :
    diagnosticLines (es.filter (·.level == 1)) = diagnosticLines es := by
  rw [diagnosticLines, diagnosticLines, List.filterMap_filter]
  congr 2
  funext e
  cases e <;> rfl

/-- The diagnostics of a compilation are the lines of what is read to its end in it. -/
theorem diagnostics_compile (lists : Bool) (source : String) :
    (compile lists source).diagnostics = linesOf lists source := by
  rw [Compilation.diagnostics, ← diagnosticLines_levelOne, events_levelOne,
    diagnosticLines_levelOne, diagnosticLines_toldOf, linesOf]

end Reading

/-! ### Compilers -/

/-- What the log prints is what its verbosity has of the lines that are a matter of it. -/
theorem Listeners.printed_eq (l : Listeners) (es : List Event) :
    (es.filter l.logs).map Event.line =
      ((es.filter (Event.isLogged l.sink)).map Event.line).filter (l.prints ·.level) := by
  rw [List.filter_map, List.filter_filter]
  rfl

namespace Compiler
open Reading

theorem compile_eq (c : Compiler) (source : String) (h : Heard) :
    c.compile source h = ((Shoutmark.compile c.lists source).outcome,
      ⟨linesOf c.lists source,
        h.received ++ (if c.listeners.sink then linesOf c.lists source else []),
        h.printed ++
          ((Shoutmark.compile c.lists source).events.filter c.listeners.logs).map Event.line⟩) := by
  have hlines : diagnosticLines (Shoutmark.compile c.lists source).events = linesOf c.lists source :=
    diagnostics_compile c.lists source
  have hpage : ((Shoutmark.compile c.lists source).outcome.map fun page =>
      { page with diagnostics := linesOf c.lists source }) =
      (Shoutmark.compile c.lists source).outcome := by
    cases ho : (Shoutmark.compile c.lists source).outcome with
    | error e => rfl
    | ok page =>
      have hd := diagnostics_of_ok ho
      rw [diagnostics_compile] at hd
      rw [← hd]
      rfl
  unfold compile
  dsimp only
  rw [Heard.foldl_hear, hlines, List.nil_append, hpage]

/-- How a compilation ends does not hang on who follows it, nor on what was heard before. -/
theorem compile_fst (c : Compiler) (source : String) (h : Heard) :
    (c.compile source h).1 = (Shoutmark.compile c.lists source).outcome := by
  rw [compile_eq]

theorem compileAll_fst (c : Compiler) (sources : List String) (h : Heard) :
    (c.compileAll sources h).1 =
      sources.map fun source => (Shoutmark.compile c.lists source).outcome := by
  induction sources generalizing h with
  | nil => rfl
  | cons source sources ih =>
    have hcons : (c.compileAll (source :: sources) h).1 = (c.compile source h).1 ::
        (c.compileAll sources (c.compile source h).2).1 := by
      simp only [compileAll, List.mapM_cons]
      rfl
    rw [hcons, ih, compile_fst, List.map_cons]

/-- The log of a compilation at the verbosity at which it prints all lines. -/
def fullLog (lists sink : Bool) (source : String) : List LogLine :=
  ((Compiler.mk lists ⟨sink, some 3⟩).compile source .nothing).2.printed

theorem fullLog_eq (lists sink : Bool) (source : String) :
    fullLog lists sink source =
      ((Shoutmark.compile lists source).events.filter (Event.isLogged sink)).map Event.line := by
  have hall : ∀ e : Event, (Listeners.mk sink (some 3)).logs e = e.isLogged sink := by
    intro e
    have hprints : (Listeners.mk sink (some 3)).prints e.level = true := by
      cases e <;> rfl
    rw [Listeners.logs, hprints, Bool.true_and]
  rw [fullLog, compile_eq]
  exact congrArg (List.map Event.line) (List.filter_congr fun e _ => hall e)

theorem filter_fullLog (lists sink : Bool) (source : String) (k : Nat) :
    (fullLog lists sink source).filter (·.level == k) =
      (((Shoutmark.compile lists source).events.filter (·.level == k)).filter
        (Event.isLogged sink)).map Event.line := by
  rw [fullLog_eq, List.filter_map, List.filter_filter, List.filter_filter]
  exact congrArg (List.map Event.line) (List.filter_congr fun e _ => Bool.and_comm _ _)

/-- The lines of level 1 are those that would go to a sink if there were one. -/
theorem levelOne_fullLog (lists sink : Bool) (source : String) :
    (fullLog lists sink source).filter (·.level == 1) =
      if sink then [] else (linesOf lists source).map (LogLine.mk 1) := by
  rw [filter_fullLog, events_levelOne]
  have hdiagnostic : ∀ e ∈ (toldOf (completed lists (wordsOf source))).filter (·.level == 1),
      e.isLogged sink = !sink := by
    intro e h
    obtain ⟨htold, hlevel⟩ := List.mem_filter.mp h
    obtain ⟨x, -, rfl⟩ := List.mem_map.mp htold
    rcases x.1.event_cases x.2 with ⟨m, he, -⟩ | ⟨name, value, he, -⟩
    · rw [he]
      rfl
    · rw [he] at hlevel
      cases hlevel
  rw [List.filter_congr hdiagnostic]
  cases sink with
  | true => simp
  | false =>
    rw [List.filter_eq_self.mpr (fun _ _ => Bool.not_false), levelOne_toldOf]
    rfl

/-- The lines of level 3 are the count of the words and one for each definition that is read to its
end. -/
theorem levelThree_fullLog (lists sink : Bool) (source : String) :
    (fullLog lists sink source).filter (·.level == 3) =
      ((scanned source).map Event.message ++ tracesOf lists source).map (LogLine.mk 3) := by
  have hlogged : ∀ e : Event, (e.level == 3) = true → e.isLogged sink = true := by
    intro e he
    cases e with
    | diagnostic d => cases he
    | _ => rfl
  have hall : ((Shoutmark.compile lists source).events.filter (·.level == 3)).filter
      (Event.isLogged sink) = (Shoutmark.compile lists source).events.filter (·.level == 3) :=
    List.filter_eq_self.mpr fun e h => hlogged e (List.mem_filter.mp h).2
  have hscanned : (scanned source).map Event.line =
      ((scanned source).map Event.message).map (LogLine.mk 3) := by
    rw [List.map_map]
    refine List.map_congr_left fun e h => ?_
    rw [Event.line, scanned_level source e h]
    rfl
  rw [filter_fullLog, hall, events_levelThree, List.map_append, hscanned, levelThree_toldOf,
    tracesOf, List.map_append]

/-- What comes of a source that is compiled when this was heard before. -/
structure Followed (lists : Bool) (l : Listeners) (source : String) (before : Heard)
    (result : Except CompileError Page × Heard) : Prop where
  /-- It ends as it does when nobody follows. -/
  outcome : result.1 = ((Compiler.mk lists .nobody).compile source .nothing).1
  /-- The constructs are those of the run of its program. -/
  run : (course lists .start (.start (wordsOf source))).2 =
    Grammar.program lists (.start (wordsOf source))
  diagnostics : ∀ page, result.1 = .ok page → page.diagnostics = linesOf lists source
  received : result.2.received =
    before.received ++ if l.sink then linesOf lists source else []
  printed : result.2.printed = before.printed ++
    match l.verbosity with
    | some n => (fullLog lists l.sink source).filter fun line => line.level ≤ n
    | none => []
  levelOne : (fullLog lists l.sink source).filter (·.level == 1) =
    if l.sink then [] else (linesOf lists source).map (LogLine.mk 1)
  levelThree : (fullLog lists l.sink source).filter (·.level == 3) =
    ((scanned source).map Event.message ++ tracesOf lists source).map (LogLine.mk 3)

theorem followed (lists : Bool) (l : Listeners) (source : String) (before : Heard) :
    Followed lists l source before ((Compiler.mk lists l).compile source before) where
  outcome := by rw [compile_fst, compile_fst]
  run := by rw [course_end, program_eq_resume]
  diagnostics page h := by
    rw [compile_fst] at h
    rw [diagnostics_of_ok h, diagnostics_compile]
  received := by rw [compile_eq]
  printed := by
    rw [compile_eq, fullLog_eq, l.printed_eq]
    dsimp only
    congr 1
    unfold Listeners.prints
    cases l.verbosity with
    | some n => rfl
    | none => simp
  levelOne := levelOne_fullLog lists l.sink source
  levelThree := levelThree_fullLog lists l.sink source

/-- A compiler ends each of its sources as one that is new and that nobody follows. The sink is given
a line for each comment, title and medium that is read to its end, before an error too, and these
are the diagnostics of a page; the log prints them at level 1 where there is no sink, and a line for
each definition that is read to its end at level 3. A lower verbosity leaves out lines of higher
levels and no others. -/
theorem listeners_only_listen (lists : Bool) (l : Listeners) :
    (∀ sources, ((Compiler.mk lists l).compileAll sources .nothing).1 =
      sources.map fun source => ((Compiler.mk lists .nobody).compile source .nothing).1) ∧
    ∀ (earlier : List String) (source : String),
      let before := ((Compiler.mk lists l).compileAll earlier .nothing).2
      Followed lists l source before ((Compiler.mk lists l).compile source before) := by
  constructor
  · intro sources
    rw [compileAll_fst]
    refine List.map_congr_left fun source _ => ?_
    rw [compile_fst]
  · intro earlier source before
    exact followed lists l source before

end Compiler

end Shoutmark
