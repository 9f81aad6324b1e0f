import Mathlib.Data.List.Basic
import Mathlib.Data.List.Find
import Mathlib.Data.List.Induction
import Shoutmark.Proofs.Settings.File
import Shoutmark.Proofs.Settings.Load

/-! Settings that stand in the environment or in a file come back as they are, and nothing else in
the environment counts but the variables that name a field and those that the file refers to. -/

namespace Shoutmark

namespace EnvironmentFile

variable {environment : List (String × String)} {es : List Entry} {e : Entry}

/-! ### The lines of a file -/

/-- The value that a name has from its last line, which may refer to the lines before it. -/
theorem lookup_assignments_last (environment : List (String × String)) (before : List Entry)
    (e : Entry) {after : List Entry} (h : ∀ e' ∈ after, e'.name ≠ e.name) :
    (assignments environment (before ++ e :: after)).lookup e.name =
      some (e.value.map (expand (known environment (assignments environment before)))) := by
  have hafter (later : List Entry) (hlater : ∀ e' ∈ later, e'.name ≠ e.name) :
      ∀ file : List (String × Option String),
        (later.foldl (fun file e =>
          Named.put e.name (e.value.map (expand (known environment file))) file) file).lookup
            e.name = file.lookup e.name := by
    induction later with
    | nil => exact fun _ => rfl
    | cons e' later ih =>
      intro file
      obtain ⟨he', hlater⟩ := List.forall_mem_cons.mp hlater
      rw [List.foldl_cons, ih hlater, Named.lookup_put_of_ne (Ne.symm he')]
  rw [assignments, List.foldl_append, List.foldl_cons, hafter after h, Named.lookup_put_self]
  rfl

/-! ### What a file takes from the environment -/

theorem expand_congr {known known' : String → Option String} {value : String}
    (h : ∀ name fallback, Piece.reference name fallback ∈ pieces value.toList →
      known name = known' name) : expand known value = expand known' value := by
  refine congrArg String.ofList (List.flatMap_congr fun p hp => ?_)
  cases p with
  | plain c => rfl
  | reference name fallback => rw [Piece.expand, Piece.expand, h name fallback hp]

/-- A file says the same in two environments that agree on the names it refers to. -/
theorem assignments_congr {environment' : List (String × String)}
    (h : ∀ name ∈ namesReferredTo es, environment.lookup name = environment'.lookup name) :
    assignments environment es = assignments environment' es := by
  refine List.foldl_ext _ _ _ fun file e he => ?_
  cases hvalue : e.value with
  | none => rfl
  | some value =>
    have hexpand : expand (known environment file) value = expand (known environment' file) value := by
      refine expand_congr fun name fallback hmem => ?_
      have hname : name ∈ namesReferredTo es := by
        have hpiece : Piece.reference name fallback ∈
            es.flatMap fun e => pieces (e.value.getD "").toList :=
          List.mem_flatMap.mpr ⟨e, he, by rwa [hvalue]⟩
        exact List.mem_filterMap.mpr ⟨_, hpiece, rfl⟩
      rw [known, known, h name hname]
    rw [Option.map_some, Option.map_some, hexpand]

theorem assignments_of_no_dollar {vs : List (String × String)} (hdiffer : vs.Pairwise (·.1 ≠ ·.1))
    (hplain : ∀ v ∈ vs, '$' ∉ v.2.toList) (environment : List (String × String)) :
    assignments environment (vs.map fun v => ⟨v.1, some v.2⟩) =
      vs.map fun v => (v.1, some v.2) := by
  have hput (v : String × String) (hv : v ∈ vs) (file : List (String × Option String)) :
      Named.put v.1 ((some v.2).map (expand (known environment file))) file =
        Named.put v.1 (some v.2) file := by
    rw [Option.map_some, expand_of_no_dollar (hplain v hv)]
  rw [assignments, List.foldl_map, List.foldl_ext _ _ _ fun file v hv => hput v hv file]
  have hdiffer' : (vs.map fun v => (v.1, some v.2)).Pairwise (·.1 ≠ ·.1) :=
    List.pairwise_map.mpr hdiffer
  have hfold := Named.foldl_put hdiffer' [] fun _ _ => List.not_mem_nil
  rwa [List.foldl_map, List.nil_append] at hfold

end EnvironmentFile

namespace Settings

variable {t : Settings} {f : Field} {spell : Field → String}
  {environment : List (String × String)} {file : List EnvironmentFile.Entry}

/-! ### Variables that do not count -/

/-- A variable that the settings may depend on: one that names a field, in any case, or one that the
file refers to. -/
def isAskedFor (file : List EnvironmentFile.Entry) (name : String) : Bool :=
  Field.all.any (fun f => Sources.isNamed name f.variableName) ||
    (EnvironmentFile.namesReferredTo file).contains name

theorem environment?_filter (direct : List (String × Given)) :
    Sources.environment? ⟨direct, environment.filter (isAskedFor file ·.1), file⟩ f =
      Sources.environment? ⟨direct, environment, file⟩ f := by
  have hcounts (e : String × String) (h : Sources.isNamed e.1 f.variableName = true) :
      isAskedFor file e.1 = true :=
    Bool.or_eq_true_iff.mpr (Or.inl (List.any_eq_true.mpr ⟨f, f.mem_all, h⟩))
  rw [Sources.environment?, Sources.environment?, ← List.filter_reverse, List.find?_filter]
  refine congrArg _ (List.find?_congr fun e _ => ?_)
  rw [Bool.eq_iff_iff, decide_eq_true_iff]
  exact ⟨And.right, fun h => ⟨hcounts e h, h⟩⟩

theorem lookup_filter {name : String} (h : isAskedFor file name = true) :
    (environment.filter (isAskedFor file ·.1)).lookup name = environment.lookup name := by
  induction environment with
  | nil => rfl
  | cons e environment ih =>
    obtain ⟨key, value⟩ := e
    by_cases hkey : name = key
    · subst hkey
      rw [List.filter_cons, if_pos h, List.lookup_cons_self, List.lookup_cons_self]
    · rw [List.filter_cons]
      split
      · rw [List.lookup_cons, List.lookup_cons, ih]
      · rw [List.lookup_cons, beq_false_of_ne hkey]
        exact ih

/-- Variables that name no field and that the file does not refer to do not count. -/
theorem load_filter (direct : List (String × Given)) (environment : List (String × String))
    (file : List EnvironmentFile.Entry) :
    load ⟨direct, environment.filter (isAskedFor file ·.1), file⟩ =
      load ⟨direct, environment, file⟩ := by
  have hassignments :
      EnvironmentFile.assignments (environment.filter (isAskedFor file ·.1)) file =
        EnvironmentFile.assignments environment file := by
    refine EnvironmentFile.assignments_congr fun name hname => lookup_filter ?_
    exact Bool.or_eq_true_iff.mpr (Or.inr (List.contains_iff_mem.mpr hname))
  have hvalues :
      Sources.fileValues ⟨direct, environment.filter (isAskedFor file ·.1), file⟩ =
        Sources.fileValues ⟨direct, environment, file⟩ := by
    rw [Sources.fileValues, hassignments]
    rfl
  refine load_congr (fun f => ?_) ?_
  · rw [Sources.given?, Sources.given?, environment?_filter, Sources.fileValue?, hvalues]
    rfl
  · rw [Sources.strayNames, Sources.strayFileNames, hvalues]
    rfl

/-! ### Settings in the environment and in a file -/

def Given.word? : Given → Option String
  | .text s => some s
  | .flag b => some (if b then "true" else "false")
  | _ => none

/-- The settings as variables, spelled in some case. A field without a value has no variable. -/
def exported (spell : Field → String) (t : Settings) : List (String × String) :=
  Field.all.filterMap fun f => (t.value f).word?.map (spell f, ·)

theorem check_word {w : String} (h : (t.value f).word? = some w) :
    f.check (.text w) = .ok (t.value f) := by
  have hflag (b : Bool) : (Given.text (if b then "true" else "false")).toFlag = .ok b := by
    cases b <;> rfl
  cases f with
  | sourceExtension | outputExtension | listingStyle =>
    cases h
    rfl
  | strictExtension | listsEnabled | openBrowser =>
    cases h
    exact congrArg (Except.map Given.flag) (hflag _)
  | browser =>
    rw [value] at h ⊢
    cases hbrowser : t.browser with
    | none =>
      rw [hbrowser] at h
      cases h
    | some name =>
      rw [hbrowser] at h
      cases h
      rfl

theorem value_of_word?_eq_none (h : (t.value f).word? = none) : t.value f = value {} f := by
  cases f with
  | browser =>
    rw [value] at h ⊢
    cases hbrowser : t.browser with
    | none => rfl
    | some name =>
      rw [hbrowser] at h
      cases h
  | _ => cases h

theorem checked_of_given {s : Sources} (h : s.given? f = (t.value f).word?.map .text) :
    s.checked f = .ok (t.value f) := by
  rw [Sources.checked, h]
  cases hword : (t.value f).word? with
  | none => rw [Option.map_none, Option.getD_none, value_of_word?_eq_none hword, check_value]
  | some w => rw [Option.map_some, Option.getD_some, check_word hword]

theorem mem_exported {e : String × String} :
    e ∈ t.exported spell ↔ ∃ f, spell f = e.1 ∧ (t.value f).word? = some e.2 := by
  obtain ⟨name, w⟩ := e
  rw [exported, List.mem_filterMap]
  constructor
  · rintro ⟨f, -, h⟩
    obtain ⟨w', hw', heq⟩ := Option.map_eq_some_iff.mp h
    cases heq
    exact ⟨f, rfl, hw'⟩
  · rintro ⟨f, rfl, hw⟩
    exact ⟨f, f.mem_all, by rw [hw, Option.map_some]⟩

theorem variableName_injective {f g : Field} (h : f.variableName = g.variableName) : f = g :=
  name_injective (String.append_right_inj variableStart |>.mp h)

theorem lower_variableName (f : Field) : Text.lower f.variableName = f.variableName := by
  have hstart : variableStart.toList ⊆ nameCharacters := by decide
  refine Text.lower_of_small fun c hc => lowerChar_of_mem ?_
  rw [Field.variableName, String.toList_append, List.mem_append] at hc
  exact hc.elim (fun h => hstart h) fun h => f.name_subset h

theorem isName_variableName (f : Field) : EnvironmentFile.IsName f.variableName.toList := by
  have hplain : (nameCharacters.all fun c =>
      decide (c ∉ ['=', '#', '\'', '\uFEFF'] ∧ Text.isBlank c = false)) = true := by decide
  have hstart : variableStart.toList ⊆ nameCharacters := by decide
  rw [Field.variableName, String.toList_append]
  refine ⟨List.append_ne_nil_of_left_ne_nil (by decide) _, fun c hc =>
    of_decide_eq_true (List.all_eq_true.mp hplain c ?_)⟩
  exact (List.mem_append.mp hc).elim (fun h => hstart h) fun h => f.name_subset h

theorem exported_pairwise (hspell : ∀ f, Text.lower (spell f) = f.variableName) :
    (t.exported spell).Pairwise fun e e' => Text.lower e.1 ≠ Text.lower e'.1 := by
  have hall : Field.all.Pairwise (· ≠ ·) := by decide
  refine List.pairwise_filterMap.mpr (hall.imp fun {f g} hne e he e' he' heq => hne ?_)
  obtain ⟨_, -, rfl⟩ := Option.map_eq_some_iff.mp he
  obtain ⟨_, -, rfl⟩ := Option.map_eq_some_iff.mp he'
  rw [hspell, hspell] at heq
  exact variableName_injective heq

theorem environment?_exported (hspell : ∀ f, Text.lower (spell f) = f.variableName)
    (direct : List (String × Given)) :
    Sources.environment? ⟨direct, t.exported spell, file⟩ f = (t.value f).word?.map .text := by
  have hnamed {e : String × String} (he : e ∈ (t.exported spell).reverse)
      (h : Sources.isNamed e.1 f.variableName = true) :
      e.1 = spell f ∧ (t.value f).word? = some e.2 := by
    obtain ⟨g, hg, hw⟩ := mem_exported.mp (List.mem_reverse.mp he)
    rw [Sources.isNamed, ← hg, hspell, beq_iff_eq] at h
    rw [← variableName_injective h]
    exact ⟨hg.symm, hw⟩
  rw [Sources.environment?]
  cases hword : (t.value f).word? with
  | none =>
    rw [List.find?_eq_none.mpr]
    · rfl
    · intro e he h
      rw [(hnamed he h).2] at hword
      cases hword
  | some w =>
    have hmem : (spell f, w) ∈ (t.exported spell).reverse :=
      List.mem_reverse.mpr (mem_exported.mpr ⟨f, rfl, hword⟩)
    have hfind : (t.exported spell).reverse.find? (Sources.isNamed ·.1 f.variableName) =
        some (spell f, w) := by
      refine find?_of_unique hmem (beq_iff_eq.mpr (hspell f)) fun e he h => ?_
      obtain ⟨hname, hw⟩ := hnamed he h
      rw [hword, Option.some.injEq] at hw
      exact Prod.ext hname hw.symm
    rw [hfind]
    rfl

/-- Settings that stand in the environment are loaded as they are. -/
theorem load_exported (t : Settings) (hspell : ∀ f, Text.lower (spell f) = f.variableName) :
    load ⟨[], t.exported spell, []⟩ = .ok t := by
  refine load_eq_ok_iff.mpr ⟨fun f => checked_of_given ?_, rfl⟩
  have hfile : Sources.fileValue? ⟨[], t.exported spell, []⟩ f.variableName = none := rfl
  rw [Sources.given?, environment?_exported hspell, hfile]
  exact Option.or_none

theorem fileValues_exported (hspell : ∀ f, Text.lower (spell f) = f.variableName)
    (hplain : ∀ e ∈ t.exported spell, '$' ∉ e.2.toList) (direct : List (String × Given)) :
    Sources.fileValues
        ⟨direct, environment, (t.exported spell).map fun e => ⟨e.1, some e.2⟩⟩ =
      (t.exported Field.variableName).map fun e => (e.1, some e.2) := by
  have hdiffer : (t.exported spell).Pairwise (·.1 ≠ ·.1) :=
    (exported_pairwise hspell).imp fun h heq => h (congrArg Text.lower heq)
  have hlower : (t.exported spell).map (fun e => (Text.lower e.1, some e.2)) =
      (t.exported Field.variableName).map fun e => (e.1, some e.2) := by
    rw [exported, exported, List.map_filterMap, List.map_filterMap]
    refine List.filterMap_congr fun f _ => ?_
    cases (t.value f).word? with
    | none => rfl
    | some w => simp only [Option.map_some, hspell]
  have hlower' : ((t.exported spell).map fun e => (Text.lower e.1, some e.2)).Pairwise
      (·.1 ≠ ·.1) := List.pairwise_map.mpr (exported_pairwise hspell)
  have hfold := Named.foldl_put hlower' [] fun _ _ => List.not_mem_nil
  rw [Sources.fileValues, EnvironmentFile.assignments_of_no_dollar hdiffer hplain, List.foldl_map]
  rw [List.foldl_map, List.nil_append, hlower] at hfold
  exact hfold

theorem lookup_exported (t : Settings) (f : Field) :
    ((t.exported Field.variableName).map fun e => (e.1, some e.2)).lookup f.variableName =
      (t.value f).word?.map some := by
  have hdiffer : ((t.exported Field.variableName).map fun e => (e.1, some e.2)).Pairwise
      (·.1 ≠ ·.1) :=
    List.pairwise_map.mpr <|
      (exported_pairwise lower_variableName).imp fun h heq => h (congrArg Text.lower heq)
  cases hword : (t.value f).word? with
  | none =>
    refine List.lookup_eq_none_iff.mpr fun e he => ?_
    obtain ⟨v, hv, rfl⟩ := List.mem_map.mp he
    obtain ⟨g, hg, hw⟩ := mem_exported.mp hv
    refine bne_iff_ne.mpr fun heq => ?_
    rw [← hg] at heq
    rw [← variableName_injective heq, hword] at hw
    cases hw
  | some w =>
    have hmem : (f.variableName, some w) ∈
        (t.exported Field.variableName).map fun e => (e.1, some e.2) :=
      List.mem_map.mpr ⟨(f.variableName, w), mem_exported.mpr ⟨f, rfl, hword⟩, rfl⟩
    exact Named.lookup_of_mem hdiffer hmem

/-- Settings that are written to a file are loaded from it as they are, in an environment that
names no field. -/
theorem load_written (t : Settings) (hspell : ∀ f, Text.lower (spell f) = f.variableName)
    (hnames : ∀ f, EnvironmentFile.IsName (spell f).toList)
    (hplain : ∀ e ∈ t.exported spell, '$' ∉ e.2.toList ∧ '\r' ∉ e.2.toList)
    (henvironment : ∀ e ∈ environment, ∀ f, Text.lower e.1 ≠ Field.variableName f) :
    load ⟨[], environment, EnvironmentFile.entries (EnvironmentFile.written (t.exported spell))⟩ =
      .ok t := by
  have hentries : EnvironmentFile.entries (EnvironmentFile.written (t.exported spell)) =
      (t.exported spell).map fun e => ⟨e.1, some e.2⟩ := by
    refine EnvironmentFile.entries_written fun e he => ⟨?_, (hplain e he).2⟩
    obtain ⟨f, hf, -⟩ := mem_exported.mp he
    exact hf ▸ hnames f
  have hvalues : Sources.fileValues
        ⟨[], environment, (t.exported spell).map fun e => ⟨e.1, some e.2⟩⟩ =
      (t.exported Field.variableName).map fun e => (e.1, some e.2) :=
    fileValues_exported hspell (fun e he => (hplain e he).1) []
  rw [hentries]
  refine load_eq_ok_iff.mpr ⟨fun f => checked_of_given ?_, ?_⟩
  · have henv : Sources.environment?
        ⟨[], environment, (t.exported spell).map fun e => ⟨e.1, some e.2⟩⟩ f = none := by
      rw [Sources.environment?, List.find?_eq_none.mpr]
      · rfl
      · intro e he hname
        exact henvironment e (List.mem_reverse.mp he) f (beq_iff_eq.mp hname)
    rw [Sources.given?, henv, Sources.fileValue?, hvalues, lookup_exported]
    cases (t.value f).word? <;> rfl
  · have hstrays : Sources.strayFileNames
        ⟨[], environment, (t.exported spell).map fun e => ⟨e.1, some e.2⟩⟩ = [] := by
      rw [Sources.strayFileNames, hvalues, List.map_eq_nil_iff, List.filter_eq_nil_iff]
      intro e he hstray
      obtain ⟨v, hv, rfl⟩ := List.mem_map.mp he
      obtain ⟨f, hf, -⟩ := mem_exported.mp hv
      have hother := List.all_eq_true.mp (Bool.and_eq_true_iff.mp hstray).2 f f.mem_all
      rw [← hf, bne_self_eq_false] at hother
      cases hother
    rw [Sources.strayNames, hstrays]
    rfl

end Settings

end Shoutmark
