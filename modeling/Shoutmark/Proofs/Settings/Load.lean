import Shoutmark.Settings.Load

/-! What settings come to. Either every field passes its check, whatever source it is from, and
every name is known, or all that is wrong is told: the fields in their order, then the names.
Settings that are given directly come back as they are, whatever the environment and the file say,
and so do settings that stand in the environment. -/

namespace Shoutmark.Settings

variable {s : Sources} {t : Settings} {f : Field} {rs : List Rejection}

/-! ### One field -/

def ofText? : Option String → Given
  | some text => .text text
  | none => .nothing

def value (t : Settings) : Field → Given
  | .sourceExtension => .text t.sourceExtension
  | .outputExtension => .text t.outputExtension
  | .strictExtension => .flag t.strictExtension
  | .listsEnabled => .flag t.listsEnabled
  | .openBrowser => .flag t.openBrowser
  | .browser => ofText? t.browser
  | .listingStyle => .text t.listingStyle

/-- The value that a field takes when this is given for it. -/
def Field.check : Field → Given → Except Flaw Given
  | .sourceExtension, g | .outputExtension, g | .listingStyle, g => g.toText.map .text
  | .strictExtension, g | .listsEnabled, g | .openBrowser, g => g.toFlag.map .flag
  | .browser, g => g.toOptionalText.map ofText?

/-- What a field comes to. A source that says nothing leaves the default to be checked. -/
def Sources.checked (s : Sources) (f : Field) : Except Flaw Given :=
  f.check ((s.given? f).getD (value {} f))

theorem Field.mem_all (f : Field) : f ∈ Field.all := by cases f <;> decide

/-- Every value that a field can have passes the check of the field, the default too. -/
theorem check_value (t : Settings) (f : Field) : f.check (t.value f) = .ok (t.value f) := by
  cases f with
  | browser => cases ht : t.browser <;> simp [value, ofText?, Field.check, ht] <;> rfl
  | _ => rfl

theorem ofText?_injective {a b : Option String} (h : ofText? a = ofText? b) : a = b := by
  cases a <;> cases b <;> cases h <;> rfl

theorem ext_of_value {t t' : Settings} (h : ∀ f, t.value f = t'.value f) : t = t' := by
  have hbrowser := ofText?_injective (h .browser)
  have hsource := Given.text.inj (h .sourceExtension)
  have houtput := Given.text.inj (h .outputExtension)
  have hstrict := Given.flag.inj (h .strictExtension)
  have hlists := Given.flag.inj (h .listsEnabled)
  have hopens := Given.flag.inj (h .openBrowser)
  have hstyle := Given.text.inj (h .listingStyle)
  cases t
  cases t'
  simp only at *
  subst hbrowser hsource houtput hstrict hlists hopens hstyle
  rfl

theorem checked_eq {α : Type} {as : Given → Except Flaw α} {w : α → Given} {default : α}
    (hcheck : ∀ g, f.check g = (as g).map w) (hdefault : value {} f = w default) :
    s.checked f = (s.read f as default).map w := by
  rw [Sources.checked, Sources.read]
  cases s.given? f with
  | some g => exact hcheck g
  | none =>
    have hpass := check_value {} f
    rw [hdefault] at hpass
    rw [Option.getD_none, hdefault, hpass]
    rfl

theorem rejection_map {α β : Type} (w : α → β) (x : Except Flaw α) :
    rejection f (x.map w) = rejection f x := by cases x <;> rfl

theorem rejection_eq_nil {α : Type} {x : Except Flaw α} :
    rejection f x = [] ↔ ∃ a, x = .ok a := by cases x <;> simp [rejection]

/-! ### All fields -/

def Sources.rejections (s : Sources) : List Rejection :=
  Field.all.flatMap (fun f => rejection f (s.checked f)) ++
    s.strayNames.map fun n => ⟨n, .unknownName⟩

theorem mem_rejections {r : Rejection} :
    r ∈ s.rejections ↔
      (∃ f : Field, r.name = f.name ∧ s.checked f = .error r.flaw) ∨
        r.name ∈ s.strayNames ∧ r.flaw = .unknownName := by
  have hfield (f : Field) : r ∈ rejection f (s.checked f) ↔
      r.name = f.name ∧ s.checked f = .error r.flaw := by
    obtain ⟨name, flaw⟩ := r
    cases s.checked f <;> simp [rejection, eq_comm]
  rw [Sources.rejections, List.mem_append, List.mem_flatMap, List.mem_map]
  refine or_congr ⟨?_, ?_⟩ ⟨?_, ?_⟩
  · rintro ⟨f, -, h⟩
    exact ⟨f, (hfield f).mp h⟩
  · rintro ⟨f, h⟩
    exact ⟨f, f.mem_all, (hfield f).mpr h⟩
  · rintro ⟨n, hn, rfl⟩
    exact ⟨hn, rfl⟩
  · rintro ⟨hn, hflaw⟩
    exact ⟨r.name, hn, hflaw ▸ rfl⟩

theorem rejections_eq_nil_iff :
    s.rejections = [] ↔ (∀ f, ∃ g, s.checked f = .ok g) ∧ s.strayNames = [] := by
  rw [Sources.rejections, List.append_eq_nil_iff, List.flatMap_eq_nil_iff, List.map_eq_nil_iff]
  exact and_congr_left fun _ =>
    ⟨fun h f => rejection_eq_nil.mp (h f f.mem_all), fun h f _ => rejection_eq_nil.mpr (h f)⟩

theorem exists_ok_of_checked {α : Type} {x : Except Flaw α} {w : α → Given} {f : Field}
    (h : s.checked f = x.map w) (hf : ∃ g, s.checked f = .ok g) : ∃ a, x = .ok a := by
  obtain ⟨g, hg⟩ := hf
  rw [h] at hg
  cases x with
  | error flaw => cases hg
  | ok a => exact ⟨a, rfl⟩

/-- Either every field comes to a value and every name is known, or all that is wrong is told. -/
theorem load_cases (s : Sources) :
    (∃ t, load s = .ok t ∧ (∀ f, s.checked f = .ok (t.value f)) ∧ s.strayNames = []) ∨
      load s = .error s.rejections ∧ s.rejections ≠ [] := by
  have source := checked_eq (s := s) (f := .sourceExtension) (fun _ => rfl) rfl
  have output := checked_eq (s := s) (f := .outputExtension) (fun _ => rfl) rfl
  have strict := checked_eq (s := s) (f := .strictExtension) (fun _ => rfl) rfl
  have lists := checked_eq (s := s) (f := .listsEnabled) (fun _ => rfl) rfl
  have opens := checked_eq (s := s) (f := .openBrowser) (fun _ => rfl) rfl
  have browser : s.checked .browser = (s.read .browser Given.toOptionalText none).map ofText? :=
    checked_eq (fun _ => rfl) rfl
  have style := checked_eq (s := s) (f := .listingStyle) (fun _ => rfl) rfl
  have htold : s.rejections =
      rejection .sourceExtension (s.checked .sourceExtension) ++
        (rejection .outputExtension (s.checked .outputExtension) ++
        (rejection .strictExtension (s.checked .strictExtension) ++
        (rejection .listsEnabled (s.checked .listsEnabled) ++
        (rejection .openBrowser (s.checked .openBrowser) ++
        (rejection .browser (s.checked .browser) ++
        (rejection .listingStyle (s.checked .listingStyle) ++
          s.strayNames.map fun n => ⟨n, .unknownName⟩)))))) := by
    simp only [Sources.rejections, Field.all, List.flatMap_cons, List.flatMap_nil, List.append_nil,
      List.append_assoc]
  unfold load
  dsimp only
  split
  · rename_i hsource houtput hstrict hlists hopens hbrowser hstyle hstrays
    refine Or.inl ⟨_, rfl, fun f => ?_, hstrays⟩
    cases f with
    | sourceExtension => rw [source, hsource]; rfl
    | outputExtension => rw [output, houtput]; rfl
    | strictExtension => rw [strict, hstrict]; rfl
    | listsEnabled => rw [lists, hlists]; rfl
    | openBrowser => rw [opens, hopens]; rfl
    | browser => rw [browser, hbrowser]; rfl
    | listingStyle => rw [style, hstyle]; rfl
  · rename_i hnot
    refine Or.inr ⟨?_, fun hnil => ?_⟩
    · rw [htold, source, output, strict, lists, opens, browser, style]
      simp only [rejection_map, List.append_assoc]
    · obtain ⟨hall, hstrays⟩ := rejections_eq_nil_iff.mp hnil
      obtain ⟨a, ha⟩ := exists_ok_of_checked source (hall _)
      obtain ⟨b, hb⟩ := exists_ok_of_checked output (hall _)
      obtain ⟨c, hc⟩ := exists_ok_of_checked strict (hall _)
      obtain ⟨d, hd⟩ := exists_ok_of_checked lists (hall _)
      obtain ⟨e, he⟩ := exists_ok_of_checked opens (hall _)
      obtain ⟨g, hg⟩ := exists_ok_of_checked browser (hall _)
      obtain ⟨i, hi⟩ := exists_ok_of_checked style (hall _)
      exact hnot a b c d e g i ha hb hc hd he hg hi hstrays

/-- Settings are loaded just when their values are what the fields come to and every name is
known. -/
theorem load_eq_ok_iff :
    load s = .ok t ↔ (∀ f, s.checked f = .ok (t.value f)) ∧ s.strayNames = [] := by
  constructor
  · intro h
    obtain ⟨t', ht', hvalues⟩ | ⟨hrefused, -⟩ := load_cases s
    · rw [ht'] at h
      cases h
      exact hvalues
    · rw [hrefused] at h
      cases h
  · rintro ⟨hvalues, hstrays⟩
    obtain ⟨t', ht', hvalues', -⟩ | ⟨-, hne⟩ := load_cases s
    · have hsame : t' = t := ext_of_value fun f => Except.ok.inj ((hvalues' f).symm.trans (hvalues f))
      rw [ht', hsame]
    · exact absurd (rejections_eq_nil_iff.mpr ⟨fun f => ⟨_, hvalues f⟩, hstrays⟩) hne

/-- Settings are refused just when something is wrong, and all of it is told: every field that does
not pass its check, by its name, and every name that no setting goes by. -/
theorem load_eq_error_iff : load s = .error rs ↔ rs = s.rejections ∧ rs ≠ [] := by
  obtain ⟨t, ht, hvalues, hstrays⟩ | ⟨hrefused, hne⟩ := load_cases s
  · have hnil := rejections_eq_nil_iff.mpr ⟨fun f => ⟨_, hvalues f⟩, hstrays⟩
    rw [ht, hnil]
    constructor
    · rintro ⟨⟩
    · rintro ⟨rfl, h⟩
      exact absurd rfl h
  · rw [hrefused, Except.error.injEq]
    constructor
    · rintro rfl
      exact ⟨rfl, hne⟩
    · rintro ⟨rfl, -⟩
      rfl

/-- Settings depend on nothing but what the sources say of the fields and on the names that no
setting goes by. -/
theorem load_congr {s' : Sources} (h : ∀ f, s.given? f = s'.given? f)
    (hstrays : s.strayNames = s'.strayNames) : load s = load s' := by
  unfold load Sources.read
  simp only [h, hstrays]

/-- Sources that say nothing leave every setting at its default. -/
theorem load_of_silent (h : ∀ f, s.given? f = none) (hstrays : s.strayNames = []) :
    load s = .ok {} := by
  refine load_eq_ok_iff.mpr ⟨fun f => ?_, hstrays⟩
  rw [Sources.checked, h f, Option.getD_none, check_value]

/-! ### Settings given as they are -/

/-- The characters of the names of the fields. -/
def nameCharacters : List Char := "abcdefghijklmnopqrstuvwxyz_".toList

theorem lowerChar_of_mem {c : Char} (h : c ∈ nameCharacters) : Text.lowerChar c = [c] := by
  have hall : (nameCharacters.all fun c => Text.lowerChar c == [c]) = true := by decide
  exact beq_iff_eq.mp (List.all_eq_true.mp hall c h)

theorem Field.name_subset (f : Field) : f.name.toList ⊆ nameCharacters := by
  cases f <;> decide

theorem lower_name (f : Field) : Text.lower f.name = f.name :=
  Text.lower_of_small fun _ hc => lowerChar_of_mem (f.name_subset hc)

theorem name_injective {f g : Field} (h : f.name = g.name) : f = g := by
  cases f <;> cases g <;> first | rfl | exact absurd h (by decide)

theorem isNamed_name {f g : Field} : Sources.isNamed g.name f.name = true ↔ g = f := by
  rw [Sources.isNamed, lower_name, beq_iff_eq]
  exact ⟨name_injective, congrArg Field.name⟩

/-- All fields under their names, each with its value. -/
def direct (t : Settings) : List (String × Given) := Field.all.map fun f => (f.name, t.value f)

theorem mem_direct {e : String × Given} : e ∈ t.direct ↔ ∃ f : Field, (f.name, t.value f) = e := by
  rw [direct, List.mem_map]
  exact exists_congr fun f => and_iff_right f.mem_all

theorem find?_of_unique {α : Type} {p : α → Bool} {es : List α} {a : α} (hmem : a ∈ es)
    (ha : p a = true) (hone : ∀ b ∈ es, p b = true → b = a) : es.find? p = some a := by
  cases hfind : es.find? p with
  | none => exact absurd ha (List.find?_eq_none.mp hfind a hmem)
  | some b => rw [hone b (List.mem_of_find?_eq_some hfind) (List.find?_some hfind)]

theorem direct?_direct (t : Settings) (environment : List (String × String))
    (file : List EnvironmentFile.Entry) (f : Field) :
    Sources.direct? ⟨t.direct, environment, file⟩ f = some (t.value f) := by
  have hfind : t.direct.find? (Sources.isNamed ·.1 f.name) = some (f.name, t.value f) := by
    refine find?_of_unique (mem_direct.mpr ⟨f, rfl⟩) (isNamed_name.mpr rfl) fun e he hnamed => ?_
    obtain ⟨g, rfl⟩ := mem_direct.mp he
    rw [isNamed_name.mp hnamed]
  rw [Sources.direct?, hfind]
  rfl

theorem strayDirectNames_direct (t : Settings) (environment : List (String × String))
    (file : List EnvironmentFile.Entry) :
    Sources.strayDirectNames ⟨t.direct, environment, file⟩ = [] := by
  refine List.filter_eq_nil_iff.mpr fun n hn => ?_
  obtain ⟨e, he, rfl⟩ := List.mem_map.mp hn
  obtain ⟨f, rfl⟩ := mem_direct.mp he
  have hany : Field.all.any (fun g => Sources.isNamed f.name g.name) = true :=
    List.any_eq_true.mpr ⟨f, f.mem_all, isNamed_name.mpr rfl⟩
  rw [hany]
  exact Bool.false_ne_true

/-- Settings that are given directly are loaded as they are, whatever the environment holds and
whatever a file without stray names says. -/
theorem load_direct (t : Settings) (environment : List (String × String))
    {file : List EnvironmentFile.Entry}
    (hfile : Sources.strayFileNames ⟨t.direct, environment, file⟩ = []) :
    load ⟨t.direct, environment, file⟩ = .ok t := by
  refine load_eq_ok_iff.mpr ⟨fun f => ?_, ?_⟩
  · have hgiven : Sources.given? ⟨t.direct, environment, file⟩ f = some (t.value f) := by
      rw [Sources.given?, direct?_direct]
      rfl
    rw [Sources.checked, hgiven, Option.getD_some, check_value]
  · rw [Sources.strayNames, hfile, strayDirectNames_direct]
    rfl

end Shoutmark.Settings
