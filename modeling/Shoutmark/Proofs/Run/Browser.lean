import Shoutmark.Run.Stage

/-! Which browser settings keep a run from its end. Only a name that is set, and only when a page is
to be shown: one without a word in it, or a command line that breaks off. -/

namespace Shoutmark

namespace Browser

variable {known : String → Bool} {name : String} {fault : Fault}

theorem foldl_after_of_plain {command : List Char}
    (h : ∀ c ∈ command, c ≠ '\'' ∧ c ≠ '"' ∧ c ≠ '\\') :
    command.foldl Quoting.after {} = {} := by
  induction command with
  | nil => rfl
  | cons c rest ih =>
    obtain ⟨⟨hsingle, hdouble, hback⟩, hrest⟩ := List.forall_mem_cons.mp h
    have hstep : Quoting.after {} c = {} := by simp [Quoting.after, hsingle, hdouble, hback]
    rw [List.foldl_cons, hstep]
    exact ih hrest

/-- Without quotation marks and backslashes every command line can be taken apart. -/
theorem commandFault?_of_plain {command : List Char}
    (h : ∀ c ∈ command, c ≠ '\'' ∧ c ≠ '"' ∧ c ≠ '\\') : commandFault? command = none := by
  rw [commandFault?, foldl_after_of_plain h]
  rfl

theorem named_eq_faulty_iff :
    named known name = .faulty fault ↔
      isCommand name.toList = true ∧ commandFault? name.toList = some fault ∨
      isCommand name.toList = false ∧ known name = false ∧
        (∀ c ∈ name.toList, Text.isBlank c = true) ∧ fault = .noWord := by
  rw [named]
  cases hcommand : isCommand name.toList with
  | true => cases commandFault? name.toList <;> simp
  | false =>
    cases known name with
    | true => simp
    | false =>
      by_cases hblank : name.toList.all Text.isBlank = true
      · rw [if_neg Bool.false_ne_true, if_neg Bool.false_ne_true, if_pos hblank]
        constructor
        · rintro ⟨⟩
          exact Or.inr ⟨rfl, rfl, List.all_eq_true.mp hblank, rfl⟩
        · rintro (⟨h, -⟩ | ⟨-, -, -, rfl⟩)
          · cases h
          · rfl
      · rw [if_neg Bool.false_ne_true, if_neg Bool.false_ne_true, if_neg hblank]
        constructor
        · rintro ⟨⟩
        · rintro (⟨h, -⟩ | ⟨-, -, h, -⟩)
          · cases h
          · exact absurd (List.all_eq_true.mpr h) hblank

end Browser

namespace Stage

variable {s : Surroundings} {job : Job} {known : String → Bool} {fault : Browser.Fault}

/-- What keeps the run from asking for a browser, if one is wished. -/
def browserFault? (s : Surroundings) (job : Job) : Option Browser.Fault :=
  if job.openBrowser || s.settings.openBrowser then
    match askForBrowser s with
    | .faulty fault => some fault
    | _ => none
  else none

theorem askForBrowser_of_name {name : String} (hb : s.settings.browser = some name)
    (hne : name ≠ "") : askForBrowser s = s.browserNamed name := by
  have hname : browserName s.settings = some name := by
    rw [browserName, hb, Option.filter_some, if_pos (decide_eq_true hne)]
  rw [askForBrowser, hname]

theorem browserFault?_eq_some_iff :
    browserFault? s job = some fault ↔
      (job.openBrowser = true ∨ s.settings.openBrowser = true) ∧
        askForBrowser s = .faulty fault := by
  rw [browserFault?, ← Bool.or_eq_true]
  by_cases hwished : (job.openBrowser || s.settings.openBrowser) = true
  · rw [if_pos hwished]
    cases askForBrowser s <;> simp [hwished]
  · rw [if_neg hwished]
    simp [hwished]

/-- Where browsers are looked up by their names, a run is kept from its end just when a page is to
be shown and the name that is set is a command line that breaks off, or blank. -/
theorem browserFault?_of_named (h : s.browserNamed = Browser.named known) :
    browserFault? s job = some fault ↔
      (job.openBrowser = true ∨ s.settings.openBrowser = true) ∧
        ∃ name, s.settings.browser = some name ∧ name ≠ "" ∧
          (Browser.isCommand name.toList = true ∧
              Browser.commandFault? name.toList = some fault ∨
            Browser.isCommand name.toList = false ∧ known name = false ∧
              (∀ c ∈ name.toList, Text.isBlank c = true) ∧ fault = .noWord) := by
  rw [browserFault?_eq_some_iff]
  refine and_congr_right fun _ => ⟨fun ha => ?_, fun ⟨name, hb, hne, hname⟩ => ?_⟩
  · cases hb : s.settings.browser with
    | none =>
      rw [askForBrowser, browserName, hb] at ha
      cases ha
    | some name =>
      by_cases hne : name = ""
      · rw [askForBrowser, browserName, hb, hne] at ha
        cases ha
      · rw [askForBrowser_of_name hb hne, h] at ha
        exact ⟨name, rfl, hne, Browser.named_eq_faulty_iff.mp ha⟩
  · rw [askForBrowser_of_name hb hne, h]
    exact Browser.named_eq_faulty_iff.mpr hname

end Stage

end Shoutmark
