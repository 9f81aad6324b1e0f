import Shoutmark.Proofs.Run.Browser
import Shoutmark.Proofs.Run.Targets

/-! What each stage of a run does: how it ends, on which files, and with which job. -/

namespace Shoutmark

/-- A world whose working directory is the root and holds one file. -/
def World.holding (name source : String) : World :=
  { files := ⟨[], [([name], .file (Text.Utf8.encode source))]⟩ }

/-- Surroundings with the usual settings, in which no browser goes by a name and the usual one shows
every page. -/
def Surroundings.usual : Surroundings := ⟨{}, Browser.named fun _ => false, true, ""⟩

/-! ### Runs in general -/

namespace Run

variable {α β : Type} {x : Run α} {f : α → Run β} {w w' : World}

theorem bind_of_ok {a : α} (h : x w = .ok a w') : (x >>= f) w = f a w' := by
  show EStateM.bind x f w = f a w'
  rw [EStateM.bind, h]

theorem bind_of_error {stop : Stop} (h : x w = .error stop w') :
    (x >>= f) w = .error stop w' := by
  show EStateM.bind x f w = .error stop w'
  rw [EStateM.bind, h]

/-- A run in two parts that comes to its end has come to the end of each. -/
theorem ok_of_bind {b : β} (h : (x >>= f) w = .ok b w') :
    ∃ a w₁, x w = .ok a w₁ ∧ f a w₁ = .ok b w' := by
  cases hx : x w with
  | ok a w₁ =>
    rw [bind_of_ok hx] at h
    exact ⟨a, w₁, rfl, h⟩
  | error stop w₁ =>
    rw [bind_of_error hx] at h
    cases h

/-- The run comes to its end, and what it ends with passes a test. -/
def endsIn (test : α → World → Bool) (x : Run α) (w : World) : Bool :=
  match x w with
  | .ok a w' => test a w'
  | .error _ _ => false

theorem ok_of_endsIn {test : α → World → Bool} (h : endsIn test x w = true) :
    ∃ a w', x w = .ok a w' ∧ test a w' = true := by
  unfold endsIn at h
  cases hx : x w with
  | ok a w' =>
    rw [hx] at h
    exact ⟨a, w', rfl, h⟩
  | error stop w' =>
    rw [hx] at h
    cases h

/-- The run stops early, and how it stops passes a test. -/
def stopsIn (test : Stop → World → Bool) (x : Run α) (w : World) : Bool :=
  match x w with
  | .ok _ _ => false
  | .error stop w' => test stop w'

theorem error_of_stopsIn {test : Stop → World → Bool} (h : stopsIn test x w = true) :
    ∃ stop w', x w = .error stop w' ∧ test stop w' = true := by
  unfold stopsIn at h
  cases hx : x w with
  | ok a w' =>
    rw [hx] at h
    cases h
  | error stop w' =>
    rw [hx] at h
    exact ⟨stop, w', rfl, h⟩

/-! ### Steps that succeed -/

theorem tell_apply (e : Event) (w : World) :
    tell e w = .ok () { w with events := w.events ++ [e] } := rfl

theorem tellAll_apply (es : List Event) (w : World) :
    tellAll es w = .ok () { w with events := w.events ++ es } := rfl

theorem files_apply (w : World) : files w = .ok w.files w := rfl

theorem checkPath_apply {p : Path} (h : p.holdsNul = false) (w : World) :
    checkPath p w = .ok () w := by
  rw [checkPath, h]
  rfl

theorem ensureDirectory_apply {p : Path} {made : FileTree} (hn : p.holdsNul = false)
    (hd : w.files.ensureDirectory p = (made, none)) :
    ensureDirectory p w = .ok () { w with files := made } := by
  rw [ensureDirectory, bind_of_ok (checkPath_apply hn w)]
  simp only [changeDirectories, hd]

theorem writeFile_apply {p : Path} {place : List String} (hn : p.holdsNul = false)
    (ha : w.files.Admits p place) (content : String) :
    writeFile p content w =
      .ok () { w with files := w.files.insert place (.file (Text.Utf8.encode content)) } := by
  refine (bind_of_ok (checkPath_apply hn w)).trans ?_
  simp only [ha.write]

/-! ### What holds however a run ends -/

/-- The world at the end of a run, however it ended. -/
def worldOf : EStateM.Result Stop World α → World
  | .ok _ w => w
  | .error _ w => w

/-- A class of runs: with runs in parts it holds all that is built of steps that turn to no file, of
early ends whose exit code, if they have one, is one, and of steps that make directories. -/
structure Closed (C : (α : Type) → Run α → Prop) : Prop where
  bind : ∀ {α β : Type} {x : Run α} {f : α → Run β}, C α x → (∀ a, C β (f a)) → C β (x >>= f)
  quiet : ∀ {α : Type} {x : Run α},
    (∀ w, ∃ a w', x w = .ok a w' ∧ w'.files = w.files) → C α x
  stop : ∀ {α : Type} {reason : Stop}, (∀ code, reason = .exit code → code = 1) →
    C α (stop reason)
  change : ∀ {change : FileTree → FileTree × Option FileError},
    (∀ t : FileTree, t.Extends (change t).1) → C Unit (changeDirectories change)

namespace Closed

variable {C : (α : Type) → Run α → Prop} (hC : Closed C)
include hC

theorem pure (a : α) : C α (Pure.pure a) := hC.quiet fun w => ⟨a, w, rfl, rfl⟩

theorem tell (e : Event) : C Unit (tell e) := hC.quiet fun _ => ⟨(), _, rfl, rfl⟩

theorem tellAll (es : List Event) : C Unit (tellAll es) := hC.quiet fun _ => ⟨(), _, rfl, rfl⟩

theorem say (line : String) : C Unit (say line) := hC.quiet fun _ => ⟨(), _, rfl, rfl⟩

theorem complain (line : String) : C Unit (complain line) := hC.quiet fun _ => ⟨(), _, rfl, rfl⟩

theorem visit (v : Visit) : C Unit (visit v) := hC.quiet fun _ => ⟨(), _, rfl, rfl⟩

theorem files : C _ files := hC.quiet fun w => ⟨w.files, w, rfl, rfl⟩

theorem giveUp (line : String) : C α (giveUp line) :=
  hC.bind (hC.complain line) fun _ => hC.stop fun _ h => (Stop.exit.inj h).symm

theorem checkPath (p : Path) : C Unit (checkPath p) := by
  unfold Run.checkPath
  split
  · exact hC.stop nofun
  · exact hC.pure ()

theorem ensureDirectory (p : Path) : C Unit (ensureDirectory p) :=
  hC.bind (hC.checkPath p) fun _ => hC.change fun _ => FileTree.extends_ensureDirectory rfl

theorem createDirectory (p : Path) : C Unit (createDirectory p) :=
  hC.bind (hC.checkPath p) fun _ => hC.change (FileTree.extends_createDirectory p)

end Closed

/-- However the run ends, directories may be there that were not, and all else is as it was. -/
def OnlyAddsDirectories (x : Run α) : Prop :=
  ∀ w : World, w.files.Extends (worldOf (x w)).files

/-- However the run ends, no file has come or changed but those that the paths lead to. -/
def ChangesOnly (targets : List Path) (x : Run α) : Prop :=
  ∀ w : World, w.files.ChangesOnly targets (worldOf (x w)).files

def ExitsWithOne (x : Run α) : Prop := ∀ w code w', x w = .error (.exit code) w' → code = 1

/-- What holds of the files before and after a run in two parts, if it holds of each. -/
theorem worldOf_bind {R : FileTree → FileTree → Prop}
    (htrans : ∀ {t t' t'' : FileTree}, R t t' → R t' t'' → R t t'')
    (hx : ∀ w : World, R w.files (worldOf (x w)).files)
    (hf : ∀ a (w : World), R w.files (worldOf (f a w)).files) (w : World) :
    R w.files (worldOf ((x >>= f) w)).files := by
  have h := hx w
  cases hr : x w with
  | ok a w₁ =>
    rw [hr] at h
    rw [bind_of_ok hr]
    exact htrans h (hf a w₁)
  | error stop w₁ =>
    rw [hr] at h
    rw [bind_of_error hr]
    exact h

theorem extends_changeDirectories {change : FileTree → FileTree × Option FileError}
    (h : ∀ t : FileTree, t.Extends (change t).1) (w : World) :
    w.files.Extends (worldOf (changeDirectories change w)).files := by
  have hfiles := h w.files
  rw [changeDirectories]
  cases hm : change w.files with
  | mk made fault =>
    rw [hm] at hfiles
    cases fault <;> exact hfiles

theorem closed_onlyAddsDirectories : Closed @OnlyAddsDirectories where
  bind hx hf := worldOf_bind FileTree.Extends.trans hx hf
  quiet h w := by
    obtain ⟨a, w', hr, hfiles⟩ := h w
    rw [hr]
    exact hfiles ▸ .refl w.files
  stop _ w := .refl w.files
  change h w := extends_changeDirectories h w

theorem closed_changesOnly (targets : List Path) : Closed fun _ x => ChangesOnly targets x where
  bind hx hf := worldOf_bind FileTree.ChangesOnly.trans hx hf
  quiet h w := by
    obtain ⟨a, w', hr, hfiles⟩ := h w
    rw [hr]
    exact hfiles ▸ (FileTree.Extends.refl w.files).changesOnly targets
  stop _ w := (FileTree.Extends.refl w.files).changesOnly targets
  change h w := (extends_changeDirectories h w).changesOnly targets

theorem closed_exitsWithOne : Closed @ExitsWithOne where
  bind := by
    intro α β x f hx hf w code w' h
    cases hr : x w with
    | ok a w₁ =>
      rw [bind_of_ok hr] at h
      exact hf a w₁ code w' h
    | error reason w₁ =>
      rw [bind_of_error hr] at h
      cases h
      exact hx w code w' hr
  quiet := by
    intro α x h w code w' hr
    obtain ⟨a, w₁, hok, -⟩ := h w
    rw [hok] at hr
    cases hr
  stop := by
    rintro α reason h w code w' ⟨⟩
    exact h code rfl
  change := by
    intro change _ w code w' h
    rw [changeDirectories] at h
    split at h <;> cases h

theorem changesOnly_writeFile {targets : List Path} {p : Path} (hp : p ∈ targets)
    (content : String) : ChangesOnly targets (writeFile p content) := by
  refine (closed_changesOnly targets).bind ((closed_changesOnly targets).checkPath p) fun _ w => ?_
  cases hw : w.files.write p (Text.Utf8.encode content) with
  | ok files => exact FileTree.changesOnly_write hp hw
  | error e => exact (closed_changesOnly targets).giveUp _ w

theorem exitsWithOne_writeFile (p : Path) (content : String) :
    ExitsWithOne (writeFile p content) := by
  refine closed_exitsWithOne.bind (closed_exitsWithOne.checkPath p) fun _ w code w' h => ?_
  cases hw : w.files.write p (Text.Utf8.encode content) with
  | ok files =>
    simp only [hw] at h
    cases h
  | error e =>
    simp only [hw] at h
    exact closed_exitsWithOne.giveUp _ w code w' h

end Run

namespace Job

def placed (settings : Settings) (job : Job) : Job :=
  { job with
    sourcePath := job.sourceName
    pagePath := job.pageTarget settings
    listingPath := job.listingTarget settings
    environmentChecked := true }

end Job

namespace Stage
open Run

variable {s : Surroundings} {job job' : Job} {w w' : World}

section Closed

variable {C : (α : Type) → Run α → Prop} (hC : Closed C)
include hC

theorem closed_begin (verbosity : Int) : C Unit (begin verbosity) := by
  unfold begin
  split
  · exact hC.bind (hC.tell _) fun _ => hC.tell _
  · exact hC.tell _

theorem closed_check (s : Surroundings) (job : Job) : C Job (check s job) := by
  refine hC.bind (closed_begin hC _) fun _ => hC.bind hC.files fun t => ?_
  split
  · exact hC.giveUp _
  · exact hC.bind (hC.tell _) fun _ => hC.bind (hC.ensureDirectory _) fun _ =>
      hC.bind (hC.tell _) fun _ => hC.pure _

theorem closed_readSourceText (job : Job) : C Job (readSourceText job) := by
  refine hC.bind (hC.tell _) fun _ => hC.bind (hC.checkPath _) fun _ =>
    hC.bind hC.files fun t => ?_
  split
  · exact hC.giveUp _
  · exact hC.bind (hC.tell _) fun _ => hC.pure _

theorem closed_makePage (s : Surroundings) (job : Job) : C Job (makePage s job) := by
  refine hC.bind (hC.tell _) fun _ => ?_
  split
  · exact hC.giveUp _
  · refine hC.bind (hC.tellAll _) fun _ => ?_
    split
    · exact hC.giveUp _
    · exact hC.bind (hC.tell _) fun _ => hC.pure _

theorem closed_write (s : Surroundings) (job : Job)
    (hwrite : job.page.isSome = true →
      ∀ p ∈ [job.pagePath, job.listingPath], ∀ content, C Unit (writeFile p content)) :
    C Job (write s job) := by
  unfold write
  split
  · exact hC.giveUp _
  · rename_i page hpage
    have hwrite := hwrite (by rw [hpage]; rfl)
    refine hC.bind (hwrite _ (by simp) _) fun _ => hC.bind (hC.tell _) fun _ => ?_
    split
    · split
      · exact hC.bind (hC.stop nofun) fun _ => hC.pure _
      · exact hC.bind (hwrite _ (by simp) _) fun _ => hC.bind (hC.tell _) fun _ => hC.pure _
    · exact hC.pure _

theorem closed_launch (s : Surroundings) (job : Job) : C Job (launch s job) := by
  unfold launch
  split
  · refine hC.bind (hC.checkPath _) fun _ => hC.bind hC.files fun t =>
      hC.bind (hC.tell _) fun _ => ?_
    split
    · exact hC.bind (hC.visit _) fun _ => hC.pure _
    · exact hC.bind (hC.complain _) fun _ => hC.pure _
    · exact hC.stop nofun
  · exact hC.pure _

theorem closed_report (job : Job) : C Job (report job) := by
  unfold report
  split
  · refine hC.bind (hC.say _) fun _ => ?_
    dsimp only
    split
    case' isTrue => refine hC.bind (hC.tell _) fun _ => ?_
    all_goals
      split
      · exact hC.stop nofun
      · split
        · exact hC.bind (hC.tell _) fun _ => hC.bind (hC.tell _) fun _ => hC.pure _
        · exact hC.bind (hC.tell _) fun _ => hC.pure _
  · exact hC.giveUp _

/-- A class that is closed holds every stage, if it holds what the stage writes. -/
theorem closed_perform (s : Surroundings) (job : Job) (stage : Stage)
    (hwrite : stage = .writeOutput → job.page.isSome = true →
      ∀ p ∈ [job.pagePath, job.listingPath], ∀ content, C Unit (writeFile p content)) :
    C Job (perform s job stage) := by
  cases stage with
  | checkEnvironment => exact closed_check hC s job
  | readSource => exact closed_readSourceText hC job
  | compileSource => exact closed_makePage hC s job
  | writeOutput => exact closed_write hC s job (hwrite rfl)
  | launchBrowser => exact closed_launch hC s job
  | reportResults => exact closed_report hC job

end Closed

/-- No stage but the one that writes the output creates or changes a file, and that one only with a
page. -/
theorem onlyAddsDirectories_perform (s : Surroundings) (job : Job) {stage : Stage}
    (h : stage ≠ .writeOutput ∨ job.page = none) : OnlyAddsDirectories (perform s job stage) := by
  refine closed_perform closed_onlyAddsDirectories s job stage fun hstage hpage => ?_
  obtain h | h := h
  · exact absurd hstage h
  · rw [h] at hpage
    cases hpage

/-! ### How a stage ends -/

theorem begin_apply (verbosity : Int) (w : World) :
    ∃ events, begin verbosity w = .ok () { w with events } := by
  unfold begin
  split <;> exact ⟨_, rfl⟩

theorem check_refused (h : s.settings.admits job.inputFile = false ∨
    w.files.isFile job.sourceName = false) :
    ∃ w', check s job w = .error (.exit 1) w' ∧ w'.files = w.files := by
  have hf : ∃ fault, findSource s.settings w.files job = .error fault := by
    unfold findSource
    split
    · rename_i ha
      have hm : w.files.isFile job.sourceName = false := h.resolve_left (by rw [ha]; decide)
      rw [if_neg (by rw [hm]; decide)]
      exact ⟨_, rfl⟩
    · exact ⟨_, rfl⟩
  obtain ⟨fault, hf⟩ := hf
  obtain ⟨events, hb⟩ := begin_apply job.verbosity w
  rw [check, bind_of_ok hb, bind_of_ok (files_apply _), hf]
  exact ⟨_, rfl, rfl⟩

theorem check_found {made : FileTree} (ha : s.settings.admits job.inputFile = true)
    (hfile : w.files.isFile job.sourceName = true) (hn : job.outputPlace.holdsNul = false)
    (hd : w.files.ensureDirectory job.outputPlace = (made, none)) :
    ∃ events, check s job w = .ok (job.placed s.settings) { w with files := made, events } := by
  have hf : findSource s.settings w.files job = .ok job.sourceName := by
    rw [findSource, if_pos ha, if_pos hfile]
  obtain ⟨events, hb⟩ := begin_apply job.verbosity w
  rw [check, bind_of_ok hb, bind_of_ok (files_apply _), hf]
  dsimp only
  rw [bind_of_ok (tell_apply _ _)]
  exact ⟨_, Eq.trans (bind_of_ok (ensureDirectory_apply hn hd)) rfl⟩

theorem readSourceText_ok (job : Job) {text : String} (hn : job.sourcePath.holdsNul = false)
    (hr : readText w.files job.sourcePath = .ok text) :
    ∃ events, readSourceText job w = .ok { job with source := some text } { w with events } := by
  rw [readSourceText, bind_of_ok (tell_apply _ _), bind_of_ok (checkPath_apply hn _),
    bind_of_ok (files_apply _), hr]
  exact ⟨_, rfl⟩

theorem readSourceText_refused (job : Job) {reason : String} (hn : job.sourcePath.holdsNul = false)
    (hr : readText w.files job.sourcePath = .error reason) :
    ∃ w', readSourceText job w = .error (.exit 1) w' ∧ w'.files = w.files := by
  rw [readSourceText, bind_of_ok (tell_apply _ _), bind_of_ok (checkPath_apply hn _),
    bind_of_ok (files_apply _), hr]
  exact ⟨_, rfl, rfl⟩

theorem makePage_ok (job : Job) {source : String} {page : Page} (hs : job.source = some source)
    (hc : (compile s.settings.listsEnabled source).outcome = .ok page) :
    ∃ events, makePage s job w = .ok { job with page := some page } { w with events } := by
  rw [makePage, bind_of_ok (tell_apply _ _), hs]
  dsimp only
  rw [bind_of_ok (tellAll_apply _ _), hc]
  exact ⟨_, rfl⟩

theorem makePage_refused (job : Job) {source : String} {e : CompileError} (hs : job.source = some source)
    (hc : (compile s.settings.listsEnabled source).outcome = .error e) :
    ∃ events, makePage s job w =
      .error (.exit 1) { w with stderr := w.stderr ++ e.message ++ "\n", events } := by
  rw [makePage, bind_of_ok (tell_apply _ _), hs]
  dsimp only
  rw [bind_of_ok (tellAll_apply _ _), hc]
  exact ⟨_, rfl⟩

/-- Whether the page is shown or not, the run goes on, unless the browser cannot be asked for. -/
theorem launch_apply (job : Job) (hn : job.pagePath.holdsNul = false) (w : World) :
    ∃ w', w'.files = w.files ∧
      (browserFault? s job = none → ∃ job', launch s job w = .ok job' w') ∧
      ∀ fault, browserFault? s job = some fault → launch s job w = .error (.browser fault) w' := by
  unfold launch browserFault?
  by_cases hwished : (job.openBrowser || s.settings.openBrowser) = true
  · rw [if_pos hwished, if_pos hwished, bind_of_ok (checkPath_apply hn w),
      bind_of_ok (files_apply _), bind_of_ok (tell_apply _ _)]
    let told : World :=
      { w with events := w.events ++ [.opening (job.pagePath.url w.files.workingDirectory)] }
    cases askForBrowser s with
    | found =>
      let visit : Visit := ⟨browserName s.settings, job.pagePath.url w.files.workingDirectory⟩
      exact ⟨{ told with visits := w.visits ++ [visit] }, rfl, fun _ => ⟨_, rfl⟩, nofun⟩
    | unknown =>
      let warning := "Warning: could not open browser: could not locate runnable browser"
      exact ⟨{ told with stderr := w.stderr ++ warning ++ "\n" }, rfl, fun _ => ⟨_, rfl⟩, nofun⟩
    | faulty fault =>
      refine ⟨told, rfl, nofun, ?_⟩
      rintro _ ⟨⟩
      rfl
  · rw [if_neg hwished, if_neg hwished]
    exact ⟨w, rfl, fun _ => ⟨job, rfl⟩, nofun⟩

/-- Whether the results can be told depends on the job alone. -/
theorem report_of_pageWritten (hw : job.pageWritten = true) (hp : job.page.isSome = true)
    (w : World) : ∃ w', report job w = .ok job w' ∧ w'.files = w.files := by
  unfold report
  rw [if_pos hw]
  obtain ⟨page, hpage⟩ := Option.isSome_iff_exists.mp hp
  rw [hpage]
  dsimp only
  cases job.listing <;> cases page.title <;> exact ⟨_, rfl, rfl⟩

theorem report_of_not_pageWritten (hw : job.pageWritten = false) (w : World) :
    ∃ w', report job w = .error (.exit 1) w' := by
  unfold report
  rw [if_neg (by rw [hw]; decide)]
  exact ⟨_, rfl⟩

/-! ### What a stage that comes to its end gives back -/

theorem of_findSource {t : FileTree} {p : Path} (h : findSource s.settings t job = .ok p) :
    t.isFile job.sourceName = true ∧ p = job.sourceName := by
  unfold findSource at h
  split at h
  · split at h
    · rename_i hfile
      exact ⟨hfile, (Except.ok.inj h).symm⟩
    · cases h
  · cases h

theorem of_check (h : check s job w = .ok job' w') :
    w.files.isFile job.sourceName = true ∧ job' = job.placed s.settings := by
  obtain ⟨events, hb⟩ := begin_apply job.verbosity w
  rw [check, bind_of_ok hb, bind_of_ok (files_apply _)] at h
  cases hf : findSource s.settings w.files job with
  | error fault =>
    simp only [hf] at h
    cases h
  | ok sourcePath =>
    simp only [hf] at h
    obtain ⟨hfile, rfl⟩ := of_findSource hf
    obtain ⟨-, w₁, -, h⟩ := ok_of_bind h
    obtain ⟨-, w₂, -, h⟩ := ok_of_bind h
    obtain ⟨-, w₃, -, h⟩ := ok_of_bind h
    cases h
    exact ⟨hfile, rfl⟩

theorem readText_root (files : FileTree) : ∃ reason, readText files .root = .error reason :=
  ⟨_, rfl⟩

theorem of_readSourceText (h : readSourceText job w = .ok job' w') :
    ∃ text, readText w.files job.sourcePath = .ok text ∧ job' = { job with source := some text } := by
  rw [readSourceText, bind_of_ok (tell_apply _ _)] at h
  cases hn : job.sourcePath.holdsNul with
  | true =>
    rw [checkPath, hn] at h
    cases h
  | false =>
    rw [bind_of_ok (checkPath_apply hn _), bind_of_ok (files_apply _)] at h
    cases hr : readText w.files job.sourcePath with
    | error reason =>
      simp only [hr] at h
      cases h
    | ok text =>
      simp only [hr] at h
      obtain ⟨-, w₁, -, h⟩ := ok_of_bind h
      cases h
      exact ⟨text, rfl, rfl⟩

theorem of_makePage (h : makePage s job w = .ok job' w') :
    ∃ source page, job.source = some source ∧
      (compile s.settings.listsEnabled source).outcome = .ok page ∧
        job' = { job with page := some page } := by
  obtain ⟨-, w₁, -, h⟩ := ok_of_bind h
  cases hs : job.source with
  | none =>
    rw [hs] at h
    cases h
  | some source =>
    rw [hs] at h
    obtain ⟨-, w₂, -, h⟩ := ok_of_bind h
    cases hc : (compile s.settings.listsEnabled source).outcome with
    | error e =>
      simp only [hc] at h
      cases h
    | ok page =>
      simp only [hc] at h
      obtain ⟨-, w₃, -, h⟩ := ok_of_bind h
      cases h
      exact ⟨source, page, rfl, hc, rfl⟩

theorem of_write (h : write s job w = .ok job' w') :
    job.page.isSome = true ∧ job' = { job with pageWritten := true } := by
  unfold write at h
  cases hp : job.page with
  | none =>
    rw [hp] at h
    cases h
  | some page =>
    rw [hp] at h
    refine ⟨rfl, ?_⟩
    obtain ⟨-, w₁, -, h⟩ := ok_of_bind h
    obtain ⟨-, w₂, -, h⟩ := ok_of_bind h
    cases hl : job.listing with
    | false =>
      rw [hl] at h
      cases h
      rfl
    | true =>
      rw [hl] at h
      cases hr : Listing.render s.styleSheet s.settings.listingStyle (some job.sourcePath.name)
          (job.source.getD "") with
      | error e =>
        rw [hr] at h
        cases h
      | ok listing =>
        rw [hr] at h
        obtain ⟨-, w₃, -, h⟩ := ok_of_bind h
        obtain ⟨-, w₄, -, h⟩ := ok_of_bind h
        cases h
        rfl

theorem of_launch (h : launch s job w = .ok job' w') :
    job' = job ∨ (job.openBrowser = true ∨ s.settings.openBrowser = true) ∧
      job' = { job with browserOpened := s.browserAccepts } := by
  unfold launch at h
  split at h
  · rename_i hwished
    obtain ⟨-, w₁, -, h⟩ := ok_of_bind h
    obtain ⟨files, w₂, -, h⟩ := ok_of_bind h
    obtain ⟨-, w₃, -, h⟩ := ok_of_bind h
    cases ha : askForBrowser s with
    | found =>
      rw [ha] at h
      obtain ⟨-, w₄, -, h⟩ := ok_of_bind h
      cases h
      exact Or.inr ⟨by simpa using hwished, rfl⟩
    | unknown =>
      rw [ha] at h
      obtain ⟨-, w₄, -, h⟩ := ok_of_bind h
      cases h
      exact Or.inl rfl
    | faulty fault =>
      rw [ha] at h
      cases h
  · cases h
    exact Or.inl rfl

theorem of_report (h : report job w = .ok job' w') :
    job.pageWritten = true ∧ job.page.isSome = true ∧ job' = job := by
  cases hw : job.pageWritten with
  | false =>
    obtain ⟨w'', he⟩ := report_of_not_pageWritten hw w
    rw [he] at h
    cases h
  | true =>
    cases hp : job.page with
    | none =>
      unfold report at h
      rw [if_pos hw, hp] at h
      cases hl : job.listing <;> rw [hl] at h <;> cases h
    | some page =>
      obtain ⟨w'', he, -⟩ := report_of_pageWritten hw (by rw [hp]; rfl) w
      rw [he] at h
      cases h
      exact ⟨rfl, rfl, rfl⟩

end Stage

end Shoutmark
