import Shoutmark.Proofs.Run.Stage

/-! The order of the stages. A stage asks for what an earlier one leaves in the job, and what is
not in a job from the start can have come from its stage alone. So whatever stages are carried out,
in whatever order and however often, each has come after those it rests on. -/

namespace Shoutmark

/-- The job with the same wishes, in which nothing is found or made yet. -/
def Job.wishes (job : Job) : Job :=
  { inputDirectory := job.inputDirectory
    outputDirectory := job.outputDirectory
    verbosity := job.verbosity
    inputFile := job.inputFile
    listing := job.listing
    openBrowser := job.openBrowser }

@[simp] theorem Job.openBrowser_wishes (job : Job) : job.wishes.openBrowser = job.openBrowser := rfl

theorem Job.pageTarget_wishes (job : Job) (settings : Settings) :
    job.wishes.pageTarget settings = job.pageTarget settings := rfl

theorem Job.listingTarget_wishes (job : Job) (settings : Settings) :
    job.wishes.listingTarget settings = job.listingTarget settings := rfl

/-- The job has what the stage leaves in it. The last stage leaves nothing. -/
def Job.has (job : Job) : Stage → Bool
  | .checkEnvironment => job.environmentChecked
  | .readSource => job.source.isSome
  | .compileSource => job.page.isSome
  | .writeOutput => job.pageWritten
  | .launchBrowser => job.browserOpened
  | .reportResults => false

namespace Stage
open Run

variable {s : Surroundings} {job job' : Job} {stage other earlier : Stage} {w w' : World}

/-- The stage whose work a stage asks for. -/
def needs : Stage → Option Stage
  | .checkEnvironment => none
  | .readSource => some .checkEnvironment
  | .compileSource => some .readSource
  | .writeOutput => some .compileSource
  | .launchBrowser => none
  | .reportResults => some .writeOutput

/-- The stages that a stage rests on, and after them the stage. -/
def chain : Stage → List Stage
  | .checkEnvironment => [.checkEnvironment]
  | .readSource => [.checkEnvironment, .readSource]
  | .compileSource => [.checkEnvironment, .readSource, .compileSource]
  | .writeOutput => [.checkEnvironment, .readSource, .compileSource, .writeOutput]
  | .launchBrowser => [.launchBrowser]
  | .reportResults =>
    [.checkEnvironment, .readSource, .compileSource, .writeOutput, .reportResults]

theorem chain_of_needs (h : stage.needs = some earlier) : stage.chain = earlier.chain ++ [stage] := by
  cases stage <;> cases h <;> rfl

theorem chain_of_needs_none (h : stage.needs = none) : stage.chain = [stage] := by
  cases stage <;> first | rfl | cases h

/-! ### One stage -/

/-- The source that is read is one that was found: a job whose environment is not checked looks for
it at the root. -/
def Unread (job : Job) : Prop := job.environmentChecked = false → job.sourcePath = .root

/-- Once its environment is checked, the job has the paths of its own page and listing. -/
def Placed (s : Surroundings) (job : Job) : Prop :=
  job.environmentChecked = true →
    job.pagePath = job.pageTarget s.settings ∧ job.listingPath = job.listingTarget s.settings

def IsCompiled (s : Surroundings) (page : Page) : Prop :=
  ∃ source, (compile s.settings.listsEnabled source).outcome = .ok page

/-- What a stage that comes to its end does to the job: the wishes stay, and so does all that other
stages leave; what the stage needs was there before. -/
structure Advances (s : Surroundings) (stage : Stage) (job job' : Job) : Prop where
  wishes : job'.wishes = job.wishes
  unread : Unread job'
  placed : Placed s job → Placed s job'
  others : ∀ other, other ≠ stage → job'.has other = job.has other
  kept : job.has stage = true → job'.has stage = true ∨ stage = .launchBrowser
  needed : ∀ earlier, stage.needs = some earlier → job.has earlier = true
  compiled : ∀ page, job'.page = some page → job.page = some page ∨ IsCompiled s page
  wished : job'.browserOpened = true →
    job.browserOpened = true ∨ job.openBrowser = true ∨ s.settings.openBrowser = true

theorem Advances.keeps (h : Advances s stage job job') (hl : other ≠ .launchBrowser)
    (ho : job.has other = true) : job'.has other = true := by
  by_cases hs : other = stage
  · subst hs
    exact (h.kept ho).resolve_right hl
  · rw [h.others other hs, ho]

theorem Advances.new (h : Advances s stage job job') (ho : job'.has other = true) :
    job.has other = true ∨ other = stage := by
  by_cases hs : other = stage
  · exact Or.inr hs
  · rw [h.others other hs] at ho
    exact Or.inl ho

theorem placed_placed (s : Surroundings) (job : Job) : Placed s (job.placed s.settings) := by
  intro _
  have hwishes : (job.placed s.settings).wishes = job.wishes := rfl
  have hpage : (job.placed s.settings).pagePath = job.pageTarget s.settings := by rw [Job.placed]
  have hlisting : (job.placed s.settings).listingPath = job.listingTarget s.settings := by
    rw [Job.placed]
  rw [hpage, hlisting, ← Job.pageTarget_wishes, ← Job.listingTarget_wishes, ← hwishes,
    Job.pageTarget_wishes, Job.listingTarget_wishes]
  exact ⟨rfl, rfl⟩

theorem Placed.transfer (h : Placed s job) (hwishes : job'.wishes = job.wishes)
    (hchecked : job'.environmentChecked = job.environmentChecked)
    (hpage : job'.pagePath = job.pagePath) (hlisting : job'.listingPath = job.listingPath) :
    Placed s job' := by
  intro hc
  rw [hchecked] at hc
  rw [hpage, hlisting, ← job'.pageTarget_wishes, ← job'.listingTarget_wishes, hwishes]
  exact h hc

theorem advances (hu : Unread job) (h : perform s job stage w = .ok job' w') :
    Advances s stage job job' := by
  cases stage with
  | checkEnvironment =>
    obtain ⟨-, rfl⟩ := of_check h
    refine ⟨rfl, nofun, fun _ => placed_placed s job, fun other ho => ?_, fun _ => Or.inl rfl, nofun, fun _ => Or.inl, Or.inl⟩
    cases other <;> first | rfl | exact absurd rfl ho
  | readSource =>
    obtain ⟨text, htext, rfl⟩ := of_readSourceText h
    have hchecked : job.environmentChecked = true := by
      cases hc : job.environmentChecked with
      | true => rfl
      | false =>
        obtain ⟨reason, he⟩ := readText_root w.files
        rw [hu hc, he] at htext
        cases htext
    refine ⟨rfl, hu, fun hp => hp.transfer rfl rfl rfl rfl, fun other ho => ?_, fun _ => Or.inl rfl, ?_, fun _ => Or.inl, Or.inl⟩
    · cases other <;> first | rfl | exact absurd rfl ho
    · rintro earlier ⟨⟩
      exact hchecked
  | compileSource =>
    obtain ⟨source, page, hsource, hcompile, rfl⟩ := of_makePage h
    refine ⟨rfl, hu, fun hp => hp.transfer rfl rfl rfl rfl, fun other ho => ?_, fun _ => Or.inl rfl, ?_, ?_, Or.inl⟩
    · cases other <;> first | rfl | exact absurd rfl ho
    · rintro earlier ⟨⟩
      rw [Job.has, hsource]
      rfl
    · rintro _ ⟨⟩
      exact Or.inr ⟨source, hcompile⟩
  | writeOutput =>
    obtain ⟨hpage, rfl⟩ := of_write h
    refine ⟨rfl, hu, fun hp => hp.transfer rfl rfl rfl rfl, fun other ho => ?_, fun _ => Or.inl rfl, ?_, fun _ => Or.inl, Or.inl⟩
    · cases other <;> first | rfl | exact absurd rfl ho
    · rintro earlier ⟨⟩
      exact hpage
  | launchBrowser =>
    obtain rfl | ⟨hwish, rfl⟩ := of_launch h
    · exact ⟨rfl, hu, fun hp => hp.transfer rfl rfl rfl rfl, fun _ _ => rfl, Or.inl, nofun, fun _ => Or.inl, Or.inl⟩
    · refine ⟨rfl, hu, fun hp => hp.transfer rfl rfl rfl rfl, fun other ho => ?_, fun _ => Or.inr rfl, nofun, fun _ => Or.inl,
        fun _ => Or.inr hwish⟩
      cases other <;> first | rfl | exact absurd rfl ho
  | reportResults =>
    obtain ⟨hwritten, -, rfl⟩ := of_report h
    refine ⟨rfl, hu, fun hp => hp.transfer rfl rfl rfl rfl, fun _ _ => rfl, Or.inl, ?_, fun _ => Or.inl, Or.inl⟩
    rintro earlier ⟨⟩
    exact hwritten

/-! ### A run of stages -/

/-- What holds of a job in a run that has carried out some stages: what the job has, it has with
all that it rests on, and the stages for it were carried out in their order. -/
structure Ordered (s : Surroundings) (done : List Stage) (job : Job) : Prop where
  unread : Unread job
  placed : Placed s job
  rests : ∀ stage earlier, job.has stage = true → stage.needs = some earlier →
    job.has earlier = true
  carriedOut : ∀ stage, job.has stage = true → stage.chain.Sublist done
  compiled : ∀ page, job.page = some page → IsCompiled s page
  wished : job.browserOpened = true → job.openBrowser = true ∨ s.settings.openBrowser = true

theorem ordered_wishes (s : Surroundings) (job : Job) : Ordered s [] job.wishes := by
  have hnone (stage : Stage) : job.wishes.has stage = false := by cases stage <;> rfl
  refine ⟨fun _ => rfl, nofun, fun stage _ h => ?_, fun stage h => ?_, nofun, nofun⟩
  · rw [hnone] at h
    cases h
  · rw [hnone] at h
    cases h

theorem Ordered.step {done : List Stage} (hi : Ordered s done job)
    (h : perform s job stage w = .ok job' w') : Ordered s (done ++ [stage]) job' := by
  have ha := advances hi.unread h
  refine ⟨ha.unread, ha.placed hi.placed, fun other earlier ho he => ?_, fun other ho => ?_, fun page hp => ?_,
    fun hb => ?_⟩
  · have hkept : earlier ≠ .launchBrowser := by
      rintro rfl
      cases other <;> cases he
    refine ha.keeps hkept ?_
    obtain hold | rfl := ha.new ho
    · exact hi.rests other earlier hold he
    · exact ha.needed earlier he
  · obtain hold | rfl := ha.new ho
    · exact (hi.carriedOut other hold).trans (List.sublist_append_left _ _)
    · cases hn : other.needs with
      | none =>
        rw [chain_of_needs_none hn]
        exact List.sublist_append_right _ _
      | some earlier =>
        rw [chain_of_needs hn]
        exact (hi.carriedOut earlier (ha.needed earlier hn)).append (.refl _)
  · exact (ha.compiled page hp).elim (hi.compiled page) id
  · rw [← job'.openBrowser_wishes, ha.wishes]
    exact (ha.wished hb).elim hi.wished id

end Stage

open Stage

namespace Run

variable {s : Surroundings} {job job' : Job} {w w' : World}

theorem stages_cons (s : Surroundings) (job : Job) (stage : Stage) (rest : List Stage) :
    stages s job (stage :: rest) = perform s job stage >>= fun job' => stages s job' rest := by
  rw [stages, List.foldlM_cons]
  rfl

theorem ordered_stages {done rest : List Stage} (hi : Ordered s done job)
    (h : stages s job rest w = .ok job' w') :
    Ordered s (done ++ rest) job' ∧ job'.wishes = job.wishes := by
  induction rest generalizing done job w with
  | nil =>
    cases h
    rw [List.append_nil]
    exact ⟨hi, rfl⟩
  | cons stage rest ih =>
    rw [stages_cons] at h
    obtain ⟨job₁, w₁, hstage, hrest⟩ := ok_of_bind h
    obtain ⟨hj, hw⟩ := ih (hi.step hstage) hrest
    rw [List.append_assoc] at hj
    exact ⟨hj, hw.trans (advances hi.unread hstage).wishes⟩

/-- However they end, stages that change a file have carried out the stages up to the writing of
one, in their order. -/
theorem sameFiles_or_chain {done rest : List Stage} (hi : Ordered s done job) (w : World) :
    w.files.SameFiles (worldOf (stages s job rest w)).files ∨
      Stage.writeOutput.chain.Sublist (done ++ rest) := by
  induction rest generalizing done job w with
  | nil => exact Or.inl fun _ _ => Iff.rfl
  | cons stage rest ih =>
    -- Until there is a page no stage writes, and with a page the next stage that writes ends the
    -- chain.
    by_cases hwrites : stage = .writeOutput ∧ job.page.isSome = true
    · obtain ⟨rfl, hpage⟩ := hwrites
      refine Or.inr ?_
      rw [chain_of_needs rfl]
      exact (hi.carriedOut .compileSource hpage).append (by simp)
    · have hsame : w.files.SameFiles (worldOf (perform s job stage w)).files := by
        have hidle : stage ≠ .writeOutput ∨ job.page = none := by
          rw [Decidable.not_and_iff_or_not, Bool.not_eq_true, Option.isSome_eq_false_iff,
            Option.isNone_iff_eq_none] at hwrites
          exact hwrites
        exact (onlyAddsDirectories_perform s job hidle w).sameFiles
      rw [stages_cons]
      cases hr : perform s job stage w with
      | error stop w₁ =>
        rw [bind_of_error hr]
        rw [hr] at hsame
        exact Or.inl hsame
      | ok job₁ w₁ =>
        rw [bind_of_ok hr]
        rw [hr] at hsame
        have hrest := ih (hi.step hr) w₁
        rw [List.append_assoc] at hrest
        exact hrest.imp_left hsame.trans

theorem changesOnly_perform {done : List Stage} (hi : Ordered s done job) (stage : Stage) :
    ChangesOnly [job.pageTarget s.settings, job.listingTarget s.settings]
      (perform s job stage) := by
  refine closed_perform (closed_changesOnly _) s job stage fun _ hpage p hp content => ?_
  have hsource := hi.rests .compileSource .readSource hpage rfl
  obtain ⟨hpagePath, hlistingPath⟩ := hi.placed (hi.rests .readSource .checkEnvironment hsource rfl)
  rw [hpagePath, hlistingPath] at hp
  exact changesOnly_writeFile hp content

/-- However they end, stages create and change no file but the page and the listing. -/
theorem changesOnly_stages {done rest : List Stage} (hi : Ordered s done job) (w : World) :
    w.files.ChangesOnly [job.pageTarget s.settings, job.listingTarget s.settings]
      (worldOf (stages s job rest w)).files := by
  induction rest generalizing done job w with
  | nil => exact (FileTree.Extends.refl w.files).changesOnly _
  | cons stage rest ih =>
    have hstage := changesOnly_perform hi stage w
    rw [stages_cons]
    cases hr : perform s job stage w with
    | error stop w₁ =>
      rw [bind_of_error hr]
      rwa [hr] at hstage
    | ok job₁ w₁ =>
      rw [bind_of_ok hr]
      rw [hr] at hstage
      have hrest := ih (hi.step hr) w₁
      have hwishes := (advances hi.unread hr).wishes
      rw [← job₁.pageTarget_wishes, ← job₁.listingTarget_wishes, hwishes] at hrest
      exact hstage.trans hrest

/-- Whatever stages are carried out on a job with nothing but wishes, and whatever they find: as
long as they have not stopped, the job has a written page only with a page that was compiled, a
page only with a source and a source only once its environment is checked, and a browser has only
shown a page on a wish. The results can be told just when a page is written. Files are only changed
by the stage that writes, and only by stages that make a page in their order. -/
theorem stages_ordered (s : Surroundings) (job : Job) (stages : List Stage) (w : World) :
    (∀ job' w', Run.stages s job.wishes stages w = .ok job' w' →
      (job'.pageWritten = true → job'.page.isSome = true) ∧
      (∀ page, job'.page = some page →
        ∃ source, (compile s.settings.listsEnabled source).outcome = .ok page) ∧
      (job'.page.isSome = true → job'.source.isSome = true) ∧
      (job'.source.isSome = true → job'.environmentChecked = true) ∧
      (job'.browserOpened = true → job.openBrowser = true ∨ s.settings.openBrowser = true) ∧
      (job'.pageWritten = true →
        [.checkEnvironment, .readSource, .compileSource, .writeOutput].Sublist stages) ∧
      (job'.pageWritten = true → ∃ w'', report job' w' = .ok job' w'') ∧
      (job'.pageWritten = false → ∃ w'', report job' w' = .error (.exit 1) w'') ∧
      ∀ stage, stage ≠ .writeOutput →
        w'.files.SameFiles (worldOf (perform s job' stage w')).files) ∧
    (w.files.SameFiles (worldOf (Run.stages s job.wishes stages w)).files ∨
      [.checkEnvironment, .readSource, .compileSource, .writeOutput].Sublist stages) := by
  have hstart := ordered_wishes s job
  refine ⟨fun job' w' h => ?_, sameFiles_or_chain hstart w⟩
  obtain ⟨hi, hwishes⟩ := ordered_stages hstart h
  refine ⟨fun hw => hi.rests .writeOutput .compileSource hw rfl, hi.compiled,
    fun hp => hi.rests .compileSource .readSource hp rfl,
    fun hs => hi.rests .readSource .checkEnvironment hs rfl, fun hb => ?_,
    fun hw => hi.carriedOut .writeOutput hw,
    fun hw => (report_of_pageWritten hw (hi.rests .writeOutput .compileSource hw rfl) w').imp
      fun _ => And.left,
    fun hw => report_of_not_pageWritten hw w',
    fun stage hs => (onlyAddsDirectories_perform s job' (Or.inl hs) w').sameFiles⟩
  have hwish := hi.wished hb
  rwa [← job'.openBrowser_wishes, hwishes] at hwish

/-- Stages carried out early, late and twice still write the page, once all that it rests on has
come before. -/
theorem stages_ordered_untidy :
    ∃ job' w', Run.stages .usual (Job.wishes { inputFile := "page.lol", openBrowser := true })
        [.checkEnvironment, .readSource, .launchBrowser, .readSource, .compileSource,
          .checkEnvironment, .writeOutput] (.holding "page.lol" "#HAI a #KTHXBYE") = .ok job' w' ∧
      job'.pageWritten = true ∧ job'.page.isSome = true ∧ job'.source.isSome = true ∧
      job'.environmentChecked = true ∧ job'.browserOpened = true ∧
      [.checkEnvironment, .readSource, .compileSource, .writeOutput].Sublist
        [.checkEnvironment, .readSource, .launchBrowser, .readSource, .compileSource,
          Stage.checkEnvironment, .writeOutput] ∧
      ∃ w'', report job' w' = .ok job' w'' := by
  have hends : endsIn (fun job' _ => job'.pageWritten && job'.browserOpened)
      (Run.stages .usual (Job.wishes { inputFile := "page.lol", openBrowser := true })
        [.checkEnvironment, .readSource, .launchBrowser, .readSource, .compileSource,
          .checkEnvironment, .writeOutput])
      (.holding "page.lol" "#HAI a #KTHXBYE") = true := by decide +kernel
  obtain ⟨job', w', hrun, htest⟩ := ok_of_endsIn hends
  obtain ⟨hwritten, hopened⟩ := Bool.and_eq_true_iff.mp htest
  obtain ⟨hpage, -, hsource, hchecked, -, hchain, hreport, -⟩ :=
    (stages_ordered _ _ _ _).1 job' w' hrun
  exact ⟨job', w', hrun, hwritten, hpage hwritten, hsource (hpage hwritten),
    hchecked (hsource (hpage hwritten)), hopened, hchain hwritten, hreport hwritten⟩

end Run
end Shoutmark
