import Shoutmark.CommandLine.Program
import Shoutmark.Proofs.CommandLine.Options
import Shoutmark.Proofs.Run.Order

/-! What a call of the program changes and how it ends. A command line that is not carried out
changes no file; one that is changes at most the page and the listing it asks for, and neither
unless its source is there and compiles. Command lines that are refused end with their own exit
code. -/

namespace Shoutmark

namespace Run
open Stage

variable {α : Type}

/-- However the run ends, it only adds directories, unless with some directories added the tree has
a property. -/
def AddsUnless (P : FileTree → Prop) (x : Run α) : Prop :=
  ∀ w : World, w.files.Extends (worldOf (x w)).files ∨ ∃ made, w.files.Extends made ∧ P made

/-- What follows need only be looked at where a step that adds directories comes to its end. -/
theorem addsUnless_bind {β : Type} {P : FileTree → Prop} {x : Run α} {f : α → Run β} {w : World}
    (hx : w.files.Extends (worldOf (x w)).files)
    (hf : ∀ a w₁, x w = .ok a w₁ → w₁.files.Extends (worldOf (f a w₁)).files ∨
      ∃ made, w₁.files.Extends made ∧ P made) :
    w.files.Extends (worldOf ((x >>= f) w)).files ∨ ∃ made, w.files.Extends made ∧ P made := by
  cases hr : x w with
  | error stop w₁ =>
    rw [hr] at hx
    rw [bind_of_error hr]
    exact Or.inl hx
  | ok a w₁ =>
    rw [hr] at hx
    rw [bind_of_ok hr]
    exact (hf a w₁ hr).imp hx.trans fun ⟨made, hmade, hP⟩ => ⟨made, hx.trans hmade, hP⟩

theorem closed_addsUnless (P : FileTree → Prop) : Closed fun _ x => AddsUnless P x where
  bind := by
    intro α β x f hx hf w
    obtain hadds | hmade := hx w
    · exact addsUnless_bind hadds fun a w₁ _ => hf a w₁
    · exact Or.inr hmade
  quiet h w := Or.inl (closed_onlyAddsDirectories.quiet h w)
  stop _ w := Or.inl (.refl w.files)
  change h w := Or.inl (extends_changeDirectories h w)

/-- The path leads to a source that compiles. -/
def Compiles (s : Surroundings) (p : Path) (t : FileTree) : Prop :=
  ∃ text page, readText t p = .ok text ∧ (compile s.settings.listsEnabled text).outcome = .ok page

/-- The stages in their order change no file unless the source is there and compiles. -/
theorem addsUnless_stages (s : Surroundings) (job : Job) :
    AddsUnless (Compiles s job.sourceName) (stages s job inOrder) := by
  intro w
  have hidle (stage : Stage) (h : stage ≠ .writeOutput) (job : Job) (w : World) :
      w.files.Extends (worldOf (perform s job stage w)).files :=
    onlyAddsDirectories_perform s job (Or.inl h) w
  rw [inOrder, stages_cons]
  refine addsUnless_bind (hidle .checkEnvironment nofun job w) fun job₁ w₁ hcheck => ?_
  obtain ⟨-, rfl⟩ := of_check hcheck
  by_cases hcompiles : Compiles s job.sourceName w₁.files
  · exact Or.inr ⟨w₁.files, .refl _, hcompiles⟩
  -- The source is not there or does not compile, so that no stage after these two is reached.
  rw [stages_cons]
  refine addsUnless_bind (hidle .readSource nofun _ w₁) fun job₂ w₂ hread => ?_
  obtain ⟨text, htext, rfl⟩ := of_readSourceText hread
  rw [stages_cons]
  refine addsUnless_bind (hidle .compileSource nofun _ w₂) fun job₃ w₃ hmade => ?_
  rw [perform] at hmade
  obtain ⟨source, page, hsource, hcompiled, -⟩ := of_makePage hmade
  cases hsource
  exact absurd ⟨text, page, htext, hcompiled⟩ hcompiles

theorem discard_eq_bind (x : Run α) : Functor.discard x = x >>= fun _ => pure () := by
  funext w
  show EStateM.map (fun _ => ()) x w = EStateM.bind x (fun _ => pure ()) w
  unfold EStateM.map EStateM.bind
  cases x w <;> rfl

theorem exitsWithOne_stages (s : Surroundings) (job : Job) (rest : List Stage) :
    ExitsWithOne (stages s job rest) := by
  induction rest generalizing job with
  | nil => exact closed_exitsWithOne.pure job
  | cons stage rest ih =>
    rw [stages_cons]
    refine closed_exitsWithOne.bind ?_ ih
    exact closed_perform closed_exitsWithOne s job stage fun _ _ p _ content =>
      exitsWithOne_writeFile p content

end Run

namespace CommandLine
open Run Stage

variable {s : Surroundings} {words : List String} {o : Options} {w w' : World}

/-! ### Before the stages -/

section Closed

variable {C : (α : Type) → Run α → Prop} (hC : Closed C)
include hC

theorem closed_prepareOutput (p : Path) : C Unit (prepareOutput p) := by
  refine hC.bind hC.files fun t => ?_
  split
  · split
    · exact hC.pure ()
    · exact hC.giveUp _
  · exact hC.createDirectory p

theorem closed_requireInput (p : Path) : C Unit (requireInput p) := by
  refine hC.bind hC.files fun t => ?_
  split
  · exact hC.pure ()
  · exact hC.giveUp _

theorem closed_carryOut (s : Surroundings) (o : Options)
    (hstages : ∀ name, o.inputFile = some name → C Job (stages s (o.toJob name) inOrder)) :
    C Unit (carryOut s o) := by
  refine hC.bind (closed_prepareOutput hC _) fun _ => hC.bind (closed_requireInput hC _) fun _ => ?_
  split
  · rename_i name hname
    rw [discard_eq_bind]
    exact hC.bind (hstages name hname) fun _ => hC.pure ()
  · exact hC.bind (closed_begin hC _) fun _ => hC.stop nofun

end Closed

/-! ### Files -/

theorem ordered_toJob (s : Surroundings) (o : Options) (name : String) :
    Ordered s [] (o.toJob name) := ordered_wishes s (o.toJob name)

theorem changesOnly_carryOut (s : Surroundings) {name : String} (hname : o.inputFile = some name) :
    ChangesOnly [(o.toJob name).pageTarget s.settings, (o.toJob name).listingTarget s.settings]
      (carryOut s o) := by
  refine closed_carryOut (closed_changesOnly _) s o fun name' hname' => ?_
  obtain rfl : name = name' := Option.some.inj (hname.symm.trans hname')
  exact changesOnly_stages (ordered_toJob s o name)

/-- A call of the program only adds directories, unless its words ask for a source that is there
and compiles. Even then it changes no file but the page and the listing. -/
theorem run_changes (s : Surroundings) (words : List String) (w : World) :
    w.files.Extends (worldOf (run s words w)).files ∨
      ∃ o name made, read words = .ok o ∧ o.inputFile = some name ∧ w.files.Extends made ∧
        Compiles s (o.toJob name).sourceName made ∧
        w.files.ChangesOnly
          [(o.toJob name).pageTarget s.settings, (o.toJob name).listingTarget s.settings]
          (worldOf (run s words w)).files := by
  unfold run
  cases hread : read words with
  | error e => cases e <;> exact Or.inl (.refl w.files)
  | ok o =>
    cases hname : o.inputFile with
    | none =>
      refine Or.inl (closed_carryOut closed_onlyAddsDirectories s o (fun name h => ?_) w)
      rw [hname] at h
      cases h
    | some name =>
      have hadds : AddsUnless (Compiles s (o.toJob name).sourceName) (carryOut s o) := by
        refine closed_carryOut (closed_addsUnless _) s o fun name' hname' => ?_
        obtain rfl : name = name' := Option.some.inj (hname.symm.trans hname')
        exact addsUnless_stages s (o.toJob name)
      refine (hadds w).imp_right ?_
      rintro ⟨made, hmade, hcompiles⟩
      exact ⟨o, name, made, rfl, hname, hmade, hcompiles, changesOnly_carryOut s hname w⟩

/-! ### Endings -/

/-- A call of the program that ends with an exit code ends with two where its command line is
refused and with one where it is carried out. -/
theorem exit_of_run {code : Nat} (h : run s words w = .error (.exit code) w') :
    (∃ message, read words = .error (.refused message)) ∧ code = 2 ∨
      (∃ o, read words = .ok o) ∧ code = 1 := by
  unfold run at h
  cases hread : read words with
  | ok o =>
    rw [hread] at h
    refine Or.inr ⟨⟨o, rfl⟩, ?_⟩
    exact closed_carryOut closed_exitsWithOne s o (fun name _ => exitsWithOne_stages s _ _) w code w' h
  | error e =>
    rw [hread] at h
    cases e with
    | help => cases h
    | version => cases h
    | noPlace => cases h
    | refused message =>
      cases h
      exact Or.inl ⟨⟨message, rfl⟩, rfl⟩

/-! ### Words for a job -/

/-- Between two directories that are there, the program does what its stages do. -/
theorem run_words {name : String} (hverbosity : 1 ≤ o.verbosity)
    (hname : o.inputFile = some name) (hsource : name ≠ "--") (houtput : o.outputDirectory ≠ "--")
    (hfrom : w.files.isDirectory (.ofString o.inputDirectory) = true)
    (hto : w.files.isDirectory (.ofString o.outputDirectory) = true) :
    run s o.words w = Functor.discard (stages s (o.toJob name) inOrder) w := by
  have hread : read o.words = .ok o := by
    refine read_words hverbosity (fun h => hsource ?_) houtput
    rw [hname] at h
    exact Option.some.inj h
  have hprepared : prepareOutput (.ofString o.outputDirectory) w = .ok () w := by
    have hthere : w.files.contains (.ofString o.outputDirectory) = true := by
      rw [FileTree.contains, hto, Bool.or_true]
    rw [prepareOutput, bind_of_ok (files_apply w), if_pos hthere, if_pos hto]
    rfl
  have hrequired : requireInput (.ofString o.inputDirectory) w = .ok () w := by
    rw [requireInput, bind_of_ok (files_apply w), if_pos hfrom]
    rfl
  unfold run
  rw [hread]
  dsimp only
  rw [carryOut, bind_of_ok hprepared, bind_of_ok hrequired, hname]

end CommandLine

end Shoutmark
