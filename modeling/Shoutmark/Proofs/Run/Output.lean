import Mathlib
import Shoutmark.Proofs.Run.Order
import Shoutmark.Proofs.Run.Targets
import Shoutmark.Proofs.Token.Spacing

/-! What a whole run leaves behind: the page that its source compiles to and, if it is wished, the
listing, or no file at all. -/

namespace Shoutmark

namespace Stage
open Run

variable {s : Surroundings} {job : Job} {w : World}

/-! ### Page and listing -/

/-- A page can be written at its path and a listing, if it is wished, at another that does not lead
to the same file. -/
structure Writable (t : FileTree) (wished : Bool) (pagePath listingPath : Path)
    (pagePlace listingPlace : List String) : Prop where
  pageNamed : pagePath.holdsNul = false
  page : t.Admits pagePath pagePlace
  listingNamed : wished = true → listingPath.holdsNul = false
  listing : wished = true → t.Admits listingPath listingPlace
  apart : wished = true → listingPlace ≠ pagePlace

def listingOf (s : Surroundings) (job : Job) : String :=
  Listing.page s.styleSheet (some job.sourcePath.name) (job.source.getD "")

/-- The files with the page at its place and the listing, if it is wished, at its own. -/
def withOutput (wished : Bool) (pagePlace listingPlace : List String) (html code : String)
    (t : FileTree) : FileTree :=
  let written := t.insert pagePlace (.file (Text.Utf8.encode html))
  if wished then written.insert listingPlace (.file (Text.Utf8.encode code)) else written

theorem write_ok {page : Page} {pagePlace listingPlace : List String} (hp : job.page = some page)
    (hstyle : job.listing = true → s.settings.listingStyle ∈ Listing.styles)
    (hw : Writable w.files job.listing job.pagePath job.listingPath pagePlace listingPlace) :
    ∃ events, write s job w = .ok { job with pageWritten := true }
      { w with
        files := withOutput job.listing pagePlace listingPlace page.html (listingOf s job) w.files
        events } := by
  rw [write, hp]
  dsimp only
  rw [bind_of_ok (writeFile_apply hw.pageNamed hw.page _), bind_of_ok (tell_apply _ _)]
  cases hl : job.listing with
  | false => exact ⟨_, rfl⟩
  | true =>
    have hrender : Listing.render s.styleSheet s.settings.listingStyle (some job.sourcePath.name)
        (job.source.getD "") = .ok (listingOf s job) := by
      rw [Listing.render, if_pos (hstyle hl), listingOf]
    rw [if_pos rfl, hrender]
    have hlater := hw.page.insert (hw.listing hl) (Text.Utf8.encode page.html)
    exact ⟨_, Eq.trans (bind_of_ok (writeFile_apply (hw.listingNamed hl) hlater _)) rfl⟩

section Written

variable {t : FileTree} {wished : Bool} {pagePath listingPath : Path}
  {pagePlace listingPlace : List String}
  (hw : Writable t wished pagePath listingPath pagePlace listingPlace) (html code : String)
include hw

theorem Writable.read_page :
    (withOutput wished pagePlace listingPlace html code t).read pagePath =
      .ok (Text.Utf8.encode html) := by
  have hpage := hw.page.read_insert (Text.Utf8.encode html)
  cases wished with
  | false => exact hpage
  | true =>
    have hlater := hw.page.insert (hw.listing rfl) (Text.Utf8.encode html)
    have hkept := hw.page.insert hw.page (Text.Utf8.encode html)
    exact hlater.read_insert_of_ne hkept (Ne.symm (hw.apart rfl)) hpage

theorem Writable.read_listing (hl : wished = true) :
    (withOutput wished pagePlace listingPlace html code t).read listingPath =
      .ok (Text.Utf8.encode code) := by
  subst hl
  exact (hw.page.insert (hw.listing rfl) _).read_insert _

omit hw in
theorem lookup_withOutput {place : List String} (hp : place ≠ pagePlace)
    (hl : wished = true → place ≠ listingPlace) :
    (withOutput wished pagePlace listingPlace html code t).lookup place = t.lookup place := by
  have hpage := FileTree.lookup_insert_of_ne hp (.file (Text.Utf8.encode html)) t
  cases wished with
  | false => exact hpage
  | true => exact (FileTree.lookup_insert_of_ne (hl rfl) _ _).trans hpage

end Written

end Stage

open Stage

/-! ### The whole run -/

/-- The source of a job is there with these octets, and its output directory can be made. -/
structure Job.Found (s : Surroundings) (job : Job) (t : FileTree) (octets : List UInt8)
    (made : FileTree) : Prop where
  admitted : s.settings.admits job.inputFile = true
  isFile : t.isFile job.sourceName = true
  read : t.read job.sourceName = .ok octets
  outputNamed : job.outputPlace.holdsNul = false
  made : t.ensureDirectory job.outputPlace = (made, none)

namespace Run

variable {s : Surroundings} {job job' : Job} {w w' : World} {rest : List Stage}
  {octets : List UInt8} {made : FileTree}

theorem stages_of_ok (stage : Stage) (h : perform s job stage w = .ok job' w') :
    stages s job (stage :: rest) w = stages s job' rest w' := by
  rw [stages_cons, bind_of_ok h]

theorem stages_of_error (stage : Stage) {stop : Stop} (h : perform s job stage w = .error stop w') :
    stages s job (stage :: rest) w = .error stop w' := by
  rw [stages_cons, bind_of_error h]

theorem stages_found (hf : job.Found s w.files octets made) :
    ∃ events, stages s job inOrder w =
      stages s (job.placed s.settings) inOrder.tail { w with files := made, events } := by
  obtain ⟨events, hcheck⟩ := check_found hf.admitted hf.isFile hf.outputNamed hf.made
  exact ⟨events, stages_of_ok .checkEnvironment hcheck⟩

def sourced (s : Surroundings) (job : Job) (cs : List Char) : Job :=
  { job.placed s.settings with source := some (.ofList (Text.unifyLineEnds cs)) }

theorem pagePath_sourced (s : Surroundings) (job : Job) (cs : List Char) :
    (sourced s job cs).pagePath = job.pageTarget s.settings := by
  simp only [sourced, Job.placed]

theorem listingPath_sourced (s : Surroundings) (job : Job) (cs : List Char) :
    (sourced s job cs).listingPath = job.listingTarget s.settings := by
  simp only [sourced, Job.placed]

theorem stages_decoded (hf : job.Found s w.files octets made) {cs : List Char}
    (hcs : Text.Utf8.decode octets = .ok cs) :
    ∃ events, stages s job inOrder w =
      stages s (sourced s job cs) inOrder.tail.tail { w with files := made, events } := by
  obtain ⟨events, hfound⟩ := stages_found hf
  have hread : readText made job.sourceName = .ok (.ofList (Text.unifyLineEnds cs)) := by
    rw [readText, (FileTree.extends_ensureDirectory hf.made).read hf.read]
    simp only [hcs]
  obtain ⟨events', hsource⟩ := readSourceText_ok (job.placed s.settings)
    (w := { w with files := made, events }) (FileTree.isFile_iff.mp hf.isFile).1 hread
  exact ⟨events', hfound.trans (stages_of_ok .readSource hsource)⟩

/-- A page that is there is written. Then the run comes to its end, unless a browser is wished that
cannot be asked for. -/
theorem stages_written (job : Job) {page : Page} {pagePlace listingPlace : List String}
    (hp : job.page = some page)
    (hstyle : job.listing = true → s.settings.listingStyle ∈ Listing.styles)
    (hw : Writable w.files job.listing job.pagePath job.listingPath pagePlace listingPlace) :
    ∃ w', w'.files =
        withOutput job.listing pagePlace listingPlace page.html (listingOf s job) w.files ∧
      (browserFault? s job = none →
        ∃ job', stages s job [.writeOutput, .launchBrowser, .reportResults] w = .ok job' w') ∧
      ∀ fault, browserFault? s job = some fault →
        stages s job [.writeOutput, .launchBrowser, .reportResults] w =
          .error (.browser fault) w' := by
  obtain ⟨events, hwrite⟩ := write_ok hp hstyle hw
  obtain ⟨w₁, hfiles, hshown, hfaulty⟩ := launch_apply (s := s) { job with pageWritten := true }
    hw.pageNamed { w with
      files := withOutput job.listing pagePlace listingPlace page.html (listingOf s job) w.files
      events }
  cases hb : browserFault? s job with
  | none =>
    obtain ⟨job', hlaunch⟩ := hshown hb
    have hready : job'.pageWritten = true ∧ job'.page.isSome = true := by
      have hpage : job.page.isSome = true := by
        rw [hp]
        rfl
      obtain rfl | ⟨-, rfl⟩ := of_launch hlaunch <;> exact ⟨rfl, hpage⟩
    obtain ⟨w₂, hreport, hsame⟩ := report_of_pageWritten hready.1 hready.2 w₁
    refine ⟨w₂, hsame.trans hfiles, fun _ => ⟨job', ?_⟩, nofun⟩
    rw [stages_of_ok .writeOutput hwrite, stages_of_ok .launchBrowser hlaunch,
      stages_of_ok .reportResults hreport]
    rfl
  | some fault =>
    refine ⟨w₁, hfiles, nofun, ?_⟩
    rintro _ ⟨⟩
    rw [stages_of_ok .writeOutput hwrite, stages_of_error .launchBrowser (hfaulty fault hb)]

theorem stages_undecoded (hf : job.Found s w.files octets made) {r : Text.Utf8.Refusal}
    (hr : Text.Utf8.decode octets = .error r) :
    ∃ w', stages s job inOrder w = .error (.exit 1) w' ∧ w'.files = made := by
  obtain ⟨events, hfound⟩ := stages_found hf
  have hread : readText made job.sourceName = .error r.message := by
    rw [readText, (FileTree.extends_ensureDirectory hf.made).read hf.read]
    simp only [hr]
  obtain ⟨w', hsource, hfiles⟩ := readSourceText_refused (job.placed s.settings)
    (w := { w with files := made, events }) (FileTree.isFile_iff.mp hf.isFile).1 hread
  exact ⟨w', hfound.trans (stages_of_error .readSource hsource), hfiles⟩

section Decoded

variable {cs : List Char} (hf : job.Found s w.files octets made)
  (hcs : Text.Utf8.decode octets = .ok cs)
include hf hcs

theorem stages_uncompiled {e : CompileError}
    (he : (compile s.settings.listsEnabled (.ofList cs)).outcome = .error e) :
    ∃ w', stages s job inOrder w = .error (.exit 1) w' ∧ w'.files = made ∧
      w'.stderr = w.stderr ++ e.message ++ "\n" := by
  obtain ⟨events, hdecoded⟩ := stages_decoded hf hcs
  rw [← Token.compile_unifyLineEnds] at he
  obtain ⟨events', hmake⟩ := makePage_refused (sourced s job cs)
    (w := { w with files := made, events }) rfl he
  exact ⟨_, hdecoded.trans (stages_of_error .compileSource hmake), rfl, rfl⟩

theorem stages_compiled {page : Page}
    (hpage : (compile s.settings.listsEnabled (.ofList cs)).outcome = .ok page) :
    ∃ events, stages s job inOrder w =
      stages s { sourced s job cs with page := some page }
        [.writeOutput, .launchBrowser, .reportResults] { w with files := made, events } := by
  obtain ⟨events, hdecoded⟩ := stages_decoded hf hcs
  rw [← Token.compile_unifyLineEnds] at hpage
  obtain ⟨events', hmake⟩ := makePage_ok (sourced s job cs)
    (w := { w with files := made, events }) rfl hpage
  exact ⟨events', hdecoded.trans (stages_of_ok .compileSource hmake)⟩

end Decoded

/-- What the stages in their order leave behind, whatever the job holds at first. A source that is
not admitted or not there changes nothing. Where there is one and the output directory can be made,
a source that is not in UTF-8 or does not compile changes no file, and what is wrong with it is said;
one that compiles leaves its page, and its listing if one is wished, and changes no other file, as
long as both can be written and are two files. Names without a slash are always two files. A run that
leaves a page comes to its end, unless a browser is wished whose name cannot be looked for. -/
theorem output_exact (s : Surroundings) (job : Job) (w : World) :
    (s.settings.strictExtension = true ∧ s.settings.hasExtension job.inputFile = false ∨
        w.files.isFile job.sourceName = false →
      ∃ w', stages s job inOrder w = .error (.exit 1) w' ∧ w'.files = w.files) ∧
    (∀ octets made, job.Found s w.files octets made →
      w.files.Extends made ∧
      (∀ r, Text.Utf8.decode octets = .error r →
        ∃ w', stages s job inOrder w = .error (.exit 1) w' ∧ w'.files = made) ∧
      ∀ cs, Text.Utf8.decode octets = .ok cs →
        (∀ e, (compile s.settings.listsEnabled (.ofList cs)).outcome = .error e →
          ∃ w', stages s job inOrder w = .error (.exit 1) w' ∧ w'.files = made ∧
            w'.stderr = w.stderr ++ e.message ++ "\n") ∧
        ∀ page pagePlace listingPlace,
          (compile s.settings.listsEnabled (.ofList cs)).outcome = .ok page →
          (job.listing = true → s.settings.listingStyle ∈ Listing.styles) →
          Writable made job.listing (job.pageTarget s.settings) (job.listingTarget s.settings)
            pagePlace listingPlace →
          ∃ w', (browserFault? s job = none → ∃ job', stages s job inOrder w = .ok job' w') ∧
            (∀ fault, browserFault? s job = some fault →
              stages s job inOrder w = .error (.browser fault) w') ∧
            w'.files.read (job.pageTarget s.settings) = .ok (Text.Utf8.encode page.html) ∧
            (job.listing = true → w'.files.read (job.listingTarget s.settings) =
              .ok (Text.Utf8.encode (Listing.page s.styleSheet (some job.sourceName.name)
                (.ofList (Text.unifyLineEnds cs))))) ∧
            ∀ place, place ≠ pagePlace → (job.listing = true → place ≠ listingPlace) →
              w'.files.lookup place = made.lookup place) ∧
    ('/' ∉ job.sourceName.name.toList → '/' ∉ s.settings.outputExtension.toList →
      ∀ (t : FileTree) pagePlace listingPlace, t.Admits (job.pageTarget s.settings) pagePlace →
        t.Admits (job.listingTarget s.settings) listingPlace → listingPlace ≠ pagePlace) ∧
    ∀ known fault, s.browserNamed = Browser.named known →
      (browserFault? s job = some fault ↔
        (job.openBrowser = true ∨ s.settings.openBrowser = true) ∧
          ∃ name, s.settings.browser = some name ∧ name ≠ "" ∧
            (Browser.isCommand name.toList = true ∧
                Browser.commandFault? name.toList = some fault ∨
              Browser.isCommand name.toList = false ∧ known name = false ∧
                (∀ c ∈ name.toList, Text.isBlank c = true) ∧ fault = .noWord)) := by
  refine ⟨fun h => ?_, fun octets made hf => ⟨FileTree.extends_ensureDirectory hf.made,
    fun r hr => stages_undecoded hf hr, fun cs hcs => ⟨fun e he => stages_uncompiled hf hcs he,
      fun page pagePlace listingPlace hpage hstyle hw => ?_⟩⟩,
    fun hname hext t _ _ => Job.places_apart hname hext,
    fun known fault hnamed => browserFault?_of_named hnamed⟩
  · have hrefused : s.settings.admits job.inputFile = false ∨
        w.files.isFile job.sourceName = false := by
      refine h.imp_left fun ⟨hstrict, hext⟩ => ?_
      show (!s.settings.strictExtension || s.settings.hasExtension job.inputFile) = false
      rw [hstrict, hext]
      rfl
    obtain ⟨w', hcheck, hfiles⟩ := check_refused hrefused
    exact ⟨w', stages_of_error .checkEnvironment hcheck, hfiles⟩
  · obtain ⟨events, hcompiled⟩ := stages_compiled hf hcs hpage
    obtain ⟨w', hfiles, hended, hfaulty⟩ := stages_written
      { sourced s job cs with page := some page } (w := { w with files := made, events }) rfl
      hstyle (by rwa [pagePath_sourced, listingPath_sourced])
    rw [hcompiled]
    refine ⟨w', hended, hfaulty, ?_, ?_, ?_⟩
    · rw [hfiles]
      exact hw.read_page _ _
    · rw [hfiles]
      exact hw.read_listing _ _
    · rw [hfiles]
      exact fun place hp hl => lookup_withOutput _ _ hp hl

/-- A source with a line end of two characters, its page and its listing, which a browser shows; a
source that is not there; and a browser whose name is a command line with an open quotation. -/
theorem output_exact_two_files :
    (∃ page job' w', (compile false "#HAI a\r\n#KTHXBYE").outcome = .ok page ∧
      stages .usual { inputFile := "page.lol", listing := true, openBrowser := true } inOrder
        (.holding "page.lol" "#HAI a\r\n#KTHXBYE") = .ok job' w' ∧
      w'.files.read ⟨0, ["page.html"]⟩ = .ok (Text.Utf8.encode page.html) ∧
      w'.files.read ⟨0, ["page.source.html"]⟩ =
        .ok (Text.Utf8.encode (Listing.page "" (some "page.lol") "#HAI a\n#KTHXBYE"))) ∧
    (∃ w', stages .usual { inputFile := "other.lol" } inOrder
        (.holding "page.lol" "#HAI a\r\n#KTHXBYE") = .error (.exit 1) w' ∧
      w'.files = (World.holding "page.lol" "#HAI a\r\n#KTHXBYE").files) ∧
    browserFault? { Surroundings.usual with settings := { browser := some "firefox \"%s" } }
      { inputFile := "page.lol", openBrowser := true } = some .openQuotation := by
  let w : World := .holding "page.lol" "#HAI a\r\n#KTHXBYE"
  let job : Job := { inputFile := "page.lol", listing := true, openBrowser := true }
  refine ⟨?_, (output_exact .usual { inputFile := "other.lol" } w).1 (Or.inr (by decide)), ?_⟩
  · have hf : job.Found .usual w.files (Text.Utf8.encode "#HAI a\r\n#KTHXBYE") w.files :=
      ⟨by decide, by decide, by cbv, rfl, by cbv⟩
    have hdecode : Text.Utf8.decode (Text.Utf8.encode "#HAI a\r\n#KTHXBYE") =
        .ok "#HAI a\r\n#KTHXBYE".toList := by cbv
    have hpath : job.pageTarget Surroundings.usual.settings = ⟨0, ["page.html"]⟩ := by decide
    have hpath' : job.listingTarget Surroundings.usual.settings = ⟨0, ["page.source.html"]⟩ := by
      decide
    have hname : job.sourceName.name = "page.lol" := by decide
    have htext : Text.unifyLineEnds "#HAI a\r\n#KTHXBYE".toList = "#HAI a\n#KTHXBYE".toList := by
      decide
    have hpage : w.files.Admits ⟨0, ["page.html"]⟩ ["page.html"] := ⟨rfl, by decide⟩
    have hlisting : w.files.Admits ⟨0, ["page.source.html"]⟩ ["page.source.html"] :=
      ⟨rfl, by decide⟩
    rw [← hpath] at hpage
    rw [← hpath'] at hlisting
    have hapart : (["page.source.html"] : List String) ≠ ["page.html"] :=
      (output_exact .usual job w).2.2.1 (by decide) (by decide) w.files _ _ hpage hlisting
    have hw : Writable w.files true (job.pageTarget Surroundings.usual.settings)
        (job.listingTarget Surroundings.usual.settings) ["page.html"] ["page.source.html"] :=
      ⟨by decide, hpage, fun _ => by decide, fun _ => hlisting, fun _ => hapart⟩
    have hcompiles : (compile false "#HAI a\r\n#KTHXBYE").outcome.toOption.isSome = true := by
      decide +kernel
    cases hpage : (compile false "#HAI a\r\n#KTHXBYE").outcome with
    | error e =>
      rw [hpage] at hcompiles
      cases hcompiles
    | ok page =>
      obtain ⟨w', hended, -, hread, hlisting, -⟩ :=
        (((output_exact .usual job w).2.1 _ _ hf).2.2 _ hdecode).2 page _ _ hpage
          (fun _ => by decide) hw
      obtain ⟨job', hrun⟩ := hended rfl
      have hcode := hlisting rfl
      rw [hpath', hname, htext, String.ofList_toList] at hcode
      rw [hpath] at hread
      exact ⟨page, job', w', rfl, hrun, hread, hcode⟩
  · let s : Surroundings :=
      { Surroundings.usual with settings := { browser := some "firefox \"%s" } }
    let wished : Job := { inputFile := "page.lol", openBrowser := true }
    exact ((output_exact s wished w).2.2.2 (fun _ => false) .openQuotation rfl).mpr
      ⟨Or.inl rfl, _, rfl, by decide, Or.inl ⟨by decide, by decide⟩⟩

end Run

/-! ### Two files at one place, and a browser without a name -/

/-- Settings by which the page and its listing have one name, by way of two directories. -/
def Surroundings.clashing : Surroundings :=
  { Surroundings.usual with settings := { outputExtension := "a/../x.source.html" } }

def Job.clashing : Job :=
  { inputDirectory := some ⟨0, ["in"]⟩
    outputDirectory := some ⟨0, ["out"]⟩
    inputFile := "page.lol"
    listing := true }

def World.clashing : World :=
  { files := ⟨[], [(["in"], .directory), (["out"], .directory), (["out", "pagea"], .directory),
      (["out", "page.sourcea"], .directory),
      (["in", "page.lol"], .file (Text.Utf8.encode "#HAI a #KTHXBYE"))]⟩ }

/-- Where the page and the listing lead to the same place, both are written and the run comes to its
end, but what is left there is not the page. And where a browser is wished by a name that is blank,
the run stops behind the page that it has written. -/
theorem Run.output_inexact :
    (∃ page place job' w', Job.clashing.Found .clashing World.clashing.files
        (Text.Utf8.encode "#HAI a #KTHXBYE") World.clashing.files ∧
      Text.Utf8.decode (Text.Utf8.encode "#HAI a #KTHXBYE") = .ok "#HAI a #KTHXBYE".toList ∧
      (compile false (.ofList "#HAI a #KTHXBYE".toList)).outcome = .ok page ∧
      Surroundings.clashing.settings.listingStyle ∈ Listing.styles ∧
      World.clashing.files.Admits (Job.clashing.pageTarget Surroundings.clashing.settings) place ∧
      World.clashing.files.Admits (Job.clashing.listingTarget Surroundings.clashing.settings) place ∧
      Run.stages .clashing .clashing inOrder .clashing = .ok job' w' ∧
      w'.files.read (Job.clashing.pageTarget Surroundings.clashing.settings) ≠
        .ok (Text.Utf8.encode page.html)) ∧
    ∃ w', Run.stages { Surroundings.usual with settings := { browser := some " " } }
        { inputFile := "page.lol", openBrowser := true } inOrder
        (.holding "page.lol" "#HAI a #KTHXBYE") = .error (.browser .noWord) w' ∧
      w'.files.isFile ⟨0, ["page.html"]⟩ = true := by
  have hf : Job.clashing.Found .clashing World.clashing.files
      (Text.Utf8.encode "#HAI a #KTHXBYE") World.clashing.files :=
    ⟨by decide, by decide, rfl, rfl, by cbv⟩
  have hhtml : (compile false (.ofList "#HAI a #KTHXBYE".toList)).outcome.toOption.map Page.html =
      some "a </body></html>" := by decide +kernel
  have hends : endsIn (fun _ w' =>
      (w'.files.read (Job.clashing.pageTarget Surroundings.clashing.settings)).toOption ≠
        some (Text.Utf8.encode "a </body></html>"))
      (Run.stages .clashing .clashing inOrder) .clashing = true := by decide +kernel
  have hstops : stopsIn (fun stop w' => stop = .browser .noWord ∧
        w'.files.isFile ⟨0, ["page.html"]⟩ = true)
      (Run.stages { Surroundings.usual with settings := { browser := some " " } }
        { inputFile := "page.lol", openBrowser := true } inOrder)
      (.holding "page.lol" "#HAI a #KTHXBYE") = true := by decide +kernel
  constructor
  · obtain ⟨job', w', hrun, hread⟩ := ok_of_endsIn hends
    cases hc : (compile false (.ofList "#HAI a #KTHXBYE".toList)).outcome with
    | error e =>
      rw [hc] at hhtml
      cases hhtml
    | ok page =>
      rw [hc] at hhtml
      refine ⟨page, ["out", "x.source.html"], job', w', hf, by cbv, rfl, by decide, ⟨rfl, by decide⟩,
        ⟨rfl, by decide⟩, hrun, fun h => ?_⟩
      rw [h, Option.some.inj hhtml] at hread
      exact of_decide_eq_true hread rfl
  · obtain ⟨stop, w', hrun, htest⟩ := error_of_stopsIn hstops
    obtain ⟨rfl, hfile⟩ := of_decide_eq_true htest
    exact ⟨w', hrun, hfile⟩

end Shoutmark
