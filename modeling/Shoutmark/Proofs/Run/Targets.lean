import Shoutmark.Proofs.Files.Tree
import Shoutmark.Run.Job
import Shoutmark.Settings.Basic

/-! Where a job puts its page and its listing. The two names differ, but names may hold slashes and
lead through directories, so that the two may still be one file. Names without a slash never are. -/

namespace Shoutmark

namespace Job

def pageTarget (settings : Settings) (job : Job) : Path :=
  job.outputPlace.join (.ofString (settings.outputName job.sourceName.name))

def listingTarget (settings : Settings) (job : Job) : Path :=
  job.outputPlace.join (.ofString (settings.listingName job.sourceName.name))

end Job

/-! ### Names without a slash -/

namespace Path

theorem ofString_of_no_slash {name : String} (h : '/' ∉ name.toList) :
    ofString name = ⟨0, if name = "" ∨ name = "." then [] else [name]⟩ := by
  have hslashes : (name.toList.takeWhile (· == '/')).length = 0 := by
    cases hcs : name.toList with
    | nil => rfl
    | cons c rest =>
      have hc : c ≠ '/' := fun he => h (by rw [hcs, he]; exact List.mem_cons_self)
      rw [List.takeWhile_cons_of_neg (by simpa using hc), List.length_nil]
  have hparts : (Text.splitOn '/' name.toList).map String.ofList = [name] := by
    rw [Text.splitOn_of_not_mem h, List.map_singleton, String.ofList_toList]
  simp only [ofString, hslashes, hparts]
  by_cases he : name = "" ∨ name = "."
  · rw [if_pos he]
    simpa [Decidable.or_iff_not_imp_left] using he
  · rw [if_neg he]
    simpa using he

theorem join_ofString_of_no_slash (p : Path) {name : String} (h : '/' ∉ name.toList) :
    p.join (ofString name) =
      ⟨p.slashes, p.parts ++ if name = "" ∨ name = "." then [] else [name]⟩ := by
  rw [ofString_of_no_slash h]
  rfl

end Path

namespace FileTree

variable {t : FileTree}

theorem walk_concat {place found : List String} {parts : List String} {name : String}
    (h : t.walk place (parts ++ [name]) = .ok found) :
    ∃ above, t.walk place parts = .ok above ∧ t.lookup above = some .directory ∧
      found = if name = ".." then above.dropLast else above ++ [name] := by
  induction parts generalizing place with
  | nil =>
    rw [List.nil_append, walk] at h
    cases hl : t.lookup place with
    | none =>
      rw [hl] at h
      cases h
    | some e =>
      cases e with
      | file octets =>
        rw [hl] at h
        cases h
      | directory =>
        rw [hl] at h
        refine ⟨place, rfl, hl, ?_⟩
        simp only [walk] at h
        split at h <;> rename_i hname <;> cases h
        · rw [if_pos hname]
        · rw [if_neg hname]
  | cons part rest ih =>
    rw [List.cons_append, walk] at h
    rw [walk]
    cases hl : t.lookup place with
    | none =>
      rw [hl] at h
      cases h
    | some e =>
      cases e with
      | file octets =>
        rw [hl] at h
        cases h
      | directory =>
        rw [hl] at h
        simp only at h ⊢
        split at h <;> rename_i hpart
        · rw [if_pos hpart]
          exact ih h
        · rw [if_neg hpart]
          exact ih h

/-- Two names without a slash lead to two files of one directory, unless the second names the
directory itself or the one above. -/
theorem Admits.apart {p : Path} {a b : String} {place other : List String}
    (ha : '/' ∉ a.toList) (hb : '/' ∉ b.toList) (hne : b ≠ a)
    (hplain : b ≠ "" ∧ b ≠ "." ∧ b ≠ "..") (h : t.Admits (p.join (.ofString a)) place)
    (h' : t.Admits (p.join (.ofString b)) other) : other ≠ place := by
  have hp := h.located
  have hq := h'.located
  rw [Path.join_ofString_of_no_slash p ha] at hp
  rw [Path.join_ofString_of_no_slash p hb, if_neg (by simp [hplain.1, hplain.2.1])] at hq
  simp only [locate] at hp hq
  obtain ⟨above, habove, hdirectory, hother⟩ := walk_concat hq
  rw [if_neg hplain.2.2] at hother
  split at hp
  · -- The first name leads to the directory, where no file can be.
    rw [List.append_nil] at hp
    have he : above = place := Except.ok.inj (habove.symm.trans hp)
    exact absurd (he ▸ hdirectory) h.free
  · obtain ⟨above', habove', -, hplace⟩ := walk_concat hp
    have he : above' = above := Except.ok.inj (habove'.symm.trans habove)
    rw [he] at hplace
    intro hsame
    rw [hsame, hplace] at hother
    split at hother
    · have hlength := congrArg List.length hother
      simp only [List.length_dropLast, List.length_append, List.length_singleton] at hlength
      omega
    · exact hne (List.singleton_inj.mp (List.append_cancel_left hother)).symm

end FileTree

/-! ### Page and listing -/

namespace Job

variable {settings : Settings} {job : Job} {t : FileTree}

theorem not_slash_stem {name : String} (h : '/' ∉ name.toList) :
    '/' ∉ (settings.stem name).toList := by
  unfold Settings.stem
  split
  · split
    · simp
    · rw [String.toList_ofList]
      exact fun hm => h (List.mem_of_mem_take hm)
  · exact h

/-- Where neither the name of the source nor the output extension holds a slash, the page and its
listing never lead to the same place. -/
theorem places_apart (hname : '/' ∉ job.sourceName.name.toList)
    (hext : '/' ∉ settings.outputExtension.toList) {pagePlace listingPlace : List String}
    (hpage : t.Admits (job.pageTarget settings) pagePlace)
    (hlisting : t.Admits (job.listingTarget settings) listingPlace) : listingPlace ≠ pagePlace := by
  have hstem : '/' ∉ (settings.stem job.sourceName.name).toList := not_slash_stem hname
  have hlonger : (settings.listingName job.sourceName.name).length =
      (settings.outputName job.sourceName.name).length + ".source".length := by
    simp only [Settings.listingName, Settings.outputName, String.length_append]
    omega
  rw [show ".source".length = 7 from rfl] at hlonger
  have hne {other : String} (ho : other.length < 7) :
      settings.listingName job.sourceName.name ≠ other := by
    intro he
    rw [he] at hlonger
    omega
  refine FileTree.Admits.apart ?_ ?_ (fun he => ?_)
    ⟨hne (by decide), hne (by decide), hne (by decide)⟩ hpage hlisting
  · simp [Settings.outputName, hstem, hext]
  · simp [Settings.listingName, hstem, hext]
  · rw [he] at hlonger
    omega

end Job
end Shoutmark
