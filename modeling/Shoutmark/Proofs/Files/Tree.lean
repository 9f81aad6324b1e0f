import Shoutmark.FileTree

/-! What file operations leave as it was. Making directories adds directories and nothing else, so
every path that led to a file before leads to it after; writing a file changes what stands at one
place, which is not a directory, so every other path leads where it led. -/

namespace Shoutmark.FileTree

variable {t t' t'' : FileTree}

/-! ### One place -/

theorem lookup_root (t : FileTree) : t.lookup [] = some .directory := rfl

theorem lookup_insert_self {place : List String} (h : place ≠ []) (e : Entry) (t : FileTree) :
    (t.insert place e).lookup place = some e := by
  rw [lookup, if_neg h, insert, List.lookup_cons_self]

theorem lookup_insert_of_ne {place other : List String} (h : other ≠ place) (e : Entry)
    (t : FileTree) : (t.insert place e).lookup other = t.lookup other := by
  have hkept (es : List (List String × Entry)) :
      (es.filter fun old => old.1 ≠ place).lookup other = es.lookup other := by
    induction es with
    | nil => rfl
    | cons old es ih =>
      obtain ⟨key, e'⟩ := old
      by_cases hk : key = place
      · have ho : (other == key) = false := beq_false_of_ne (hk ▸ h)
        rw [List.filter_cons_of_neg (by simp [hk]), List.lookup_cons, ho, ih]
      · rw [List.filter_cons_of_pos (by simp [hk]), List.lookup_cons, List.lookup_cons, ih]
  rw [lookup, lookup]
  split
  · rfl
  · rw [insert, List.lookup_cons, beq_false_of_ne h]
    exact hkept t.entries

/-! ### Paths -/

/-- The directories of a tree are directories of another, with the same working directory. -/
structure KeepsDirectories (t t' : FileTree) : Prop where
  workingDirectory : t'.workingDirectory = t.workingDirectory
  directory : ∀ place, t.lookup place = some .directory → t'.lookup place = some .directory

/-- A path that leads somewhere leads there as long as the directories are kept. -/
theorem KeepsDirectories.walk (h : KeepsDirectories t t') {place found : List String}
    {parts : List String} (hw : t.walk place parts = .ok found) :
    t'.walk place parts = .ok found := by
  induction parts generalizing place with
  | nil => exact hw
  | cons part rest ih =>
    rw [FileTree.walk] at hw ⊢
    cases hl : t.lookup place with
    | none =>
      rw [hl] at hw
      cases hw
    | some e =>
      cases e with
      | file octets =>
        rw [hl] at hw
        cases hw
      | directory =>
        rw [hl] at hw
        rw [h.directory place hl]
        simp only at hw ⊢
        split at hw
        · rename_i hp
          rw [if_pos hp]
          exact ih hw
        · rename_i hp
          rw [if_neg hp]
          exact ih hw

theorem KeepsDirectories.locate (h : KeepsDirectories t t') {p : Path} {place : List String}
    (hl : t.locate p = .ok place) : t'.locate p = .ok place := by
  rw [FileTree.locate] at hl ⊢
  rw [h.workingDirectory]
  exact h.walk hl

/-- Where nothing but a file or nothing at all stood, directories are kept whatever is put there. -/
theorem keepsDirectories_insert {place : List String} (h : t.lookup place ≠ some .directory)
    (e : Entry) : KeepsDirectories t (t.insert place e) := by
  refine ⟨rfl, fun other ho => ?_⟩
  have hne : other ≠ place := fun he => h (he ▸ ho)
  rw [lookup_insert_of_ne hne, ho]

theorem find_eq_ok_iff {p : Path} {e : Entry} :
    t.find p = .ok e ↔ ∃ place, t.locate p = .ok place ∧ t.lookup place = some e := by
  simp only [find, bind, Except.bind]
  cases hp : t.locate p with
  | error f => simp
  | ok place => cases hl : t.lookup place <;> simp [pure, Except.pure, hl]

/-! ### Making directories -/

/-- The second tree has all that the first one has, and beyond it only directories. -/
structure Extends (t t' : FileTree) : Prop where
  workingDirectory : t'.workingDirectory = t.workingDirectory
  kept : ∀ place e, t.lookup place = some e → t'.lookup place = some e
  added : ∀ place octets, t'.lookup place = some (.file octets) →
    t.lookup place = some (.file octets)

theorem Extends.refl (t : FileTree) : t.Extends t := ⟨rfl, fun _ _ h => h, fun _ _ h => h⟩

theorem Extends.trans (h : t.Extends t') (h' : t'.Extends t'') : t.Extends t'' :=
  ⟨h'.workingDirectory.trans h.workingDirectory, fun place e he => h'.kept place e (h.kept place e he),
    fun place octets ho => h.added place octets (h'.added place octets ho)⟩

theorem Extends.keepsDirectories (h : t.Extends t') : KeepsDirectories t t' :=
  ⟨h.workingDirectory, fun place hp => h.kept place _ hp⟩

theorem Extends.find (h : t.Extends t') {p : Path} {e : Entry} (hp : t.find p = .ok e) :
    t'.find p = .ok e := by
  obtain ⟨place, hl, he⟩ := find_eq_ok_iff.mp hp
  exact find_eq_ok_iff.mpr ⟨place, h.keepsDirectories.locate hl, h.kept place e he⟩

/-- The same files stand at the same places, with the same octets. -/
def SameFiles (t t' : FileTree) : Prop :=
  ∀ place octets, t'.lookup place = some (.file octets) ↔ t.lookup place = some (.file octets)

theorem Extends.sameFiles (h : t.Extends t') : t.SameFiles t' := fun place octets =>
  ⟨h.added place octets, h.kept place (.file octets)⟩

theorem SameFiles.trans (h : t.SameFiles t') (h' : t'.SameFiles t'') : t.SameFiles t'' :=
  fun place octets => (h' place octets).trans (h place octets)

theorem extends_makeDirectory {p : Path} {t' : FileTree} (h : t.makeDirectory p = .ok t') :
    t.Extends t' := by
  rw [makeDirectory] at h
  cases hl : t.locate p with
  | error f =>
    rw [hl] at h
    cases h
  | ok place =>
    rw [hl] at h
    simp only at h
    split at h
    · cases h
    · rename_i hnone
      cases h
      have hne : place ≠ [] := fun he => by
        rw [he, lookup_root] at hnone
        cases hnone
      refine ⟨rfl, fun other e he => ?_, fun other octets ho => ?_⟩
      · have : other ≠ place := fun hp => by
          rw [hp, hnone] at he
          cases he
        rw [lookup_insert_of_ne this, he]
      · by_cases hp : other = place
        · rw [hp, lookup_insert_self hne] at ho
          cases ho
        · rwa [lookup_insert_of_ne hp] at ho

theorem fst_afterRefusal (mayExist : Bool) (p : Path) (f : FileFault) (t : FileTree) :
    (t.afterRefusal mayExist p f).1 = t := by
  rw [afterRefusal]
  split <;> rfl

/-- However far it comes, making a directory with those above it only adds directories. -/
theorem extends_makeDirectories (mayExist : Bool) (slashes : Nat) (parts : List String)
    (t : FileTree) : t.Extends (t.makeDirectories mayExist slashes parts).1 := by
  fun_induction makeDirectories mayExist slashes parts t with
  | case1 =>
    rename_i hmade
    exact extends_makeDirectory hmade
  | case2 => exact .refl t
  | case3 =>
    rename_i habove ih
    rwa [habove] at ih
  | case4 =>
    rename_i habove _ hmade ih
    rw [habove] at ih
    exact ih.trans (extends_makeDirectory hmade)
  | case5 =>
    rename_i habove _ ih
    rwa [habove] at ih
  | case6 =>
    rename_i habove _ _ _ ih
    rw [habove] at ih
    rwa [fst_afterRefusal]
  | case7 =>
    rw [fst_afterRefusal]
    exact .refl t

theorem extends_ensureDirectory {p : Path} {made : FileTree} {fault : Option FileError}
    (h : t.ensureDirectory p = (made, fault)) : t.Extends made := by
  have he := extends_makeDirectories true p.slashes p.parts t
  rw [ensureDirectory] at h
  rwa [h] at he

theorem extends_createDirectory (p : Path) (t : FileTree) : t.Extends (t.createDirectory p).1 :=
  extends_makeDirectories false p.slashes p.parts t

/-! ### Writing files -/

theorem read_eq_ok_iff {p : Path} {octets : List UInt8} :
    t.read p = .ok octets ↔ t.find p = .ok (.file octets) := by
  rw [read]
  cases t.find p with
  | error f => simp
  | ok e => cases e <;> simp

theorem Extends.read (h : t.Extends t') {p : Path} {octets : List UInt8}
    (hr : t.read p = .ok octets) : t'.read p = .ok octets :=
  read_eq_ok_iff.mpr (h.find (read_eq_ok_iff.mp hr))

theorem isFile_iff {p : Path} :
    t.isFile p = true ↔ p.holdsNul = false ∧ ∃ octets, t.read p = .ok octets := by
  simp only [read_eq_ok_iff, isFile, Bool.and_eq_true, Bool.not_eq_true']
  cases t.find p with
  | error f => simp
  | ok e => cases e <;> simp

/-- A file may be written at a path: it leads to a place where no directory stands. -/
structure Admits (t : FileTree) (p : Path) (place : List String) : Prop where
  located : t.locate p = .ok place
  free : t.lookup place ≠ some .directory

namespace Admits

variable {p q : Path} {place other : List String} {octets : List UInt8}

theorem write (h : t.Admits p place) (octets : List UInt8) :
    t.write p octets = .ok (t.insert place (.file octets)) := by
  rw [FileTree.write, h.located]
  simp only
  split
  · rename_i hd
    exact absurd hd h.free
  · rfl

theorem ne_root (h : t.Admits p place) : place ≠ [] := fun he =>
  h.free (he ▸ lookup_root t)

theorem read_insert (h : t.Admits p place) (octets : List UInt8) :
    (t.insert place (.file octets)).read p = .ok octets :=
  read_eq_ok_iff.mpr <| find_eq_ok_iff.mpr
    ⟨place, (keepsDirectories_insert h.free _).locate h.located,
      lookup_insert_self h.ne_root _ t⟩

/-- Other files may be written after it where they might before. -/
theorem insert (h : t.Admits p place) (hq : t.Admits q other) (octets : List UInt8) :
    (t.insert place (.file octets)).Admits q other := by
  refine ⟨(keepsDirectories_insert h.free _).locate hq.located, ?_⟩
  by_cases he : other = place
  · rw [he, lookup_insert_self h.ne_root]
    nofun
  · rw [lookup_insert_of_ne he]
    exact hq.free

theorem read_insert_of_ne (h : t.Admits p place) (hq : t.Admits q other) (hne : other ≠ place)
    {old octets : List UInt8} (hr : t.read q = .ok old) :
    (t.insert place (.file octets)).read q = .ok old := by
  obtain ⟨found, hl, hf⟩ := find_eq_ok_iff.mp (read_eq_ok_iff.mp hr)
  have he : found = other := Except.ok.inj (hl.symm.trans hq.located)
  refine read_eq_ok_iff.mpr (find_eq_ok_iff.mpr
    ⟨other, (keepsDirectories_insert h.free _).locate hq.located, ?_⟩)
  rw [lookup_insert_of_ne hne, ← he, hf]

end Admits

/-- The second tree has the directories of the first, and its files are the files of the first, but
for those that these paths lead to. -/
structure ChangesOnly (targets : List Path) (t t' : FileTree) : Prop where
  directories : KeepsDirectories t t'
  files : ∀ place, (∀ p ∈ targets, t'.locate p ≠ .ok place) → ∀ octets,
    t'.lookup place = some (.file octets) ↔ t.lookup place = some (.file octets)

theorem Extends.changesOnly (h : t.Extends t') (targets : List Path) : ChangesOnly targets t t' :=
  ⟨h.keepsDirectories, fun place _ => h.sameFiles place⟩

theorem ChangesOnly.trans {targets : List Path} (h : ChangesOnly targets t t')
    (h' : ChangesOnly targets t' t'') : ChangesOnly targets t t'' := by
  have hdirectories : KeepsDirectories t t'' :=
    ⟨h'.directories.workingDirectory.trans h.directories.workingDirectory,
      fun place hp => h'.directories.directory place (h.directories.directory place hp)⟩
  refine ⟨hdirectories, fun place hapart octets => ?_⟩
  -- A path that leads to the place halfway leads there in the end.
  have hhalfway : ∀ p ∈ targets, t'.locate p ≠ .ok place := fun p hp hl =>
    hapart p hp (h'.directories.locate hl)
  exact (h'.files place hapart octets).trans (h.files place hhalfway octets)

theorem changesOnly_write {targets : List Path} {p : Path} {octets : List UInt8}
    (hp : p ∈ targets) (h : t.write p octets = .ok t') : ChangesOnly targets t t' := by
  rw [write] at h
  cases hl : t.locate p with
  | error f =>
    rw [hl] at h
    cases h
  | ok place =>
    rw [hl] at h
    simp only at h
    split at h
    · cases h
    · rename_i hfree
      cases h
      have hkept := keepsDirectories_insert hfree (.file octets)
      refine ⟨hkept, fun other hother octets => ?_⟩
      have hne : other ≠ place := fun he => hother p hp (he ▸ hkept.locate hl)
      rw [lookup_insert_of_ne hne]

end Shoutmark.FileTree
