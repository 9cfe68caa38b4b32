import WireSchema.Proofs.Directories

/-!
# The progress of a staged write

Files of a target are first staged, each under a hidden name beside its destination, and then moved.
How far this has come is a `Progress`: which files wait under their staging names, which were moved,
and which staging names are free again. Staging, removing and moving one file each take a progress
to the next one; files with plain names that are different and apart never get into each other's
way.
-/

namespace WireSchema

namespace FileSystem

variable {fs fs' : FileSystem} {p : Path} {base : Address} {name : String} {contents : ByteArray}

/-! ## Single operations -/

/-- The path names an entry of the directory at an address, by a name that is not too long. -/
def Reaches (fs : FileSystem) (p : Path) (base : Address) (name : String) : Prop :=
  fs.locate p = .ok ⟨base, .name name, false⟩ ∧ ¬ nameLimit < name.utf8ByteSize

/-- A path reaches what it reached as long as no directory goes away. -/
theorem Grows.reaches (h : Grows fs fs') (hp : fs.Reaches p base name) : fs'.Reaches p base name :=
  ⟨h.locate hp.1, hp.2⟩

/-- A path names the entry with a name of the directory at an address, if it can be followed. -/
def PointsTo (fs : FileSystem) (p : Path) (base : Address) (name : String) : Prop :=
  ∀ place, fs.locate p = .ok place → place = ⟨base, .name name, false⟩

/-- A file is written unless its path cannot be followed, its name is too long or a directory has
it. Then it cannot be removed either. -/
theorem writeFile_cases (hp : fs.PointsTo p base name) (contents : ByteArray) :
    (∃ e e', fs.writeFile p contents = .error e ∧ fs.removeFile p = .error e') ∨
      fs.Reaches p base name ∧ fs.find? (base ++ [name]) ≠ some .directory ∧
        fs.writeFile p contents = .ok (fs.put (base ++ [name]) (.file contents)) := by
  unfold writeFile removeFile
  cases hlocate : fs.locate p with
  | error e => exact .inl ⟨e, e, rfl, rfl⟩
  | ok place =>
    obtain rfl := hp place hlocate
    by_cases hlong : nameLimit < name.utf8ByteSize
    · refine .inl ⟨.nameTooLong, .nameTooLong, ?_, ?_⟩ <;>
        simp [writeFileAt, removeFileAt, child?, hlong, bind, Except.bind]
    · cases hfind : fs.find? (base ++ [name]) with
      | none =>
        refine .inr ⟨⟨hlocate, hlong⟩, by simp, ?_⟩
        simp [writeFileAt, child?, hlong, hfind, bind, Except.bind]
      | some entry =>
        cases entry with
        | directory =>
          refine .inl ⟨.isADirectory, .isADirectory, ?_, ?_⟩ <;>
            simp [writeFileAt, removeFileAt, child?, hlong, hfind, bind, Except.bind]
        | file old =>
          refine .inr ⟨⟨hlocate, hlong⟩, by simp, ?_⟩
          simp [writeFileAt, child?, hlong, hfind, bind, Except.bind]

/-- A write that succeeds puts a file where no directory was. -/
theorem eq_put_of_writeFile (hp : fs.PointsTo p base name)
    (h : fs.writeFile p contents = .ok fs') :
    fs.Reaches p base name ∧ fs.find? (base ++ [name]) ≠ some .directory ∧
      fs' = fs.put (base ++ [name]) (.file contents) := by
  rcases writeFile_cases hp contents with ⟨e, -, hfail, -⟩ | ⟨hreach, hfree, hdone⟩
  · cases h.symm.trans hfail
  · exact ⟨hreach, hfree, Except.ok.inj (h.symm.trans hdone)⟩

/-- Where a write fails, nothing can be removed. -/
theorem exists_removeFile_error (hp : fs.PointsTo p base name) {e : FileError}
    (h : fs.writeFile p contents = .error e) : ∃ e', fs.removeFile p = .error e' := by
  rcases writeFile_cases hp contents with ⟨-, e', -, hremove⟩ | ⟨-, -, hdone⟩
  · exact ⟨e', hremove⟩
  · cases h.symm.trans hdone

/-- Only a file can be removed. -/
theorem removeFile_cases (hp : fs.PointsTo p base name) :
    (∃ e, fs.removeFile p = .error e) ∨
      fs.find? (base ++ [name]) ≠ some .directory ∧
        fs.removeFile p = .ok (fs.erase (base ++ [name])) := by
  unfold removeFile
  cases hlocate : fs.locate p with
  | error e => exact .inl ⟨e, rfl⟩
  | ok place =>
    obtain rfl := hp place hlocate
    by_cases hlong : nameLimit < name.utf8ByteSize
    · exact .inl ⟨.nameTooLong, by simp [removeFileAt, child?, hlong, bind, Except.bind]⟩
    · cases hfind : fs.find? (base ++ [name]) with
      | none =>
        exact .inl ⟨.notFound, by simp [removeFileAt, child?, hlong, hfind, bind, Except.bind]⟩
      | some entry =>
        cases entry with
        | directory =>
          exact .inl
            ⟨.isADirectory, by simp [removeFileAt, child?, hlong, hfind, bind, Except.bind]⟩
        | file old =>
          exact .inr ⟨by simp, by simp [removeFileAt, child?, hlong, hfind, bind, Except.bind]⟩

/-- A file that is reached can be removed. -/
theorem removeFile_of_reaches (hp : fs.Reaches p base name)
    (hfile : fs.find? (base ++ [name]) = some (.file contents)) :
    fs.removeFile p = .ok (fs.erase (base ++ [name])) := by
  unfold removeFile
  simp [removeFileAt, hp.1, child?, hp.2, hfile, bind, Except.bind]

/-- A file is moved to another name in its directory unless that name cannot be reached or a
directory has it. -/
theorem rename_cases {target : Path} {newName : String} (hp : fs.Reaches p base name)
    (hfile : fs.find? (base ++ [name]) = some (.file contents))
    (htarget : fs.PointsTo target base newName) :
    (∃ e, fs.rename p target = .error e) ∨
      fs.Reaches target base newName ∧ fs.find? (base ++ [newName]) ≠ some .directory ∧
        fs.rename p target =
          .ok ((fs.erase (base ++ [name])).put (base ++ [newName]) (.file contents)) := by
  unfold rename
  cases hlocate : fs.locate target with
  | error e => exact .inl ⟨e, by simp [hp.1, bind, Except.bind]⟩
  | ok place =>
    obtain rfl := htarget place hlocate
    by_cases hlong : nameLimit < newName.utf8ByteSize
    · exact .inl
        ⟨.nameTooLong, by simp [renameAt, hp.1, hp.2, hfile, child?, hlong, bind, Except.bind]⟩
    · cases hfind : fs.find? (base ++ [newName]) with
      | none =>
        refine .inr ⟨⟨hlocate, hlong⟩, by simp, ?_⟩
        simp [renameAt, hp.1, hp.2, hfile, child?, hlong, hfind, bind, Except.bind]
      | some entry =>
        cases entry with
        | directory =>
          refine .inl ⟨.isADirectory, ?_⟩
          simp [renameAt, hp.1, hp.2, hfile, child?, hlong, hfind, bind, Except.bind,
            Entry.isDirectory]
        | file old =>
          refine .inr ⟨⟨hlocate, hlong⟩, by simp, ?_⟩
          simp [renameAt, hp.1, hp.2, hfile, child?, hlong, hfind, bind, Except.bind,
            Entry.isDirectory]

/-! ## Changes that leave the directories alone -/

/-- The same directories are there. -/
structure SameTree (fs fs' : FileSystem) : Prop where
  forth : Grows fs fs'
  back : Grows fs' fs

theorem SameTree.refl (fs : FileSystem) : SameTree fs fs :=
  ⟨.refl fs, .refl fs⟩

theorem SameTree.trans {fs'' : FileSystem} (h : SameTree fs fs') (h' : SameTree fs' fs'') :
    SameTree fs fs'' :=
  ⟨h.forth.trans h'.forth, h'.back.trans h.back⟩

/-- A change at one address that has a directory neither before nor after it. -/
theorem sameTree_of_one {a : Address} (hcwd : fs'.workingDirectory = fs.workingDirectory)
    (hother : ∀ b, b ≠ a → fs'.find? b = fs.find? b) (hbefore : fs.find? a ≠ some .directory)
    (hafter : fs'.find? a ≠ some .directory) : SameTree fs fs' := by
  refine ⟨⟨hcwd, fun {b} hb => ?_⟩, ⟨hcwd.symm, fun {b} hb => ?_⟩⟩
  · have hne : b ≠ a := by
      rintro rfl
      exact hbefore hb
    rw [hother b hne, hb]
  · have hne : b ≠ a := by
      rintro rfl
      exact hafter hb
    rw [← hother b hne, hb]

/-- Writing a file leaves all directories as they are. -/
theorem sameTree_put_file {a : Address} (ha : a ≠ []) (h : fs.find? a ≠ some .directory) :
    SameTree fs (fs.put a (.file contents)) :=
  sameTree_of_one rfl (fun _ hb => find?_put_of_ne fs _ hb) h (by simp [find?_put_self fs _ ha])

/-- So does removing one. -/
theorem sameTree_erase_file {a : Address} (ha : a ≠ []) (h : fs.find? a ≠ some .directory) :
    SameTree fs (fs.erase a) :=
  sameTree_of_one rfl (fun _ hb => find?_erase_of_ne fs hb) h (by simp [find?_erase_self fs ha])

/-- What was put at an address is erased with what was there before. -/
theorem erase_put (fs : FileSystem) (a : Address) (entry : Entry) :
    (fs.put a entry).erase a = fs.erase a := by
  simp [put, erase]

end FileSystem

/-! ## Files of a target -/

/-- Files with plain names that are pairwise different, and none of which is the staging name of
another. -/
structure PlainFiles (files : List GeneratedFile) : Prop where
  plain : ∀ f ∈ files, IsPlainName f.path
  distinct : (files.map GeneratedFile.path).Nodup
  apart : ∀ f ∈ files, ∀ g ∈ files, f ≠ g → f.path ≠ stagingName g.path

/-- Different names have different staging names. -/
theorem stagingName_inj {name name' : String} (h : stagingName name = stagingName name') :
    name = name' := by
  have hchars := congrArg String.toList h
  rw [stagingName_toList, stagingName_toList] at hchars
  exact String.toList_inj.mp (List.append_cancel_right (List.cons.inj hchars).2)

theorem ne_stagingName_self (name : String) : name ≠ stagingName name := by
  intro h
  have hlength := congrArg (List.length ∘ String.toList) h
  simp only [Function.comp_apply, stagingName_toList, List.length_cons, List.length_append]
    at hlength
  omega

/-- No file has the staging name of another, or its own. -/
theorem PlainFiles.path_ne_stagingName {files : List GeneratedFile} (h : PlainFiles files)
    {f g : GeneratedFile} (hf : f ∈ files) (hg : g ∈ files) : f.path ≠ stagingName g.path := by
  by_cases hfg : f = g
  · subst hfg
    exact ne_stagingName_self f.path
  · exact h.apart f hf g hg hfg

/-- Where a file is to be, below a directory. -/
def GeneratedFile.destination (directory : Path) (f : GeneratedFile) : Path :=
  directory.join ⟨f.path⟩

/-- The record that a file is staged. -/
def GeneratedFile.staged (directory : Path) (f : GeneratedFile) : Staged :=
  ⟨f.destination directory, f.contents.utf8ByteSize⟩

theorem GeneratedFile.staged_destination (directory : Path) (f : GeneratedFile) :
    (f.staged directory).destination = f.destination directory := rfl

/-- A file as an entry. -/
def GeneratedFile.entry (f : GeneratedFile) : Entry :=
  .file f.contents.toUTF8

/-- The address of a file in the directory at an address. -/
def GeneratedFile.address (base : Address) (f : GeneratedFile) : Address :=
  base ++ [f.path]

/-- The address under which a file is staged. -/
def GeneratedFile.stagingAddress (base : Address) (f : GeneratedFile) : Address :=
  base ++ [stagingName f.path]

namespace GeneratedFile

variable {base : Address} {f g : GeneratedFile}

theorem address_ne_nil : f.address base ≠ [] := by simp [address]

theorem stagingAddress_ne_nil : f.stagingAddress base ≠ [] := by simp [stagingAddress]

theorem path_eq_of_address_eq (h : f.address base = g.address base) : f.path = g.path :=
  (List.cons.inj (List.append_cancel_left h)).1

theorem path_eq_of_stagingAddress_eq (h : f.stagingAddress base = g.stagingAddress base) :
    f.path = g.path :=
  stagingName_inj (List.cons.inj (List.append_cancel_left h)).1

end GeneratedFile

/-- So no destination is a staging address. -/
theorem PlainFiles.address_ne_stagingAddress {files : List GeneratedFile} (h : PlainFiles files)
    {base : Address} {f g : GeneratedFile} (hf : f ∈ files) (hg : g ∈ files) :
    f.address base ≠ g.stagingAddress base :=
  fun heq => h.path_ne_stagingName hf hg (List.cons.inj (List.append_cancel_left heq)).1

/-- **How far a run has come** from a file system `before` with the directory in place: the files
that wait under their staging names, those that were moved to their destinations, and those whose
staging name was used and is free again. Nothing else has changed. -/
structure Progress (files : List GeneratedFile) (directory : Path) (base : Address)
    (before : FileSystem) (waiting moved freed : List GeneratedFile) (now : FileSystem) : Prop where
  tree : before.SameTree now
  listed : (moved ++ waiting).Sublist files
  freed_mem : ∀ f ∈ freed, f ∈ files
  reaches : ∀ f ∈ waiting,
    now.Reaches (f.destination directory).staging base (stagingName f.path)
  reaches_moved : ∀ f ∈ moved, now.Reaches (f.destination directory) base f.path
  find?_waiting : ∀ f ∈ waiting, now.find? (f.stagingAddress base) = some f.entry
  find?_moved : ∀ f ∈ moved, now.find? (f.address base) = some f.entry
  find?_freed : ∀ f ∈ freed, now.find? (f.stagingAddress base) = none
  find?_other : ∀ a, (∀ f ∈ waiting ++ freed, a ≠ f.stagingAddress base) →
    (∀ f ∈ moved, a ≠ f.address base) → now.find? a = before.find? a

namespace Progress

variable {files : List GeneratedFile} {directory : Path} {base : Address}
  {before now : FileSystem} {waiting moved freed : List GeneratedFile} {f : GeneratedFile}

/-- In the beginning nothing has been done. -/
theorem start (files : List GeneratedFile) (directory : Path) (base : Address)
    (before : FileSystem) : Progress files directory base before [] [] [] before where
  tree := .refl before
  listed := List.nil_sublist files
  freed_mem := by simp
  reaches := by simp
  reaches_moved := by simp
  find?_waiting := by simp
  find?_moved := by simp
  find?_freed := by simp
  find?_other := fun _ _ _ => rfl

/-- A file has another name than those before and behind it. -/
theorem path_ne (hfiles : PlainFiles files) {gs hs : List GeneratedFile}
    (hlisted : (gs ++ f :: hs).Sublist files) :
    (∀ g ∈ gs, g.path ≠ f.path) ∧ ∀ g ∈ hs, g.path ≠ f.path := by
  have hdistinct := (hlisted.map GeneratedFile.path).nodup hfiles.distinct
  rw [List.map_append, List.map_cons, List.nodup_append, List.nodup_cons] at hdistinct
  refine ⟨fun g hg => hdistinct.2.2 _ (List.mem_map_of_mem hg) _ List.mem_cons_self, ?_⟩
  rintro g hg heq
  exact hdistinct.2.1.1 (heq ▸ List.mem_map_of_mem hg)

/-- Staging one more file. -/
theorem stage (hfiles : PlainFiles files)
    (h : Progress files directory base before waiting [] [] now)
    (hlisted : (waiting ++ [f]).Sublist files)
    (hreach : now.Reaches (f.destination directory).staging base (stagingName f.path))
    (hfree : now.find? (f.stagingAddress base) ≠ some .directory) :
    Progress files directory base before (waiting ++ [f]) [] []
      (now.put (f.stagingAddress base) f.entry) := by
  have htree : now.SameTree (now.put (f.stagingAddress base) f.entry) :=
    FileSystem.sameTree_put_file GeneratedFile.stagingAddress_ne_nil hfree
  obtain ⟨hpaths, -⟩ := path_ne hfiles hlisted
  refine
    { tree := h.tree.trans htree
      listed := hlisted
      freed_mem := by simp
      reaches := ?_
      reaches_moved := by simp
      find?_waiting := ?_
      find?_moved := by simp
      find?_freed := by simp
      find?_other := ?_ }
  · intro g hg
    rcases List.mem_append.mp hg with hg | hg
    · exact htree.forth.reaches (h.reaches g hg)
    · obtain rfl := List.mem_singleton.mp hg
      exact htree.forth.reaches hreach
  · -- files have different staging names, so those that wait stay as they are
    intro g hg
    rcases List.mem_append.mp hg with hg | hg
    · rw [now.find?_put_of_ne _ (mt GeneratedFile.path_eq_of_stagingAddress_eq (hpaths g hg))]
      exact h.find?_waiting g hg
    · obtain rfl := List.mem_singleton.mp hg
      exact now.find?_put_self _ GeneratedFile.stagingAddress_ne_nil
  · intro a ha hmoved
    rw [now.find?_put_of_ne _ (ha f (by simp))]
    exact h.find?_other a (fun g hg => ha g (by simp_all)) hmoved

/-- Freeing the staging name of a file that does not wait. -/
theorem drop (hfiles : PlainFiles files)
    (h : Progress files directory base before waiting [] [] now)
    (hlisted : (waiting ++ [f]).Sublist files)
    (hfree : now.find? (f.stagingAddress base) ≠ some .directory) :
    Progress files directory base before waiting [] [f] (now.erase (f.stagingAddress base)) := by
  have htree : now.SameTree (now.erase (f.stagingAddress base)) :=
    FileSystem.sameTree_erase_file GeneratedFile.stagingAddress_ne_nil hfree
  obtain ⟨hpaths, -⟩ := path_ne hfiles hlisted
  refine
    { tree := h.tree.trans htree
      listed := h.listed
      freed_mem := ?_
      reaches := fun g hg => htree.forth.reaches (h.reaches g hg)
      reaches_moved := by simp
      find?_waiting := ?_
      find?_moved := by simp
      find?_freed := ?_
      find?_other := ?_ }
  · exact List.forall_mem_singleton.mpr (hlisted.subset (by simp))
  · intro g hg
    rw [now.find?_erase_of_ne (mt GeneratedFile.path_eq_of_stagingAddress_eq (hpaths g hg))]
    exact h.find?_waiting g hg
  · exact List.forall_mem_singleton.mpr
      (now.find?_erase_self GeneratedFile.stagingAddress_ne_nil)
  · intro a ha hmoved
    rw [now.find?_erase_of_ne (ha f (by simp))]
    exact h.find?_other a (fun g hg => ha g (by simp_all)) hmoved

/-- Removing a file that waits leaves all directories as they are. -/
theorem sameTree_erase (h : Progress files directory base before (f :: waiting) moved freed now) :
    now.SameTree (now.erase (f.stagingAddress base)) :=
  FileSystem.sameTree_erase_file GeneratedFile.stagingAddress_ne_nil
    (by simp [h.find?_waiting f List.mem_cons_self, GeneratedFile.entry])

/-- Removing a file that waits. -/
theorem free (hfiles : PlainFiles files)
    (h : Progress files directory base before (f :: waiting) moved freed now) :
    Progress files directory base before waiting moved (freed ++ [f])
      (now.erase (f.stagingAddress base)) := by
  have htree := h.sameTree_erase
  have hf : f ∈ files := h.listed.subset (by simp)
  obtain ⟨-, hpaths⟩ := path_ne hfiles h.listed
  refine
    { tree := h.tree.trans htree
      listed := ?_
      freed_mem := ?_
      reaches := ?_
      reaches_moved := fun g hg => htree.forth.reaches (h.reaches_moved g hg)
      find?_waiting := ?_
      find?_moved := ?_
      find?_freed := ?_
      find?_other := ?_ }
  · exact ((List.sublist_cons_self f waiting).append_left moved).trans h.listed
  · intro g hg
    rcases List.mem_append.mp hg with hg | hg
    · exact h.freed_mem g hg
    · exact List.mem_singleton.mp hg ▸ hf
  · exact fun g hg => htree.forth.reaches (h.reaches g (List.mem_cons_of_mem _ hg))
  · intro g hg
    rw [now.find?_erase_of_ne (mt GeneratedFile.path_eq_of_stagingAddress_eq (hpaths g hg))]
    exact h.find?_waiting g (List.mem_cons_of_mem _ hg)
  · intro g hg
    have hg' : g ∈ files := h.listed.subset (List.mem_append_left _ hg)
    rw [now.find?_erase_of_ne (hfiles.address_ne_stagingAddress hg' hf)]
    exact h.find?_moved g hg
  · -- nothing says that a name is freed only once
    intro g hg
    by_cases heq : g.stagingAddress base = f.stagingAddress base
    · rw [heq, now.find?_erase_self GeneratedFile.stagingAddress_ne_nil]
    · rw [now.find?_erase_of_ne heq]
      rcases List.mem_append.mp hg with hg | hg
      · exact h.find?_freed g hg
      · exact absurd (congrArg _ (List.mem_singleton.mp hg)) heq
  · intro a ha hmoved
    rw [now.find?_erase_of_ne (ha f (by simp))]
    exact h.find?_other a (fun g hg => ha g (by simp_all [or_comm, or_left_comm])) hmoved

/-- Writing a file at its destination. -/
theorem put (hfiles : PlainFiles files)
    (h : Progress files directory base before waiting moved freed now)
    (hlisted : (moved ++ f :: waiting).Sublist files)
    (hreach : now.Reaches (f.destination directory) base f.path)
    (hfree : now.find? (f.address base) ≠ some .directory) :
    Progress files directory base before waiting (moved ++ [f]) freed
      (now.put (f.address base) f.entry) := by
  have htree : now.SameTree (now.put (f.address base) f.entry) :=
    FileSystem.sameTree_put_file GeneratedFile.address_ne_nil hfree
  have hf : f ∈ files := hlisted.subset (by simp)
  -- a destination is no staging name, so what waits and what is free stays so
  have hstaging : ∀ g ∈ files, g.stagingAddress base ≠ f.address base :=
    fun g hg => (hfiles.address_ne_stagingAddress hf hg).symm
  obtain ⟨hpaths, -⟩ := path_ne hfiles hlisted
  refine
    { tree := h.tree.trans htree
      listed := by rwa [List.append_assoc, List.singleton_append]
      freed_mem := h.freed_mem
      reaches := fun g hg => htree.forth.reaches (h.reaches g hg)
      reaches_moved := ?_
      find?_waiting := ?_
      find?_moved := ?_
      find?_freed := ?_
      find?_other := ?_ }
  · intro g hg
    rcases List.mem_append.mp hg with hg | hg
    · exact htree.forth.reaches (h.reaches_moved g hg)
    · obtain rfl := List.mem_singleton.mp hg
      exact htree.forth.reaches hreach
  · intro g hg
    rw [now.find?_put_of_ne _ (hstaging g (h.listed.subset (List.mem_append_right _ hg)))]
    exact h.find?_waiting g hg
  · intro g hg
    rcases List.mem_append.mp hg with hg | hg
    · rw [now.find?_put_of_ne _ (mt GeneratedFile.path_eq_of_address_eq (hpaths g hg))]
      exact h.find?_moved g hg
    · obtain rfl := List.mem_singleton.mp hg
      exact now.find?_put_self _ GeneratedFile.address_ne_nil
  · intro g hg
    rw [now.find?_put_of_ne _ (hstaging g (h.freed_mem g hg))]
    exact h.find?_freed g hg
  · intro a ha hmoved
    rw [now.find?_put_of_ne _ (hmoved f (by simp))]
    exact h.find?_other a ha fun g hg => hmoved g (List.mem_append_left _ hg)

/-- Moving a file that waits to its destination. -/
theorem move (hfiles : PlainFiles files)
    (h : Progress files directory base before (f :: waiting) moved freed now)
    (hreach : now.Reaches (f.destination directory) base f.path)
    (hfree : now.find? (f.address base) ≠ some .directory) :
    Progress files directory base before waiting (moved ++ [f]) (freed ++ [f])
      ((now.erase (f.stagingAddress base)).put (f.address base) f.entry) := by
  have hf : f ∈ files := h.listed.subset (by simp)
  -- a move is a removal and a write; the removal cannot put a directory in the way
  refine (h.free hfiles).put hfiles h.listed (h.sameTree_erase.forth.reaches hreach) ?_
  rwa [now.find?_erase_of_ne (hfiles.address_ne_stagingAddress hf hf)]

end Progress

end WireSchema
