import WireSchema.Proofs.Accepted
import WireSchema.Proofs.CaseShapes
import WireSchema.Proofs.StagedWrites
import WireSchema.Target

/-!
# The files of targets

The files of a target have plain names that never get into each other's way, since a schema's name
is a word and the names of files end differently: in one letter for each language, and in another
one while they are staged. So files that are written are there afterwards (`holds_of_writeFiles`),
and stay there while the files of another target are written (`Holds.writeFiles`).
-/

namespace WireSchema

open Naming (Wordly wordly_snake)

/-! ## The files of a target -/

/-- The names of the files of a target. -/
def Target.fileNames (s : Schema) : Target → List String
  | .go _ => [GeneratedFile.stem s ++ "_ango.go", GeneratedFile.stem s ++ "_ango_codec.go"]
  | .javaScript _ => [GeneratedFile.stem s ++ ".js"]

/-- The last character of the names of a target's files. -/
def Language.lastChar : Language → Char
  | .go => 'o'
  | .javaScript => 's'

/-- A target has the files that its schema's name gives. -/
theorem paths_of_generate {target : Target} {s : Schema} {files : List GeneratedFile}
    (h : target.generate s = .ok files) :
    files.map GeneratedFile.path = target.fileNames s := by
  cases target with
  | go package =>
    rw [Target.generate, Go.generate] at h
    split at h
    · cases h
    · obtain ⟨_, -, hfiles⟩ := bind_eq_ok_iff.mp h
      cases hfiles
      rfl
  | javaScript bigint =>
    rw [Target.generate, JavaScript.generate] at h
    split at h
    · obtain ⟨_, -, h⟩ := bind_eq_ok_iff.mp h
      obtain ⟨_, -, hfiles⟩ := bind_eq_ok_iff.mp h
      cases hfiles
      rfl
    · obtain ⟨_, -, hfiles⟩ := bind_eq_ok_iff.mp h
      cases hfiles
      rfl

theorem wordly_stem {s : Schema} (h : s.Worded) : Wordly (GeneratedFile.stem s).toList := by
  rw [GeneratedFile.stem]
  split
  · exact List.all_eq_true.mp (by decide)
  · exact wordly_snake h.name

/-- A word with a long enough suffix is a plain name. -/
theorem isPlainName_append {stem suffix : String} (hstem : Wordly stem.toList)
    (hslash : '/' ∉ suffix.toList) (hlength : 2 < suffix.toList.length) :
    IsPlainName (stem ++ suffix) := by
  have hlong : 2 < (stem ++ suffix).toList.length := by
    rw [String.toList_append, List.length_append]
    omega
  refine ⟨?_, ?_, ?_, ?_⟩
  · exact List.ne_nil_of_length_pos (Nat.lt_trans (by decide) hlong)
  · rw [String.toList_append, List.mem_append, not_or]
    exact ⟨fun hmem => absurd (hstem _ hmem) (by decide), hslash⟩
  · rintro heq
    rw [heq] at hlong
    exact absurd hlong (by decide)
  · rintro heq
    rw [heq] at hlong
    exact absurd hlong (by decide)

theorem getLast?_append {stem suffix : String} {c : Char} (h : suffix.toList.getLast? = some c) :
    (stem ++ suffix).toList.getLast? = some c := by
  rw [String.toList_append, List.getLast?_append, h]
  rfl

/-- The last character of a file name tells the language. -/
theorem getLast?_of_mem_fileNames {target : Target} {s : Schema} {name : String}
    (h : name ∈ target.fileNames s) :
    name.toList.getLast? = some target.language.lastChar := by
  cases target with
  | go package =>
    rcases List.mem_cons.mp h with rfl | h
    · exact getLast?_append rfl
    · obtain rfl := List.mem_singleton.mp h
      exact getLast?_append rfl
  | javaScript bigint =>
    obtain rfl := List.mem_singleton.mp h
    exact getLast?_append rfl

theorem getLast?_stagingName (name : String) : (stagingName name).toList.getLast? = some 'p' := by
  rw [stagingName_toList, ← List.cons_append, List.getLast?_append]
  rfl

/-- Files of targets in different languages have different names. -/
theorem apart_of_languages {target target' : Target} {s : Schema}
    (hne : target.language ≠ target'.language) {name name' : String}
    (h : name ∈ target.fileNames s) (h' : name' ∈ target'.fileNames s) : name ≠ name' := by
  rintro rfl
  have hlast := (getLast?_of_mem_fileNames h).symm.trans (getLast?_of_mem_fileNames h')
  cases target <;> cases target' <;> first | exact hne rfl | cases hlast

/-- No file of any target has the staging name of another. -/
theorem ne_stagingName_of_mem {target : Target} {s : Schema} {name : String}
    (h : name ∈ target.fileNames s) (other : String) : name ≠ stagingName other := by
  rintro rfl
  have hlast := (getLast?_of_mem_fileNames h).symm.trans (getLast?_stagingName other)
  cases target <;> cases hlast

/-- File names are plain. -/
theorem plain_of_mem_fileNames {target : Target} {s : Schema} (hs : s.Worded) {name : String}
    (h : name ∈ target.fileNames s) : IsPlainName name := by
  cases target with
  | go package =>
    rcases List.mem_cons.mp h with rfl | h
    · exact isPlainName_append (wordly_stem hs) (by decide) (by decide)
    · obtain rfl := List.mem_singleton.mp h
      exact isPlainName_append (wordly_stem hs) (by decide) (by decide)
  | javaScript bigint =>
    obtain rfl := List.mem_singleton.mp h
    exact isPlainName_append (wordly_stem hs) (by decide) (by decide)

/-- File names are distinct. -/
theorem nodup_fileNames (target : Target) (s : Schema) : (target.fileNames s).Nodup := by
  cases target with
  | go package =>
    refine List.nodup_cons.mpr ⟨fun hmem => ?_, List.nodup_singleton _⟩
    have heq := congrArg String.toList (List.mem_singleton.mp hmem)
    rw [String.toList_append, String.toList_append] at heq
    exact absurd (List.append_cancel_left heq) (by decide)
  | javaScript bigint => exact List.nodup_singleton _

/-- **The files of a target never get into each other's way.** -/
theorem plainFiles_of_generate {target : Target} {s : Schema} (hs : s.Worded)
    {files : List GeneratedFile} (h : target.generate s = .ok files) : PlainFiles files := by
  have hpaths := paths_of_generate h
  have hmem {f : GeneratedFile} (hf : f ∈ files) : f.path ∈ target.fileNames s :=
    hpaths ▸ List.mem_map_of_mem hf
  refine ⟨fun f hf => plain_of_mem_fileNames hs (hmem hf), ?_, fun f hf g _ _ => ?_⟩
  · rw [hpaths]
    exact nodup_fileNames target s
  · exact ne_stagingName_of_mem (hmem hf) g.path

/-! ## Files that are there -/

/-- In the directory that a path leads to, a file has its name and its contents. -/
def Holds (fs : FileSystem) (directory : Path) (f : GeneratedFile) : Prop :=
  ∃ base, fs.Leads directory base ∧ fs.find? (f.address base) = some f.entry

section

variable {verbose : Bool} {directory : Path} {files : List GeneratedFile} {overwrite : Overwrite}
  {w w' : World}

/-- Files that were written are there. -/
theorem holds_of_writeFiles (hfiles : PlainFiles files) {paths : List Path}
    (h : (writeFiles verbose directory files overwrite : StateM World _) w = (.ok paths, w')) :
    ∀ f ∈ files, Holds w'.files directory f := by
  intro f hf
  obtain ⟨result, w'', made, base, staged, moved, hrun, houtcome, -, hbase, hprogress⟩ :=
    @writeFiles_run files directory hfiles verbose overwrite w
  rw [h] at hrun
  obtain ⟨rfl, rfl⟩ := Prod.mk.inj hrun
  cases houtcome with
  | written =>
    exact ⟨base, hprogress.tree.forth.leads (hbase (List.ne_nil_of_mem hf)),
      hprogress.find?_moved f hf⟩

/-- A file stays if no file that is written, and no staging name, has its name. -/
theorem Holds.writeFiles {held : GeneratedFile} {place : Path} (hheld : Holds w.files place held)
    (hfiles : PlainFiles files)
    (hapart : ∀ f ∈ files, held.path ≠ f.path ∧ held.path ≠ stagingName f.path)
    {result : Except RunFailure (List Path)}
    (h : (WireSchema.writeFiles verbose directory files overwrite : StateM World _) w =
      (result, w')) : Holds w'.files place held := by
  obtain ⟨at_, hleads, hfind⟩ := hheld
  obtain ⟨_, _, made, base, staged, moved, hrun, -, hmade, -, hprogress⟩ :=
    @writeFiles_run files directory hfiles verbose overwrite w
  rw [h] at hrun
  obtain ⟨rfl, rfl⟩ := Prod.mk.inj hrun
  have hlast {name : String} (heq : held.address at_ = base ++ [name]) : held.path = name :=
    (List.append_inj' heq rfl).2 |> List.cons.inj |>.1
  refine ⟨at_, hprogress.tree.forth.leads (hmade.grows.leads hleads), ?_⟩
  rw [hprogress.find?_other (held.address at_)
    (fun f hf heq => (hapart f (hprogress.freed_mem f hf)).2 (hlast heq))
    fun f hf heq => (hapart f (hprogress.listed.subset (List.mem_append_left _ hf))).1 (hlast heq)]
  rcases hmade.find? (held.address at_) with hsame | ⟨hnone, -⟩
  · rw [hsame, hfind]
  · rw [hfind] at hnone
    cases hnone

end

end WireSchema
