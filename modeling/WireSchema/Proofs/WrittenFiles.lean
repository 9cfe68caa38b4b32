import WireSchema.Proofs.Ancestors
import WireSchema.Proofs.StagedWrites

/-!
# What a run reports is what it did

A run of `writeFiles` that succeeds reports the paths of its files, and what these paths name
afterwards are the files. The directory and all directories above it are there, nothing is left
under a staging name, and everything else is as it was. A run that fails leaves nothing that it
staged, not even the part of a file that was written before a write broke off.

This is so on machines without links that refuse no removal, whatever else they refuse. Elsewhere it
is not: a staging name can be a link to another file, and a staged file that cannot be removed stays
(`writeFiles_reaches_elsewhere`).

Paths are spelled in many ways, so "everything else" is said of addresses (`Unchanged`), and of
paths as far as they named something before.
-/

namespace WireSchema

namespace FileSystem

variable {fs fs' : FileSystem} {p : Path} {base : Address} {name : String} {contents : ByteArray}

/-! ## What paths name -/

theorem readFile_of_reaches (hp : fs.Reaches p base name)
    (hfile : fs.find? (base ++ [name]) = some (.file contents)) :
    fs.readFile p = .ok contents := by
  simp [readFile, lookup, lookupAt, hp.1, child?, hp.2, hfile, bind, Except.bind]

theorem isPresent_of_find?_none (hp : fs.PointsTo p base name)
    (hnone : fs.find? (base ++ [name]) = none) : fs.isPresent p = false := by
  unfold isPresent lookup
  cases hlocate : fs.locate p with
  | error e => rfl
  | ok place =>
    obtain rfl := hp place hlocate
    by_cases hlong : nameLimit < name.utf8ByteSize
    · simp [lookupAt, child?, hlong, bind, Except.bind, Except.isOk, Except.toBool]
    · simp [lookupAt, child?, hlong, hnone, bind, Except.bind, Except.isOk, Except.toBool]

/-- What a path names is the entry at its address, if its last part is a name. -/
theorem find?_of_lookup {entry : Entry} {d : Address} {slash : Bool}
    (hlocate : fs.locate p = .ok ⟨d, .name name, slash⟩) (h : fs.lookup p = .ok entry) :
    fs.find? (d ++ [name]) = some entry := by
  by_cases hlong : nameLimit < name.utf8ByteSize
  · simp [lookup, lookupAt, hlocate, child?, hlong, bind, Except.bind] at h
  · cases hfind : fs.find? (d ++ [name]) with
    | none => simp [lookup, lookupAt, hlocate, child?, hlong, hfind, bind, Except.bind] at h
    | some found =>
      cases found with
      | directory =>
        simpa [lookup, lookupAt, hlocate, child?, hlong, hfind, bind, Except.bind] using h
      | file contents =>
        cases slash with
        | false =>
          simpa [lookup, lookupAt, hlocate, child?, hlong, hfind, bind, Except.bind] using h
        | true => simp [lookup, lookupAt, hlocate, child?, hlong, hfind, bind, Except.bind] at h

/-- A path names what it named as long as no directory goes away and its own entry stays. -/
theorem Grows.lookup (h : Grows fs fs') {entry : Entry} (hp : fs.lookup p = .ok entry)
    (hkept : ∀ a, fs'.addressOf? p = some a → fs.find? a = some entry →
      fs'.find? a = some entry) : fs'.lookup p = .ok entry := by
  cases hlocate : fs.locate p with
  | error e => simp [FileSystem.lookup, hlocate, bind, Except.bind] at hp
  | ok place =>
    obtain ⟨d, last, slash⟩ := place
    have hlocate' := h.locate hlocate
    cases last with
    | here =>
      rw [FileSystem.lookup, hlocate] at hp
      rw [FileSystem.lookup, hlocate']
      exact hp
    | above =>
      rw [FileSystem.lookup, hlocate] at hp
      rw [FileSystem.lookup, hlocate']
      exact hp
    | name name =>
      have hfind := find?_of_lookup hlocate hp
      have haddress : fs'.addressOf? p = some (d ++ [name]) := by
        rw [FileSystem.addressOf?, hlocate']
      have hfind' := hkept _ haddress hfind
      rw [FileSystem.lookup, hlocate] at hp
      rw [FileSystem.lookup, hlocate']
      simp only [bind, Except.bind, lookupAt, child?, hfind] at hp
      simp only [bind, Except.bind, lookupAt, child?, hfind']
      exact hp

theorem Grows.hasDirectory (h : Grows fs fs') (hp : fs.HasDirectory p) : fs'.HasDirectory p := by
  refine hp.imp_right fun hdirectory => ?_
  unfold isDirectory at hdirectory
  split at hdirectory
  · rename_i hlookup
    rw [isDirectory, h.lookup hlookup fun _ _ => h.directory]
  · cases hdirectory

end FileSystem

/-! ## Whole runs -/

section

variable {files : List GeneratedFile} {directory : Path} {base : Address}
  {fs made now : FileSystem} {moved freed : List GeneratedFile}

theorem Progress.readFile_moved (h : Progress files directory base made [] moved freed now) :
    ∀ f ∈ moved, now.readFile (f.destination directory) = .ok f.contents.toUTF8 :=
  fun f hf => FileSystem.readFile_of_reaches (h.reaches_moved f hf) (h.find?_moved f hf)

theorem Progress.isPresent_freed (hfiles : PlainFiles files)
    (h : Progress files directory base made [] moved freed now)
    (hbase : now.Leads directory base) :
    ∀ f ∈ freed, now.isPresent (f.destination directory).staging = false :=
  fun f hf => FileSystem.isPresent_of_find?_none
    (pointsTo_staging (hfiles.plain f (h.freed_mem f hf)) hbase) (h.find?_freed f hf)

/-- What a path named it names still, unless a run used its address. -/
theorem Unchanged.lookup {used : Address → Prop} (h : Unchanged directory fs now used)
    (hgrows : fs.Grows now) {p : Path} {entry : Entry} (hp : fs.lookup p = .ok entry)
    (hfree : ∀ a, now.addressOf? p = some a → ¬ used a) : now.lookup p = .ok entry := by
  refine hgrows.lookup hp fun a ha hfound => ?_
  rcases h a (hfree a ha) with hsame | ⟨hnone, -⟩
  · rw [hsame, hfound]
  · rw [hfound] at hnone
    cases hnone

/-- **A run does what it reports.** If it succeeds, it reports the paths of the files below the
directory, in their order, and each of them is a file with just the contents; no staging name is
taken; the directory and all above it are there; and all else is as it was. If it fails, nothing is
left of what it staged, in whole or in part, and all but the files that it moved is as it was. -/
theorem writeFiles_does_what_it_reports {policy : Policy} (hremoves : policy.Removing)
    (hfiles : PlainFiles files) (verbose : Bool) (overwrite : Overwrite) {m m' : Machine policy}
    (hlinks : m.links = []) (htwins : m.twins = []) {result : Except RunFailure (List Path)}
    (h : (writeFiles verbose directory files overwrite : StateM (Machine policy) _) m =
      (result, m')) :
    m'.links = [] ∧ m'.twins = [] ∧ m'.files.workingDirectory = m.files.workingDirectory ∧
    (∀ paths, result = .ok paths →
      paths = files.map (fun f => directory.join ⟨f.path⟩) ∧
      (∀ f ∈ files, m'.files.readFile (directory.join ⟨f.path⟩) = .ok f.contents.toUTF8) ∧
      (∀ f ∈ files, m'.files.isPresent (directory.join ⟨f.path⟩).staging = false) ∧
      (∀ p ∈ directory.ancestors, m'.files.HasDirectory p) ∧
      ∃ base, m'.files.Leads directory base ∧
        Unchanged directory m.files m'.files (fun a =>
          (∃ f ∈ files, a = f.address base) ∨ ∃ f ∈ files, a = f.stagingAddress base) ∧
        ∀ p entry, m.files.lookup p = .ok entry →
          (∀ f ∈ files, m'.files.addressOf? p ≠ some (f.address base) ∧
            m'.files.addressOf? p ≠ some (f.stagingAddress base)) →
          m'.files.lookup p = .ok entry) ∧
    ∀ e, result = .error e →
      ∃ base staged moved freed, Outcome directory files (.error e) staged moved ∧
        Machine.Freed policy files staged freed ∧
        (freed ≠ [] → m'.files.Leads directory base) ∧
        (∀ f ∈ freed, m'.files.isPresent (directory.join ⟨f.path⟩).staging = false) ∧
        Unchanged directory m.files m'.files fun a =>
          (∃ f ∈ moved, a = f.address base) ∨ ∃ f ∈ freed, a = f.stagingAddress base := by
  obtain ⟨_, now, _, made, base, staged, moved, freed, hrun, hm', houtcome, hfreed, hmade, hready,
    hprogress⟩ := (Machine.Holds.mk rfl hlinks htwins).writeFiles_outcome hremoves hfiles directory
      verbose overwrite
  rw [h] at hrun
  obtain ⟨rfl, rfl⟩ := Prod.mk.inj hrun
  obtain ⟨rfl, hlinks', htwins'⟩ := hm'
  have hunchanged := hprogress.unchanged hmade
  have hgrows := hmade.grows.trans hprogress.tree.forth
  refine ⟨hlinks', htwins', hgrows.workingDirectory, ?_, ?_⟩
  · -- a run that succeeds has staged and moved all files
    rintro paths rfl
    obtain ⟨hbase, hthere⟩ := hready (.inr rfl)
    have hbase' := hprogress.tree.forth.leads hbase
    cases houtcome
    obtain rfl : freed = files := hfreed.eq_of_all
    refine ⟨rfl, hprogress.readFile_moved, hprogress.isPresent_freed hfiles hbase',
      ?_, base, hbase', hunchanged, fun p entry hp hfree => hunchanged.lookup hgrows hp ?_⟩
    · exact (hprogress.tree.forth.hasDirectory hthere).ancestors
    · rintro a ha (⟨f, hf, rfl⟩ | ⟨f, hf, rfl⟩)
      · exact (hfree f hf).1 ha
      · exact (hfree f hf).2 ha
  · rintro e rfl
    have hbase (hne : freed ≠ []) : m'.files.Leads directory base :=
      hprogress.tree.forth.leads (hready (.inl hne)).1
    refine ⟨base, staged, moved, freed, houtcome, hfreed, hbase, fun f hf => ?_, hunchanged⟩
    exact hprogress.isPresent_freed hfiles (hbase (List.ne_nil_of_mem hf)) f hf

end

/-! ## Machines on which it is so, and others -/

/-- A directory in which a destination and a staging name are taken. -/
def crowdedFiles : FileSystem :=
  { entries := [(["out"], .directory), (["out", "a.go"], .file "old".toUTF8),
      (["out", ".a.go.tmp"], .file "left".toUTF8), (["out", "notes.txt"], .file "notes".toUTF8)]
    workingDirectory := [] }

def crowdedMachine (policy : Policy) : Machine policy :=
  { files := crowdedFiles, input := [], output := "", errors := [], links := [], twins := [],
    clock := 0 }

/-- The run of `blockedFiles` into a directory. -/
def writeBlocked {policy : Policy} (directory : Path) (m : Machine policy) :
    Except RunFailure (List Path) × Machine policy :=
  (writeFiles false directory blockedFiles .force : StateM (Machine policy) _) m

def noSpace : FileError :=
  .other "No space left on device (os error 28)"

/-- The device is full after the first byte of a file. -/
def fullAt (p : Path) : Policy
  | _, .writeFile q => if q = p then .cut 1 noSpace else .granted
  | _, _ => .granted

/-- A run that succeeds through a directory that was missing, and one in which the second write
breaks off. The part that it wrote is gone, and so is what the first write left. -/
theorem crowdedMachine_written :
    ∃ m' m'', writeBlocked ⟨"/out/new/.."⟩ (crowdedMachine .lenient) =
        (.ok [⟨"/out/new/../a.go"⟩, ⟨"/out/new/../b.go"⟩], m') ∧
      (∀ f ∈ blockedFiles, m'.files.readFile (Path.join ⟨"/out/new/.."⟩ ⟨f.path⟩) =
        .ok f.contents.toUTF8) ∧
      (∀ f ∈ blockedFiles,
        m'.files.isPresent (Path.join ⟨"/out/new/.."⟩ ⟨f.path⟩).staging = false) ∧
      m'.files.HasDirectory ⟨"/out/new"⟩ ∧
      writeBlocked ⟨"/out"⟩ (crowdedMachine (fullAt ⟨"/out/.b.go.tmp"⟩)) =
        (.error (.writing ⟨"/out/.b.go.tmp"⟩ noSpace), m'') ∧
      (∃ staged moved freed,
        Outcome ⟨"/out"⟩ blockedFiles (.error (.writing ⟨"/out/.b.go.tmp"⟩ noSpace)) staged moved ∧
          Machine.Freed (fullAt ⟨"/out/.b.go.tmp"⟩) blockedFiles staged freed ∧
            ∀ f ∈ freed, m''.files.isPresent (Path.join ⟨"/out"⟩ ⟨f.path⟩).staging = false) ∧
      m''.files.entries.map Prod.fst = [["out"], ["out", "a.go"], ["out", "notes.txt"]] ∧
      m''.files.find? ["out", "a.go"] = some (.file "old".toUTF8) := by
  have hresult : (writeBlocked ⟨"/out/new/.."⟩ (crowdedMachine .lenient)).1 =
      .ok [⟨"/out/new/../a.go"⟩, ⟨"/out/new/../b.go"⟩] := by
    decide +kernel
  have hbroken : (writeBlocked ⟨"/out"⟩ (crowdedMachine (fullAt ⟨"/out/.b.go.tmp"⟩))).1 =
        .error (.writing ⟨"/out/.b.go.tmp"⟩ noSpace) ∧
      (writeBlocked ⟨"/out"⟩
        (crowdedMachine (fullAt ⟨"/out/.b.go.tmp"⟩))).2.files.entries.map Prod.fst =
          [["out"], ["out", "a.go"], ["out", "notes.txt"]] ∧
      (writeBlocked ⟨"/out"⟩ (crowdedMachine (fullAt ⟨"/out/.b.go.tmp"⟩))).2.files.find?
        ["out", "a.go"] = some (.file "old".toUTF8) := by
    decide +kernel
  have hrun := eq_mk_of_fst_eq hresult
  have hrun' := eq_mk_of_fst_eq hbroken.1
  obtain ⟨-, -, -, hok, -⟩ := writeFiles_does_what_it_reports (fun _ _ => rfl) blockedFiles_plain
    false .force rfl rfl hrun
  obtain ⟨-, -, -, -, herror⟩ := writeFiles_does_what_it_reports (fun _ _ => rfl)
    blockedFiles_plain false .force rfl rfl hrun'
  obtain ⟨-, hread, hgone, hthere, -⟩ := hok _ rfl
  obtain ⟨base, staged, moved, freed, houtcome, hfreed, -, hgone', -⟩ := herror _ rfl
  exact ⟨_, _, hrun, hread, hgone, hthere _ (by decide), hrun',
    ⟨staged, moved, freed, houtcome, hfreed, hgone'⟩, hbroken.2⟩

/-- A staging name is a symbolic link to another file. -/
def linkedMachine : Machine .lenient :=
  { crowdedMachine .lenient with
    files := crowdedFiles.erase ["out", ".a.go.tmp"]
    links := [(["out", ".a.go.tmp"], ⟨"notes.txt"⟩)] }

/-- A staging name is another name of a file. -/
def twinMachine : Machine .lenient :=
  { crowdedMachine .lenient with
    files := crowdedFiles.put ["out", ".a.go.tmp"] (.file "notes".toUTF8)
    twins := [[["out", ".a.go.tmp"], ["out", "notes.txt"]]] }

/-- Files can be written in a directory, but not moved or removed. -/
def locked : Policy
  | _, .rename _ _ | _, .removeFile _ => .refused (.other "Permission denied (os error 13)")
  | _, _ => .granted

/-- **Elsewhere a run does not do what it reports.** If a staging name is a link to a file, or
another name of it, that file is lost in a run that succeeds. If moving and removing is refused, the
run fails and a staged file stays. And a directory can be written so that a path above it names one
that is not above it; it is made all the same. -/
theorem writeFiles_reaches_elsewhere :
    PlainFiles blockedFiles ∧
      ((writeBlocked ⟨"/out"⟩ linkedMachine).1 = .ok [⟨"/out/a.go"⟩, ⟨"/out/b.go"⟩] ∧
        linkedMachine.lookup ⟨"/out/notes.txt"⟩ = .ok (.file "notes".toUTF8) ∧
        (writeBlocked ⟨"/out"⟩ linkedMachine).2.lookup ⟨"/out/notes.txt"⟩ =
          .ok (.file "new".toUTF8)) ∧
      ((writeBlocked ⟨"/out"⟩ twinMachine).1 = .ok [⟨"/out/a.go"⟩, ⟨"/out/b.go"⟩] ∧
        twinMachine.lookup ⟨"/out/notes.txt"⟩ = .ok (.file "notes".toUTF8) ∧
        (writeBlocked ⟨"/out"⟩ twinMachine).2.lookup ⟨"/out/notes.txt"⟩ =
          .ok (.file "new".toUTF8)) ∧
      ((writeBlocked ⟨"/out"⟩ (crowdedMachine locked)).1 =
          .error (.writing ⟨"/out/a.go"⟩ (.other "Permission denied (os error 13)")) ∧
        (crowdedMachine locked).lookup ⟨"/out/.a.go.tmp"⟩ = .ok (.file "left".toUTF8) ∧
        (writeBlocked ⟨"/out"⟩ (crowdedMachine locked)).2.lookup ⟨"/out/.a.go.tmp"⟩ =
          .ok (.file "new".toUTF8)) ∧
      (writeBlocked ⟨"/x/../out"⟩ (crowdedMachine .lenient)).1 =
          .ok [⟨"/x/../out/a.go"⟩, ⟨"/x/../out/b.go"⟩] ∧
        (writeBlocked ⟨"/x/../out"⟩ (crowdedMachine .lenient)).2.files.addressOf?
          ⟨"/x/../out"⟩ = some ["out"] ∧
        crowdedFiles.find? ["x"] = none ∧
        (writeBlocked ⟨"/x/../out"⟩ (crowdedMachine .lenient)).2.files.find? ["x"] =
          some .directory :=
  ⟨blockedFiles_plain, by decide +kernel⟩

end WireSchema
