import WireSchema.Files.Machine
import WireSchema.Files.Tree
import WireSchema.Proofs.Directories

/-!
# Machines without links

On a machine without links every operation does what it does to a plain file system, if it is
granted. So all requests of such a machine can be described by the file systems before and after
them (`Holds`), and what is said of these carries over to runs. Making a directory with its parents
takes nothing away and adds nothing but the directories that the paths above it name
(`createDirectories_run`), whatever is refused on the way.
-/

namespace WireSchema

/-- Running one computation after another. -/
theorem run_bind {σ α β : Type} (x : StateM σ α) (next : α → StateM σ β) (s : σ) :
    (x >>= next) s = next (x s).1 (x s).2 := rfl

/-- No request is refused. -/
def Policy.Granting (policy : Policy) : Prop :=
  ∀ n request, policy n request = .granted

theorem Policy.granting_lenient : Policy.lenient.Granting :=
  fun _ _ => rfl

/-- No removal is refused. -/
def Policy.Removing (policy : Policy) : Prop :=
  ∀ n p, policy n (.removeFile p) = .granted

theorem Policy.Granting.removing {policy : Policy} (h : policy.Granting) : policy.Removing :=
  fun n p => h n (.removeFile p)

namespace Machine

variable {policy : Policy} {m : Machine policy} {fs : FileSystem}

/-- The machine has no links, and these are its files. -/
structure Holds (m : Machine policy) (fs : FileSystem) : Prop where
  files_eq : m.files = fs
  links : m.links = []
  twins : m.twins = []

/-! ## Paths -/

theorem link?_of_nil (h : m.links = []) (directory : Address) (last : FileSystem.Last) :
    m.link? directory last = none := by
  cases last <;> simp [link?, h]

/-- Without links a walk is the way through the directories. -/
theorem walkWith_of_nil (h : m.links = [])
    (next : Address → List (List Char) → Bool → Except FileError FileSystem.Place) (follow : Bool)
    (directory : Address) (slash : Bool) (pieces : List (List Char)) :
    m.walkWith next follow directory slash pieces = m.files.placeFrom directory pieces slash := by
  induction pieces generalizing directory with
  | nil => rfl
  | cons piece pieces ih =>
    rw [walkWith, link?_of_nil h]
    cases pieces with
    | nil => rfl
    | cons piece' pieces =>
      simp only [List.isEmpty_cons, Bool.false_eq_true, if_false, ih]
      simp only [FileSystem.placeFrom, List.getLast?_cons_cons, List.dropLast_cons_cons,
        FileSystem.follow]
      cases m.files.enter directory piece with
      | ok directory => rfl
      | error e =>
        cases hlast : (piece' :: pieces).getLast? with
        | some last => rfl
        | none => simp at hlast

/-- Without links a path leads to its place in the file system, whether or not links would be
followed. -/
theorem Holds.locate (h : m.Holds fs) (follow : Bool) (p : Path) :
    m.locate follow p = fs.locate p := by
  have hwalk : m.walk follow linkLimit = m.files.placeFrom := by
    funext directory pieces slash
    exact walkWith_of_nil h.links _ follow directory slash pieces
  rw [Machine.locate, hwalk, h.files_eq, FileSystem.locate]

/-! ## Operations -/

/-- The machine with other files. -/
def withFiles (m : Machine policy) (files : FileSystem) : Machine policy :=
  { m with files }

theorem Holds.withFiles (h : m.Holds fs) (files : FileSystem) : (m.withFiles files).Holds files :=
  ⟨rfl, h.links, h.twins⟩

theorem Holds.tick (h : m.Holds fs) : m.tick.Holds fs :=
  ⟨h.files_eq, h.links, h.twins⟩

theorem Holds.exists_eq (h : m.Holds fs) :
    ∃ (w : World) (clock : Nat), w.files = fs ∧ m = ⟨w, [], [], clock⟩ := by
  obtain ⟨w, links, twins, clock⟩ := m
  obtain ⟨hfiles, rfl, rfl⟩ := h
  exact ⟨w, clock, hfiles, rfl⟩

/-- A path names what it names in the file system. -/
theorem Holds.lookup (h : m.Holds fs) (p : Path) : m.lookup p = fs.lookup p := by
  rw [Machine.lookup, h.locate, h.files_eq, FileSystem.lookup]

theorem Holds.createDirectory (h : m.Holds fs) (p : Path) :
    m.createDirectory p = (fs.createDirectory p).map m.withFiles := by
  rw [Machine.createDirectory, h.locate, FileSystem.createDirectory]
  obtain ⟨w, clock, rfl, rfl⟩ := h.exists_eq
  cases w.files.locate p with
  | error e => rfl
  | ok place =>
    simp only [bind, Except.bind, linkAt?, link?_of_nil h.links]
    cases w.files.createDirectoryAt place <;> rfl

/-- A file is written under one name. -/
theorem Holds.writeFile (h : m.Holds fs) (p : Path) (contents : ByteArray) :
    m.writeFile p contents = (fs.writeFile p contents).map m.withFiles := by
  rw [Machine.writeFile, h.locate, FileSystem.writeFile]
  obtain ⟨w, clock, rfl, rfl⟩ := h.exists_eq
  cases w.files.locate p with
  | error e => rfl
  | ok place =>
    simp only [bind, Except.bind]
    cases w.files.writeFileAt place contents <;> rfl

/-- A file is removed, since there is no link to remove in its place. -/
theorem Holds.removeFile (h : m.Holds fs) (p : Path) :
    m.removeFile p = (fs.removeFile p).map m.withFiles := by
  rw [Machine.removeFile, h.locate, FileSystem.removeFile]
  obtain ⟨w, clock, rfl, rfl⟩ := h.exists_eq
  cases w.files.locate p with
  | error e => rfl
  | ok place =>
    simp only [bind, Except.bind, linkAt?, link?_of_nil h.links]
    cases w.files.removeFileAt place <;> rfl

/-- A file is moved, and takes no other name with it. -/
theorem Holds.rename (h : m.Holds fs) (source target : Path) :
    m.rename source target = (fs.rename source target).map m.withFiles := by
  rw [Machine.rename, h.locate, h.locate, FileSystem.rename]
  obtain ⟨w, clock, rfl, rfl⟩ := h.exists_eq
  cases w.files.locate source with
  | error e => rfl
  | ok source =>
    cases w.files.locate target with
    | error e => rfl
    | ok target =>
      change Machine.renameAt ⟨w, [], [], clock⟩ source target =
        (w.files.renameAt source target).map (Machine.withFiles ⟨w, [], [], clock⟩)
      unfold Machine.renameAt
      simp only [linkAt?, link?_of_nil h.links]
      cases w.files.renameAt source target <;> rfl

/-! ## Requests -/

/-- A request is met, or it fails and changes nothing. If it was granted, the operation failed. -/
theorem Holds.change_cases (h : m.Holds fs)
    {f : Machine policy → Except FileError (Machine policy)} {op : Except FileError FileSystem}
    (hf : f m = op.map m.withFiles) (request : Request) :
    (∃ files m', op = .ok files ∧ change request f m = (.ok (), m') ∧ m'.Holds files) ∨
      ∃ e m', change request f m = (.error e, m') ∧ m'.Holds fs ∧
        (policy m.clock request = .granted → op = .error e) := by
  unfold change
  cases policy m.clock request with
  | granted =>
    simp only [hf]
    cases op with
    | ok files => exact .inl ⟨files, _, rfl, rfl, (h.withFiles files).tick⟩
    | error e => exact .inr ⟨e, _, rfl, h.tick, fun _ => rfl⟩
  | refused e => exact .inr ⟨e, _, rfl, h.tick, nofun⟩
  | cut length e => exact .inr ⟨e, _, rfl, h.tick, nofun⟩

/-- A file is written, or it is not and nothing changes, or a part of it is written. -/
theorem Holds.write_cases (h : m.Holds fs) (p : Path) (contents : ByteArray) :
    (∃ files m', fs.writeFile p contents = .ok files ∧
        (Host.writeFile p contents : StateM (Machine policy) _) m = (.ok (), m') ∧
          m'.Holds files) ∨
      (∃ e m', (Host.writeFile p contents : StateM (Machine policy) _) m = (.error e, m') ∧
        m'.Holds fs ∧ (policy.Granting → fs.writeFile p contents = .error e)) ∨
      ∃ part e files m', fs.writeFile p part = .ok files ∧
        (Host.writeFile p contents : StateM (Machine policy) _) m = (.error e, m') ∧
          m'.Holds files ∧ ¬ policy.Granting := by
  change (∃ files m', _ ∧ write p contents m = _ ∧ _) ∨ (∃ e m', write p contents m = _ ∧ _) ∨
    ∃ part e files m', _ ∧ write p contents m = _ ∧ _
  unfold write
  cases hreply : policy m.clock (.writeFile p) with
  | granted =>
    rw [h.writeFile]
    cases fs.writeFile p contents with
    | ok files => exact .inl ⟨files, _, rfl, rfl, (h.withFiles files).tick⟩
    | error e => exact .inr (.inl ⟨e, _, rfl, h.tick, fun _ => rfl⟩)
  | refused e =>
    refine .inr (.inl ⟨e, _, rfl, h.tick, fun hgranting => ?_⟩)
    rw [hgranting] at hreply
    cases hreply
  | cut length e =>
    -- a part is written like a whole file, if the file can be written at all
    have hcut : ¬ policy.Granting := by
      intro hgranting
      rw [hgranting] at hreply
      cases hreply
    simp only [h.writeFile]
    cases hpart : fs.writeFile p (contents.extract 0 length) with
    | ok files => exact .inr (.inr ⟨_, e, files, _, hpart, rfl, (h.withFiles files).tick, hcut⟩)
    | error e' => exact .inr (.inl ⟨e', _, rfl, h.tick, fun hgranting => absurd hgranting hcut⟩)

/-- A removal that cannot be refused does what the operation does. -/
theorem Holds.remove_cases (h : m.Holds fs) (hremoves : policy.Removing) (p : Path) :
    (∃ files m', fs.removeFile p = .ok files ∧
        (Host.removeFile p : StateM (Machine policy) _) m = (.ok (), m') ∧ m'.Holds files) ∨
      ∃ e m', fs.removeFile p = .error e ∧
        (Host.removeFile p : StateM (Machine policy) _) m = (.error e, m') ∧ m'.Holds fs := by
  rcases h.change_cases (f := (·.removeFile p)) (h.removeFile p) (.removeFile p) with
    hdone | ⟨e, m', hrun, hm', hfailed⟩
  · exact .inl hdone
  · exact .inr ⟨e, m', hfailed (hremoves _ p), hrun, hm'⟩

/-- Looking changes nothing. -/
theorem Holds.look_cases (h : m.Holds fs) {α : Type} (p : Path) (refusal : FileError → α)
    (f : Machine policy → α) :
    ∃ found m', look p refusal f m = (found, m') ∧ m'.Holds fs ∧
      (found = f m ∨ ∃ e, found = refusal e) := by
  unfold look
  cases policy m.clock (.look p) with
  | granted => exact ⟨_, _, rfl, h.tick, .inl rfl⟩
  | refused e => exact ⟨_, _, rfl, h.tick, .inr ⟨e, rfl⟩⟩
  | cut length e => exact ⟨_, _, rfl, h.tick, .inr ⟨e, rfl⟩⟩

/-- What is found to be a directory is one. -/
theorem Holds.isDirectory_run (h : m.Holds fs) (p : Path) :
    ∃ found m', (Host.isDirectory p : StateM (Machine policy) Bool) m = (found, m') ∧
      m'.Holds fs ∧ (found = true → fs.isDirectory p = true) := by
  obtain ⟨found, m', hrun, hm', hfound⟩ := h.look_cases p (fun _ => false) fun m =>
    (m.lookup p).toOption.any Entry.isDirectory
  refine ⟨found, m', hrun, hm', ?_⟩
  rintro rfl
  rcases hfound with hfound | ⟨e, hfound⟩
  · rw [h.lookup] at hfound
    unfold FileSystem.isDirectory
    cases hlookup : fs.lookup p with
    | error e =>
      rw [hlookup] at hfound
      cases hfound
    | ok entry =>
      rw [hlookup] at hfound
      cases entry with
      | directory => rfl
      | file contents => cases hfound
  · cases hfound

/-! ## Directories with their parents -/

/-- A directory is made, or nothing changes. -/
theorem Holds.createDirectory_cases (h : m.Holds fs) (p : Path) :
    (∃ files m', fs.createDirectory p = .ok files ∧
        (Host.createDirectory p : StateM (Machine policy) _) m = (.ok (), m') ∧ m'.Holds files) ∨
      ∃ e m', (Host.createDirectory p : StateM (Machine policy) _) m = (.error e, m') ∧
        m'.Holds fs := by
  rcases h.change_cases (f := (·.createDirectory p)) (h.createDirectory p)
    (.createDirectory p) with
    hdone | ⟨e, m', hrun, hm', -⟩
  · exact .inl hdone
  · exact .inr ⟨e, m', hrun, hm'⟩

/-- A directory that could not be made is accepted only if it is there. -/
theorem Holds.acceptDirectory_run (h : m.Holds fs) (p : Path) (result : Except FileError Unit) :
    ∃ result' m', (acceptDirectory p result : StateM (Machine policy) _) m = (result', m') ∧
      m'.Holds fs ∧ (result' = .ok () → result = .ok () ∨ fs.isDirectory p = true) := by
  cases result with
  | ok u => exact ⟨_, m, rfl, h, fun _ => .inl rfl⟩
  | error e =>
    obtain ⟨found, m', hrun, hm', hfound⟩ := h.isDirectory_run p
    rw [acceptDirectory, run_bind, hrun]
    cases found with
    | true => exact ⟨_, m', rfl, hm', fun _ => .inr (hfound rfl)⟩
    | false => exact ⟨_, m', rfl, hm', nofun⟩

/-- One attempt at a directory. -/
theorem Holds.attempt_run (h : m.Holds fs) (p : Path) :
    ∃ result fs' m', (Host.createDirectory p >>= acceptDirectory p :
        StateM (Machine policy) _) m = (result, m') ∧ m'.Holds fs' ∧
      FileSystem.MakesDirectories [p] fs fs' ∧ (result = .ok () → fs'.HasDirectory p) := by
  rw [run_bind]
  rcases h.createDirectory_cases p with ⟨files, m₁, hfiles, hrun, hm₁⟩ | ⟨e, m₁, hrun, hm₁⟩
  · rw [hrun]
    obtain ⟨hmade, hdirectory⟩ := FileSystem.makesDirectories_of_createDirectory hfiles
    exact ⟨_, files, m₁, rfl, hm₁, hmade, fun _ => .inr hdirectory⟩
  · rw [hrun]
    obtain ⟨result, m', haccept, hm', hok⟩ := hm₁.acceptDirectory_run p (.error e)
    refine ⟨result, fs, m', haccept, hm', .refl _ _, fun hresult => ?_⟩
    rcases hok hresult with hfalse | hdirectory
    · cases hfalse
    · exact .inr hdirectory

/-- **What making a chain of directories does**, whether or not it comes to an end: nothing but
directories that the chain names are new. If it succeeds, the first path of the chain names a
directory. -/
theorem Holds.createChain_run (h : m.Holds fs) (chain : List Path) :
    ∃ result fs' m', (createChain chain : StateM (Machine policy) _) m = (result, m') ∧
      m'.Holds fs' ∧ FileSystem.MakesDirectories chain fs fs' ∧
        (result = .ok () → ∀ p ∈ chain.head?, fs'.HasDirectory p) := by
  induction chain generalizing m fs with
  | nil => exact ⟨_, fs, m, rfl, h, .refl _ _, fun _ p hp => by cases hp⟩
  | cons p above ih =>
    have hfirst : ∀ q ∈ [p], q ∈ p :: above := by simp
    have hrest : ∀ q ∈ above, q ∈ p :: above := fun q hq => List.mem_cons_of_mem _ hq
    rw [createChain]
    by_cases hempty : p.text.isEmpty = true
    · rw [if_pos hempty]
      refine ⟨_, fs, m, rfl, h, .refl _ _, fun _ q hq => ?_⟩
      obtain rfl := Option.some.inj hq
      exact .inl hempty
    rw [if_neg hempty, run_bind]
    by_cases hmissing :
        ((Host.createDirectory p : StateM (Machine policy) _) m).1 = .error .notFound
    · -- the directory above is made first
      obtain ⟨m₁, hrun, hm₁⟩ : ∃ m₁, (Host.createDirectory p : StateM (Machine policy) _) m =
          (.error .notFound, m₁) ∧ m₁.Holds fs := by
        rcases h.createDirectory_cases p with ⟨files, m₁, -, hrun, -⟩ | ⟨e, m₁, hrun, hm₁⟩
        · rw [hrun] at hmissing
          cases hmissing
        · rw [hrun] at hmissing
          cases hmissing
          exact ⟨m₁, hrun, hm₁⟩
      rw [hrun]
      simp only [run_bind]
      obtain ⟨made, fs₂, m₂, habove, hm₂, hmade, -⟩ := ih hm₁
      rw [habove]
      cases made with
      | error e => exact ⟨_, fs₂, m₂, rfl, hm₂, hmade.mono hrest, nofun⟩
      | ok u =>
        obtain ⟨result, fs₃, m₃, hattempt, hm₃, hmade', hthere⟩ := hm₂.attempt_run p
        refine ⟨result, fs₃, m₃, hattempt, hm₃, (hmade.mono hrest).trans (hmade'.mono hfirst), ?_⟩
        exact fun hresult q hq => Option.some.inj hq ▸ hthere hresult
    · -- with any other answer the first attempt is the only one
      obtain ⟨result, fs', m', hattempt, hm', hmade, hthere⟩ := h.attempt_run p
      rw [run_bind] at hattempt
      refine ⟨result, fs', m', ?_, hm', hmade.mono hfirst,
        fun hresult q hq => Option.some.inj hq ▸ hthere hresult⟩
      rw [← hattempt]
      cases hresult : ((Host.createDirectory p : StateM (Machine policy) _) m).1 with
      | ok u => rfl
      | error e =>
        rw [hresult] at hmissing
        cases e with
        | notFound => exact absurd rfl hmissing
        | _ => rfl

/-- **Making a directory with its parents.** -/
theorem Holds.createDirectories_run (h : m.Holds fs) (p : Path) :
    ∃ result fs' m', (createDirectories p : StateM (Machine policy) _) m = (result, m') ∧
      m'.Holds fs' ∧ FileSystem.MakesDirectories p.ancestors fs fs' ∧
        (result = .ok () → fs'.HasDirectory p) := by
  obtain ⟨result, fs', m', hrun, hm', hmade, hthere⟩ := h.createChain_run p.ancestors
  refine ⟨result, fs', m', hrun, hm', hmade, fun hresult => hthere hresult p ?_⟩
  unfold Path.ancestors
  simp only
  split <;> rfl

end Machine

end WireSchema
