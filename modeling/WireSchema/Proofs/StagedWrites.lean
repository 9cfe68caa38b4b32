import WireSchema.Proofs.MirroredWorld
import WireSchema.Proofs.StagingProgress

/-!
# Writing files as a unit

What a run of `writeFiles` does to the files of a machine without links, whether or not it succeeds
and whatever is refused, as long as no removal is (`Holds.writeFiles_outcome`). Every question is
asked before anything is written, and every file is staged before any is moved. A failure loses two
things at most: a file that stood under a staging name, and the files in whose place others were
moved before the move that failed.
-/

namespace WireSchema

/-! ## Steps -/

section

variable {σ : Type} [Host (StateM σ)] {s s' : σ} {staged : List Staged} {verbose : Bool}

/-- Removing staged files goes on whether or not a removal fails. -/
theorem discard_cons (first : Staged) (staged : List Staged) (s : σ) :
    (discard (first :: staged) : StateM σ Unit) s =
      (discard staged : StateM σ Unit)
        ((Host.removeFile first.destination.staging : StateM σ (Except FileError Unit)) s).2 := by
  rw [discard, run_bind]

/-- A file that is written under its staging name is staged. -/
theorem stage_of_ok {destination : Path} {contents : String}
    (h : (Host.writeFile destination.staging contents.toUTF8 :
      StateM σ (Except FileError Unit)) s = (.ok (), s')) :
    (stage destination contents : StateM σ _) s =
      (.ok ⟨destination, contents.utf8ByteSize⟩, s') := by
  rw [stage, run_bind, h]
  rfl

/-- If it cannot be written, what stands under the name is removed. -/
theorem stage_of_error {destination : Path} {contents : String} {e : FileError}
    (h : (Host.writeFile destination.staging contents.toUTF8 :
      StateM σ (Except FileError Unit)) s = (.error e, s')) :
    (stage destination contents : StateM σ _) s =
      (.error (.writing destination.staging e),
        ((Host.removeFile destination.staging : StateM σ (Except FileError Unit)) s').2) := by
  rw [stage, run_bind, h]
  rfl

/-- Behind a file that was staged come the others. -/
theorem stageAll_cons_of_ok {destination : Path} {contents : String} {first : Staged}
    (h : (stage destination contents : StateM σ (Except RunFailure Staged)) s = (.ok first, s'))
    (files : List (Path × String)) :
    (stageAll staged ((destination, contents) :: files) : StateM σ _) s =
      (stageAll (staged ++ [first]) files : StateM σ _) s' := by
  rw [stageAll, run_bind, h]

/-- If a file cannot be staged, those before it are removed. -/
theorem stageAll_cons_of_error {destination : Path} {contents : String} {e : RunFailure}
    (h : (stage destination contents : StateM σ (Except RunFailure Staged)) s = (.error e, s'))
    (files : List (Path × String)) :
    (stageAll staged ((destination, contents) :: files) : StateM σ _) s =
      (.error e, ((discard staged : StateM σ Unit) s').2) := by
  rw [stageAll, run_bind, h]
  rfl

/-- Behind a file that was moved come the others. -/
theorem commitAll_cons_of_ok {first : Staged}
    (h : (Host.rename first.destination.staging first.destination :
      StateM σ (Except FileError Unit)) s = (.ok (), s')) :
    (commitAll verbose (first :: staged) : StateM σ _) s =
      (commitAll verbose staged : StateM σ _)
        ((log verbose (writtenRecord first) : StateM σ Unit) s').2 := by
  rw [commitAll, run_bind, h]
  rfl

/-- If a file cannot be moved, it is removed with those behind it. -/
theorem commitAll_cons_of_error {first : Staged} {e : FileError}
    (h : (Host.rename first.destination.staging first.destination :
      StateM σ (Except FileError Unit)) s = (.error e, s')) :
    (commitAll verbose (first :: staged) : StateM σ _) s =
      (.error (.writing first.destination e),
        ((discard (first :: staged) : StateM σ Unit) s').2) := by
  rw [commitAll, run_bind, h]
  rfl

end

section

variable {files : List GeneratedFile} {directory : Path} {base : Address} {before : FileSystem}

/-- The destination of a file is in the directory. -/
theorem pointsTo_destination {fs : FileSystem} {f : GeneratedFile} (hname : IsPlainName f.path)
    (hbase : fs.Leads directory base) :
    fs.PointsTo (f.destination directory) base f.path :=
  fun _ h => FileSystem.locate_join hname hbase h

/-- So is the path under which it is staged. -/
theorem pointsTo_staging {fs : FileSystem} {f : GeneratedFile} (hname : IsPlainName f.path)
    (hbase : fs.Leads directory base) :
    fs.PointsTo (f.destination directory).staging base (stagingName f.path) :=
  fun _ h => FileSystem.locate_staging hname hbase h

namespace Machine

variable {policy : Policy} {m : Machine policy} {fs : FileSystem}

theorem Holds.log (h : m.Holds fs) (verbose : Bool) (r : LogRecord) :
    ((WireSchema.log verbose r : StateM (Machine policy) Unit) m).2.Holds fs := by
  cases verbose
  · exact h
  · exact ⟨h.files_eq, h.links, h.twins⟩

/-- A file that is reached is removed. -/
theorem Holds.remove_of_reaches (h : m.Holds fs) (hremoves : policy.Removing) {p : Path}
    {name : String} {contents : ByteArray} (hreach : fs.Reaches p base name)
    (hfile : fs.find? (base ++ [name]) = some (.file contents)) :
    ∃ m', (Host.removeFile p : StateM (Machine policy) (Except FileError Unit)) m = (.ok (), m') ∧
      m'.Holds (fs.erase (base ++ [name])) := by
  have hdone := FileSystem.removeFile_of_reaches hreach hfile
  rcases h.remove_cases hremoves p with ⟨files, m', hremove, hrun, hm'⟩ | ⟨e, -, hremove, -⟩
  · obtain rfl := Except.ok.inj (hdone.symm.trans hremove)
    exact ⟨m', hrun, hm'⟩
  · cases hdone.symm.trans hremove

/-- What a failed attempt to stage a file leaves: all is as before, or its staging name is free. The
second needs a refusal, or else nothing under the name could have been removed. -/
inductive Unstaged (policy : Policy) (a : Address) (fs : FileSystem) : FileSystem → Prop
  | same : Unstaged policy a fs fs
  | freed (refused : ¬ policy.Granting) (free : fs.find? a ≠ some .directory) :
      Unstaged policy a fs (fs.erase a)

/-- The removal of what was written under a staging name, if anything was. -/
theorem Holds.unstage (h : m.Holds fs) (hremoves : policy.Removing) {f : GeneratedFile}
    (hname : IsPlainName f.path) (hbase : fs.Leads directory base)
    (hgranting : policy.Granting →
      ∃ e, fs.removeFile (f.destination directory).staging = .error e) :
    ∃ fs', ((Host.removeFile (f.destination directory).staging :
        StateM (Machine policy) (Except FileError Unit)) m).2.Holds fs' ∧
      Unstaged policy (f.stagingAddress base) fs fs' := by
  rcases h.remove_cases hremoves (f.destination directory).staging with
    ⟨files, m', hremove, hrun, hm'⟩ | ⟨e, m', -, hrun, hm'⟩
  · rcases FileSystem.removeFile_cases (pointsTo_staging hname hbase) with
      ⟨e, hfail⟩ | ⟨hfree, hdone⟩
    · rw [hfail] at hremove
      cases hremove
    · obtain rfl := Except.ok.inj (hdone.symm.trans hremove)
      refine ⟨_, by rw [hrun]; exact hm', .freed (fun hall => ?_) hfree⟩
      obtain ⟨e, hfail⟩ := hgranting hall
      rw [hfail] at hremove
      cases hremove
  · exact ⟨fs, by rw [hrun]; exact hm', .same⟩

/-- Staging one file: it is there, or the attempt has left nothing. -/
theorem Holds.stage_run (h : m.Holds fs) (hremoves : policy.Removing) {f : GeneratedFile}
    (hname : IsPlainName f.path) (hbase : fs.Leads directory base) :
    (∃ m', fs.Reaches (f.destination directory).staging base (stagingName f.path) ∧
      fs.find? (f.stagingAddress base) ≠ some .directory ∧
      (stage (f.destination directory) f.contents : StateM (Machine policy) _) m =
        (.ok (f.staged directory), m') ∧ m'.Holds (fs.put (f.stagingAddress base) f.entry)) ∨
      ∃ e fs' m', (stage (f.destination directory) f.contents : StateM (Machine policy) _) m =
          (.error (.writing (f.destination directory).staging e), m') ∧
        m'.Holds fs' ∧ Unstaged policy (f.stagingAddress base) fs fs' := by
  have hpoints := pointsTo_staging hname hbase
  rcases h.write_cases (f.destination directory).staging f.contents.toUTF8 with
    ⟨files, m₁, hwrite, hrun, hm₁⟩ | ⟨e, m₁, hrun, hm₁, hwrite⟩ |
      ⟨part, e, files, m₁, hwrite, hrun, hm₁, hrefused⟩
  · obtain ⟨hreach, hfree, rfl⟩ := FileSystem.eq_put_of_writeFile hpoints hwrite
    exact .inl ⟨m₁, hreach, hfree, stage_of_ok hrun, hm₁⟩
  · -- nothing was written; if nothing was refused, nothing can be removed either
    obtain ⟨fs', hm', hleft⟩ := hm₁.unstage hremoves hname hbase fun hall =>
      FileSystem.exists_removeFile_error hpoints (hwrite hall)
    exact .inr ⟨e, fs', _, stage_of_error hrun, hm', hleft⟩
  · -- a part was written, and it is removed
    obtain ⟨hreach, hfree, rfl⟩ := FileSystem.eq_put_of_writeFile hpoints hwrite
    have htree : fs.SameTree (fs.put (base ++ [stagingName f.path]) (.file part)) :=
      FileSystem.sameTree_put_file GeneratedFile.stagingAddress_ne_nil hfree
    obtain ⟨m', hremove, hm'⟩ := hm₁.remove_of_reaches hremoves (htree.forth.reaches hreach)
      (fs.find?_put_self (.file part) GeneratedFile.stagingAddress_ne_nil)
    rw [FileSystem.erase_put] at hm'
    refine .inr ⟨e, _, m', ?_, hm', .freed hrefused hfree⟩
    rw [stage_of_error hrun, hremove]

/-- Removing files that wait leaves none of them. -/
theorem Holds.discard_run (hremoves : policy.Removing) (hfiles : PlainFiles files)
    {waiting moved freed : List GeneratedFile} (h : m.Holds fs)
    (hprogress : Progress files directory base before waiting moved freed fs) :
    ∃ fs', ((discard (waiting.map (GeneratedFile.staged directory)) :
        StateM (Machine policy) Unit) m).2.Holds fs' ∧
      Progress files directory base before [] moved (freed ++ waiting) fs' := by
  induction waiting generalizing freed m fs with
  | nil =>
    rw [List.append_nil]
    exact ⟨fs, h, hprogress⟩
  | cons f waiting ih =>
    obtain ⟨m', hrun, hm'⟩ := h.remove_of_reaches hremoves
      (hprogress.reaches f List.mem_cons_self) (hprogress.find?_waiting f List.mem_cons_self)
    obtain ⟨fs', hdone, hrest⟩ := ih hm' (hprogress.free hfiles)
    rw [List.append_assoc, List.singleton_append] at hrest
    rw [List.map_cons, discard_cons, GeneratedFile.staged_destination, hrun]
    exact ⟨fs', hdone, hrest⟩

/-- The staging names that a run has freed: those of the files that it staged, and that of the file
behind them if writing it broke off. -/
def Freed (policy : Policy) (files staged freed : List GeneratedFile) : Prop :=
  freed = staged ∨
    ¬ policy.Granting ∧ ∃ f rest, files = staged ++ f :: rest ∧ freed = f :: staged

theorem Freed.eq_of_all {freed : List GeneratedFile} (h : Freed policy files files freed) :
    freed = files := by
  rcases h with heq | ⟨-, f, rest, hsplit, -⟩
  · exact heq
  · exact absurd hsplit.symm (by simp)

/-- **Staging files one after the other.** All wait in the end, or one could not be staged and those
before it are removed again. -/
theorem Holds.stageAll_run (hremoves : policy.Removing) (hfiles : PlainFiles files)
    {waiting after : List GeneratedFile} (hsplit : files = waiting ++ after)
    (hbase : before.Leads directory base) (h : m.Holds fs)
    (hprogress : Progress files directory base before waiting [] [] fs) :
    ∃ result fs' m', (stageAll (waiting.map (GeneratedFile.staged directory))
        (after.map fun f => (f.destination directory, f.contents)) :
          StateM (Machine policy) _) m = (result, m') ∧ m'.Holds fs' ∧
      (result = .ok (files.map (GeneratedFile.staged directory)) ∧
          Progress files directory base before files [] [] fs' ∨
        ∃ staged f rest e freed, files = staged ++ f :: rest ∧
          result = .error (.writing (f.destination directory).staging e) ∧
            Freed policy files staged freed ∧
              Progress files directory base before [] [] freed fs') := by
  induction after generalizing waiting m fs with
  | nil =>
    rw [List.append_nil] at hsplit
    subst hsplit
    exact ⟨_, fs, m, rfl, h, .inl ⟨rfl, hprogress⟩⟩
  | cons f after ih =>
    have hf : f ∈ files := by simp [hsplit]
    have hsplit' : files = (waiting ++ [f]) ++ after := by simp [hsplit]
    have hlisted : (waiting ++ [f]).Sublist files := hsplit' ▸ List.sublist_append_left _ _
    rcases h.stage_run hremoves (hfiles.plain f hf) (hprogress.tree.forth.leads hbase) with
      ⟨m₁, hreach, hfree, hstage, hm₁⟩ | ⟨e, fs₁, m₁, hstage, hm₁, hleft⟩
    · obtain ⟨result, fs', m', hrun, hm', hresult⟩ := ih hsplit' hm₁
        (hprogress.stage hfiles hlisted hreach hfree)
      refine ⟨result, fs', m', ?_, hm', hresult⟩
      rw [List.map_cons, stageAll_cons_of_ok hstage, ← hrun, List.map_append]
      rfl
    · -- the name of the file that failed is free already if a part of it was written
      obtain ⟨freed, hfreed, hprogress₁⟩ : ∃ freed, Freed policy files waiting (freed ++ waiting) ∧
          Progress files directory base before waiting [] freed fs₁ := by
        cases hleft with
        | same => exact ⟨[], .inl rfl, hprogress⟩
        | freed hrefused hfree =>
          exact ⟨[f], .inr ⟨hrefused, f, after, hsplit, rfl⟩, hprogress.drop hfiles hlisted hfree⟩
      obtain ⟨fs', hm', hdone⟩ := hm₁.discard_run hremoves hfiles hprogress₁
      exact ⟨_, fs', _, stageAll_cons_of_error hstage _, hm', .inr ⟨waiting, f, after, e, _, hsplit,
        rfl, hfreed, hdone⟩⟩

/-- **Moving files one after the other.** All are moved, or one could not be moved and it and those
behind it are removed. -/
theorem Holds.commitAll_run (hremoves : policy.Removing) (hfiles : PlainFiles files)
    {waiting moved freed : List GeneratedFile} (hbase : before.Leads directory base)
    (verbose : Bool) (h : m.Holds fs)
    (hprogress : Progress files directory base before waiting moved freed fs) :
    ∃ result fs' m', (commitAll verbose (waiting.map (GeneratedFile.staged directory)) :
        StateM (Machine policy) _) m = (result, m') ∧ m'.Holds fs' ∧
      (result = .ok () ∧
          Progress files directory base before [] (moved ++ waiting) (freed ++ waiting) fs' ∨
        ∃ done f rest e, waiting = done ++ f :: rest ∧
          result = .error (.writing (f.destination directory) e) ∧
            Progress files directory base before [] (moved ++ done) (freed ++ waiting) fs') := by
  induction waiting generalizing moved freed m fs with
  | nil =>
    refine ⟨_, fs, m, rfl, h, .inl ⟨rfl, ?_⟩⟩
    rwa [List.append_nil, List.append_nil]
  | cons f waiting ih =>
    have hf : f ∈ files := hprogress.listed.subset (by simp)
    rcases h.change_cases (f := (·.rename (f.destination directory).staging
        (f.destination directory))) (h.rename _ _) (.rename _ _) with
      ⟨files', m₁, hrename, hrun, hm₁⟩ | ⟨e, m₁, hrun, hm₁, -⟩
    · rcases FileSystem.rename_cases (hprogress.reaches f List.mem_cons_self)
          (hprogress.find?_waiting f List.mem_cons_self)
          (pointsTo_destination (hfiles.plain f hf) (hprogress.tree.forth.leads hbase)) with
        ⟨e, hfail⟩ | ⟨hreach, hfree, hdone⟩
      · rw [hfail] at hrename
        cases hrename
      · obtain rfl := Except.ok.inj (hdone.symm.trans hrename)
        obtain ⟨result, fs', m', hrun', hm', hresult⟩ :=
          ih (hm₁.log verbose (writtenRecord (f.staged directory)))
            (hprogress.move hfiles hreach hfree)
        refine ⟨result, fs', m', (commitAll_cons_of_ok hrun).trans hrun', hm', ?_⟩
        rw [List.append_assoc, List.append_assoc, List.singleton_append] at hresult
        refine hresult.imp_right ?_
        rintro ⟨done, g, rest, e, rfl, hresult, hprogress⟩
        refine ⟨f :: done, g, rest, e, rfl, hresult, ?_⟩
        rwa [List.append_assoc, List.singleton_append] at hprogress
    · -- the file still waits, so it is removed with those behind it
      obtain ⟨fs', hm', hdone⟩ := hm₁.discard_run hremoves hfiles hprogress
      refine ⟨_, fs', _, commitAll_cons_of_error hrun, hm', .inr ⟨[], f, waiting, e, rfl, rfl, ?_⟩⟩
      rwa [List.append_nil]

/-- Asking changes no file. It fails only where the input cannot be read or an answer is no. -/
theorem Holds.confirmAll_run (h : m.Holds fs) (paths : List Path) :
    ∃ result m', (confirmAll paths : StateM (Machine policy) _) m = (result, m') ∧ m'.Holds fs ∧
      (result = .ok () ∨ (∃ e, result = .error (.reading inputPath e)) ∨
        ∃ p ∈ paths, result = .error (.declined p)) := by
  induction paths generalizing m with
  | nil => exact ⟨_, m, rfl, h, .inl rfl⟩
  | cons p paths ih =>
    have hlater {m : Machine policy} (h : m.Holds fs) : ∃ result m',
        (confirmAll paths : StateM (Machine policy) _) m = (result, m') ∧ m'.Holds fs ∧
          (result = .ok () ∨ (∃ e, result = .error (.reading inputPath e)) ∨
            ∃ q ∈ p :: paths, result = .error (.declined q)) := by
      obtain ⟨result, m', hrun, hm', hresult⟩ := ih h
      refine ⟨result, m', hrun, hm', hresult.imp_right (Or.imp_right ?_)⟩
      rintro ⟨q, hq, hdeclined⟩
      exact ⟨q, List.mem_cons_of_mem _ hq, hdeclined⟩
    obtain ⟨found, m₁, hlook, hm₁, -⟩ :=
      h.look_cases p (fun _ => false) fun m => (m.lookup p).isOk
    have hlook : (Host.isPresent p : StateM (Machine policy) Bool) m = (found, m₁) := hlook
    rw [confirmAll, run_bind, hlook]
    cases found with
    | false => exact hlater hm₁
    | true =>
      have hm₂ : ((confirm p : StateM (Machine policy) _) m₁).2.Holds fs :=
        ⟨hm₁.files_eq, hm₁.links, hm₁.twins⟩
      simp only [if_true, run_bind]
      match ((confirm p : StateM (Machine policy) _) m₁).1 with
      | .error e => exact ⟨_, _, rfl, hm₂, .inr (.inl ⟨e, rfl⟩)⟩
      | .ok false => exact ⟨_, _, rfl, hm₂, .inr (.inr ⟨p, List.mem_cons_self, rfl⟩)⟩
      | .ok true => exact hlater hm₂

/-- The questions of a run. -/
theorem Holds.asking_run (h : m.Holds fs) (overwrite : Overwrite) (paths : List Path) :
    ∃ result m', ((if overwrite = .ask then confirmAll paths else pure (.ok ())) :
        StateM (Machine policy) (Except RunFailure Unit)) m = (result, m') ∧ m'.Holds fs ∧
      (result = .ok () ∨ (∃ e, result = .error (.reading inputPath e)) ∨
        ∃ p ∈ paths, result = .error (.declined p)) := by
  split
  · exact h.confirmAll_run paths
  · exact ⟨_, m, rfl, h, .inl rfl⟩

end Machine

end

/-! ## Whole runs -/

/-- **How a run ends**: its result, the files that were staged and those that were moved. -/
inductive Outcome (directory : Path) (files : List GeneratedFile) :
    Except RunFailure (List Path) → List GeneratedFile → List GeneratedFile → Prop where
  /-- an answer could not be read -/
  | unread (e : FileError) : Outcome directory files (.error (.reading inputPath e)) [] []
  /-- a file may not be replaced -/
  | declined {f : GeneratedFile} : f ∈ files →
      Outcome directory files (.error (.declined (f.destination directory))) [] []
  /-- the directory could not be made -/
  | noDirectory (e : FileError) : Outcome directory files (.error (.writing directory e)) [] []
  /-- a file could not be staged -/
  | notStaged {staged rest : List GeneratedFile} {f : GeneratedFile} (e : FileError) :
      files = staged ++ f :: rest →
        Outcome directory files (.error (.writing (f.destination directory).staging e)) staged []
  /-- all files were staged, but one could not be moved -/
  | notMoved {moved rest : List GeneratedFile} {f : GeneratedFile} (e : FileError) :
      files = moved ++ f :: rest →
        Outcome directory files (.error (.writing (f.destination directory) e)) files moved
  | written : Outcome directory files (.ok (files.map (·.destination directory))) files files

section

variable {files : List GeneratedFile} {directory : Path}

/-- **What a run does to the files.** First it makes directories. Then, from there, it has freed the
staging names of the files that it staged or tried to, and has written the files that it moved, and
nothing else. A run that succeeds has the directory in any case. -/
theorem Machine.Holds.writeFiles_outcome {policy : Policy} {m : Machine policy} {fs : FileSystem}
    (h : m.Holds fs) (hremoves : policy.Removing) (hfiles : PlainFiles files) (directory : Path)
    (verbose : Bool) (overwrite : Overwrite) :
    ∃ result fs' m' made base staged moved freed,
      (writeFiles verbose directory files overwrite : StateM (Machine policy) _) m =
          (result, m') ∧ m'.Holds fs' ∧
        Outcome directory files result staged moved ∧ Machine.Freed policy files staged freed ∧
          FileSystem.MakesDirectories directory.ancestors fs made ∧
            (freed ≠ [] ∨ result.isOk = true →
              made.Leads directory base ∧ made.HasDirectory directory) ∧
              Progress files directory base made [] moved freed fs' := by
  have hpaths : (files.map fun f => directory.join ⟨f.path⟩) =
      files.map (GeneratedFile.destination directory) := rfl
  have hzip : (files.map (GeneratedFile.destination directory)).zip
      (files.map GeneratedFile.contents) =
        files.map fun f => (f.destination directory, f.contents) := List.zip_map' ..
  have hunready (e : RunFailure) : ¬ (([] : List GeneratedFile) ≠ [] ∨
      (Except.error e : Except RunFailure (List Path)).isOk = true) := by
    rintro (h | h)
    · exact h rfl
    · cases h
  rw [writeFiles]
  simp only [hpaths, hzip]
  rw [run_bind]
  obtain ⟨asked, m₁, hasked, hm₁, hcases⟩ :=
    h.asking_run overwrite (files.map (GeneratedFile.destination directory))
  rw [hasked]
  rcases hcases with rfl | ⟨e, rfl⟩ | ⟨p, hp, rfl⟩
  · -- nobody objects: directories, then staging, then moving, and each may be the last
    simp only [run_bind]
    obtain ⟨created, made, m₂, hcreate, hm₂, hmade, hthere⟩ := hm₁.createDirectories_run directory
    rw [hcreate]
    cases created with
    | error e =>
      exact ⟨_, made, m₂, made, [], [], [], [], rfl, hm₂, .noDirectory e, .inl rfl, hmade,
        fun h => absurd h (hunready _), .start ..⟩
    | ok u =>
      obtain ⟨base, hbase⟩ := (hthere rfl).exists_leads
      have hready : made.Leads directory base ∧ made.HasDirectory directory :=
        ⟨hbase, hthere rfl⟩
      obtain ⟨result, fs₃, m₃, hstage, hm₃, hstaged⟩ := hm₂.stageAll_run hremoves hfiles
        (List.nil_append files).symm hbase (.start ..)
      rw [List.map_nil] at hstage
      simp only [run_bind, hstage]
      rcases hstaged with
        ⟨rfl, hwaiting⟩ | ⟨staged, f, rest, e, freed, hsplit, rfl, hfreed, hprogress⟩
      · obtain ⟨result, fs₄, m₄, hcommit, hm₄, hmoved⟩ :=
          hm₃.commitAll_run hremoves hfiles hbase verbose hwaiting
        simp only [run_bind, hcommit]
        rcases hmoved with ⟨rfl, hdone⟩ | ⟨moved, f, rest, e, hsplit, rfl, hpartly⟩
        · exact ⟨_, fs₄, m₄, made, base, files, files, files, rfl, hm₄, .written, .inl rfl, hmade,
            fun _ => hready, hdone⟩
        · exact ⟨_, fs₄, m₄, made, base, files, moved, files, rfl, hm₄, .notMoved e hsplit,
            .inl rfl, hmade, fun _ => hready, hpartly⟩
      · exact ⟨_, fs₃, m₃, made, base, staged, [], freed, rfl, hm₃, .notStaged e hsplit,
          hfreed, hmade, fun _ => hready, hprogress⟩
  · exact ⟨_, fs, m₁, fs, [], [], [], [], rfl, hm₁, .unread e, .inl rfl, .refl _ _,
      fun h => absurd h (hunready _), .start ..⟩
  · obtain ⟨f, hf, rfl⟩ := List.mem_map.mp hp
    exact ⟨_, fs, m₁, fs, [], [], [], [], rfl, hm₁, .declined hf, .inl rfl, .refl _ _,
      fun h => absurd h (hunready _), .start ..⟩

/-! ## Runs in a world -/

/-- In a world nothing is refused, so a file that could not be staged has not come near its staging
name. -/
theorem writeFiles_outcome (hfiles : PlainFiles files) (verbose : Bool) (overwrite : Overwrite)
    (w : World) :
    ∃ result w' made base staged moved,
      (writeFiles verbose directory files overwrite : StateM World _) w = (result, w') ∧
        Outcome directory files result staged moved ∧
          FileSystem.MakesDirectories directory.ancestors w.files made ∧
            (staged ≠ [] ∨ result.isOk = true →
              made.Leads directory base ∧ made.HasDirectory directory) ∧
              Progress files directory base made [] moved staged w'.files := by
  have hgranting := Policy.granting_lenient
  obtain ⟨result, fs', m', made, base, staged, moved, freed, hrun, hm', houtcome, hfreed, hmade,
    hready, hprogress⟩ := (Mirrors.holds_ofWorld w 0).writeFiles_outcome hgranting.removing hfiles
      directory verbose overwrite
  obtain ⟨clock, hmirror⟩ := Mirrors.writeFiles hgranting verbose directory files overwrite w 0
  obtain ⟨hresult, rfl⟩ := Prod.mk.inj (hrun.symm.trans hmirror)
  obtain rfl : freed = staged := by
    rcases hfreed with heq | ⟨hrefused, -⟩
    · exact heq
    · exact absurd hgranting hrefused
  refine ⟨result, ((writeFiles verbose directory files overwrite : StateM World _) w).2, made, base,
    freed, moved, ?_, houtcome, hmade, hready, ?_⟩
  · exact Prod.ext hresult.symm rfl
  · exact hm'.files_eq ▸ hprogress

/-- The same without what is known of a run that stages nothing. -/
theorem writeFiles_run (hfiles : PlainFiles files) (verbose : Bool) (overwrite : Overwrite)
    (w : World) :
    ∃ result w' made base staged moved,
      (writeFiles verbose directory files overwrite : StateM World _) w = (result, w') ∧
        Outcome directory files result staged moved ∧
          FileSystem.MakesDirectories directory.ancestors w.files made ∧
            (staged ≠ [] → made.Leads directory base) ∧
              Progress files directory base made [] moved staged w'.files := by
  obtain ⟨result, w', made, base, staged, moved, hrun, houtcome, hmade, hbase, hprogress⟩ :=
    @writeFiles_outcome files directory hfiles verbose overwrite w
  exact ⟨result, w', made, base, staged, moved, hrun, houtcome, hmade,
    fun hne => (hbase (.inl hne)).1, hprogress⟩

/-- Everything but what has a used address is as it was, but for the directories that a path and the
paths above it name, which may be new. -/
def Unchanged (directory : Path) (fs fs' : FileSystem) (used : Address → Prop) : Prop :=
  ∀ a, ¬ used a → fs'.find? a = fs.find? a ∨
    fs.find? a = none ∧ fs'.find? a = some .directory ∧
      ∃ p ∈ directory.ancestors, fs'.addressOf? p = some a

/-- A run uses the destinations of the files that it moved and the staging names that it freed. -/
theorem Progress.unchanged {base : Address} {fs made now : FileSystem}
    {moved freed : List GeneratedFile}
    (hmade : FileSystem.MakesDirectories directory.ancestors fs made)
    (h : Progress files directory base made [] moved freed now) :
    Unchanged directory fs now fun a =>
      (∃ f ∈ moved, a = f.address base) ∨ ∃ f ∈ freed, a = f.stagingAddress base := by
  intro a hused
  rw [not_or] at hused
  rw [h.find?_other a (fun f hf heq => hused.2 ⟨f, by simpa using hf, heq⟩)
    fun f hf heq => hused.1 ⟨f, hf, heq⟩]
  refine (hmade.find? a).imp_right ?_
  rintro ⟨hnone, hnew, p, hp, hpath⟩
  exact ⟨hnone, hnew, p, hp, h.tree.forth.addressOf? hpath⟩

/-- **Everything is as it was**, but for the directories that a path and the paths above it name,
which may be new. -/
def Intact (directory : Path) (fs fs' : FileSystem) : Prop :=
  ∀ a, fs'.find? a = fs.find? a ∨ fs.find? a = none ∧ fs'.find? a = some .directory ∧
    ∃ p ∈ directory.ancestors, fs'.addressOf? p = some a

/-- Whether everything is as it was can be told from what stood at the addresses that a run used. -/
theorem Progress.intact_iff {base : Address} {fs made now : FileSystem}
    {moved freed : List GeneratedFile}
    (hmade : FileSystem.MakesDirectories directory.ancestors fs made)
    (h : Progress files directory base made [] moved freed now) :
    Intact directory fs now ↔
      (∀ f ∈ freed, fs.find? (f.stagingAddress base) = none) ∧
        ∀ f ∈ moved, fs.find? (f.address base) = some f.entry := by
  constructor
  · intro hintact
    refine ⟨fun f hf => ?_, fun f hf => ?_⟩
    · rcases hintact (f.stagingAddress base) with hsame | ⟨-, hnew, -⟩
      · rw [← hsame, h.find?_freed f hf]
      · rw [h.find?_freed f hf] at hnew
        cases hnew
    · rcases hintact (f.address base) with hsame | ⟨-, hnew, -⟩
      · rw [← hsame, h.find?_moved f hf]
      · rw [h.find?_moved f hf] at hnew
        cases hnew
  · rintro ⟨hfreed, hmoved⟩ a
    by_cases hstaging : ∃ f ∈ freed, a = f.stagingAddress base
    · obtain ⟨f, hf, rfl⟩ := hstaging
      exact .inl (by rw [h.find?_freed f hf, hfreed f hf])
    by_cases hdestination : ∃ f ∈ moved, a = f.address base
    · obtain ⟨f, hf, rfl⟩ := hdestination
      exact .inl (by rw [h.find?_moved f hf, hmoved f hf])
    exact h.unchanged hmade a (not_or.mpr ⟨hdestination, hstaging⟩)

/-- **A run that fails leaves everything as it was** exactly if no staging name that it used was
taken, and every file that it moved was there before with the same contents. Only a failure to move
a file can come after a move. -/
theorem writeFiles_failure_intact_iff (hfiles : PlainFiles files) (verbose : Bool)
    (overwrite : Overwrite) {w w' : World} {e : RunFailure}
    (h : (writeFiles verbose directory files overwrite : StateM World _) w = (.error e, w')) :
    ∃ base staged moved, Outcome directory files (.error e) staged moved ∧
      (staged ≠ [] → w'.files.Leads directory base) ∧
        (Intact directory w.files w'.files ↔
          (∀ f ∈ staged, w.files.find? (f.stagingAddress base) = none) ∧
            ∀ f ∈ moved, w.files.find? (f.address base) = some f.entry) := by
  obtain ⟨result, w'', made, base, staged, moved, hrun, houtcome, hmade, hbase, hprogress⟩ :=
    @writeFiles_run files directory hfiles verbose overwrite w
  rw [h] at hrun
  obtain ⟨rfl, rfl⟩ := Prod.mk.inj hrun
  exact ⟨base, staged, moved, houtcome, fun hne => hprogress.tree.forth.leads (hbase hne),
    hprogress.intact_iff hmade⟩

end

/-! ## A run that fails half-way -/

/-- A directory in whose second destination a directory stands. -/
def blockedWorld : World :=
  { files :=
      { entries := [(["out"], .directory), (["out", "a.go"], .file "old".toUTF8),
          (["out", "b.go"], .directory)]
        workingDirectory := [] }
    input := []
    output := ""
    errors := [] }

def blockedFiles : List GeneratedFile :=
  [⟨"a.go", "new"⟩, ⟨"b.go", "new"⟩]

theorem blockedFiles_plain : PlainFiles blockedFiles := by
  refine ⟨fun f hf => ?_, by decide, by decide⟩
  have hname : f.path.toList ≠ [] ∧ '/' ∉ f.path.toList ∧ f.path.toList ≠ ['.'] ∧
      f.path.toList ≠ ['.', '.'] := by
    revert f
    decide
  exact ⟨hname.1, hname.2.1, hname.2.2.1, hname.2.2.2⟩

theorem blockedWorld_result :
    ((writeFiles false ⟨"/out"⟩ blockedFiles .force : StateM World _) blockedWorld).1 =
      .error (.writing ⟨"/out/b.go"⟩ .isADirectory) := by
  decide +kernel

theorem eq_mk_of_fst_eq {α β : Type} {x : α × β} {a : α} (h : x.1 = a) : x = (a, x.2) := by
  rw [← h]

theorem blockedWorld_intact_iff :
    ∃ w', (writeFiles false ⟨"/out"⟩ blockedFiles .force : StateM World _) blockedWorld =
        (.error (.writing ⟨"/out/b.go"⟩ .isADirectory), w') ∧
      ∃ base staged moved,
        Outcome ⟨"/out"⟩ blockedFiles (.error (.writing ⟨"/out/b.go"⟩ .isADirectory)) staged moved ∧
          (staged ≠ [] → w'.files.Leads ⟨"/out"⟩ base) ∧
            (Intact ⟨"/out"⟩ blockedWorld.files w'.files ↔
              (∀ f ∈ staged, blockedWorld.files.find? (f.stagingAddress base) = none) ∧
                ∀ f ∈ moved, blockedWorld.files.find? (f.address base) = some f.entry) := by
  have hrun := eq_mk_of_fst_eq blockedWorld_result
  exact ⟨_, hrun, writeFiles_failure_intact_iff blockedFiles_plain false .force hrun⟩

/-- The run fails, and the first file has been replaced. -/
theorem writeFiles_replaces_before_it_fails :
    PlainFiles blockedFiles ∧
      ∃ e w', (writeFiles false ⟨"/out"⟩ blockedFiles .force : StateM World _) blockedWorld =
          (.error e, w') ∧
        blockedWorld.files.find? ["out", "a.go"] = some (.file "old".toUTF8) ∧
          w'.files.find? ["out", "a.go"] = some (.file "new".toUTF8) ∧
            ¬ Intact ⟨"/out"⟩ blockedWorld.files w'.files := by
  have hold : blockedWorld.files.find? ["out", "a.go"] = some (.file "old".toUTF8) := by
    decide +kernel
  have hnew : ((writeFiles false ⟨"/out"⟩ blockedFiles .force : StateM World _)
      blockedWorld).2.files.find? ["out", "a.go"] = some (.file "new".toUTF8) := by
    decide +kernel
  refine ⟨blockedFiles_plain, _, _, eq_mk_of_fst_eq blockedWorld_result, hold, hnew,
    fun hintact => ?_⟩
  rcases hintact ["out", "a.go"] with hsame | ⟨hnone, -⟩
  · rw [hold, hnew] at hsame
    exact absurd hsame (by decide +kernel)
  · rw [hold] at hnone
    cases hnone

end WireSchema
