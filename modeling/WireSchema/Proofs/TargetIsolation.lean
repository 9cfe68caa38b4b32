import WireSchema.Proofs.ErrorChannel
import WireSchema.Proofs.TargetFiles
import WireSchema.Text.Utf8

/-!
# Targets do not disturb each other

What the program does when it is asked for a run. It ends well exactly if the schema file is read
and compiled and every target is generated and written; then the files of all targets are there. If
the schema cannot be read or compiled, nothing changes. If one of two targets cannot be generated,
the other one is treated as if it had been asked for alone (`program_isolates_targets`).
-/

namespace WireSchema

namespace CommandLine

/-! ## Targets one after another -/

/-- The targets are generated and written one after another, from the first surroundings to the
last. -/
inductive Writes (o : Options) (s : Schema) : World → List (Target × Path) → World → Prop
  | nil (w : World) : Writes o s w [] w
  | cons {w w₁ w' : World} {target : Target} {directory : Path} {targets : List (Target × Path)}
      {files : List GeneratedFile} {paths : List Path} (generated : target.generate s = .ok files)
      (written : (writeFiles o.verbose directory files o.overwrite : StateM World _) w =
        (.ok paths, w₁)) (rest : Writes o s w₁ targets w') :
      Writes o s w ((target, directory) :: targets) w'

section

variable {o : Options} {s : Schema} {target : Target} {directory : Path}
  {targets : List (Target × Path)} {w w₁ w' : World}

/-- A target that cannot be generated changes nothing. -/
theorem writeTarget_of_error {e : GenerationError} (h : target.generate s = .error e) :
    (writeTarget o s target directory : StateM World _) w = (.error (.generation e), w) := by
  rw [writeTarget, h]
  rfl

/-- Otherwise its files are written. -/
theorem writeTarget_of_ok {files : List GeneratedFile} (h : target.generate s = .ok files) :
    (writeTarget o s target directory : StateM World _) =
      writeFiles o.verbose directory files o.overwrite := by
  rw [writeTarget, h]

/-- Behind a target that was written come the others. -/
theorem writeTargets_cons_of_ok {paths : List Path}
    (h : (writeTarget o s target directory : StateM World _) w = (.ok paths, w₁)) :
    (writeTargets o s ((target, directory) :: targets) : StateM World _) w =
      (writeTargets o s targets : StateM World _)
        ((log o.verbose (targetRecord target paths.length directory) : StateM World _) w₁).2 := by
  rw [writeTargets, run_bind, h]
  rfl

/-- A target that failed is reported and counted, and the others come behind it. -/
theorem writeTargets_cons_of_error {e : RunFailure}
    (h : (writeTarget o s target directory : StateM World _) w = (.error e, w₁)) :
    (writeTargets o s ((target, directory) :: targets) : StateM World _) w =
      (((writeTargets o s targets : StateM World _)
          ((Host.report e.message : StateM World _) w₁).2).1 + 1,
        ((writeTargets o s targets : StateM World _)
          ((Host.report e.message : StateM World _) w₁).2).2) := by
  rw [writeTargets, run_bind, h]
  rfl

/-- A report is on the error channel only. -/
theorem alike_report (line : String) {before before' : String}
    (h : World.Alike before before' w w') :
    World.Alike before before' ((Host.report line : StateM World _) w).2 w' :=
  ⟨h.files, h.input, h.output⟩

theorem alike_log (verbose : Bool) (r : LogRecord) {before before' : String}
    (h : World.Alike before before' w w') :
    World.Alike before before' ((log verbose r : StateM World _) w).2 w' := by
  rw [log]
  split
  · exact alike_report _ h
  · exact h

/-- Targets that are all written: none is counted as failed, and nothing but the error channel can
tell the run from the writes alone. -/
theorem Writes.writeTargets (h : Writes o s w targets w') {before before' : String} {v : World}
    (hv : World.Alike before before' v w) :
    ((writeTargets o s targets : StateM World _) v).1 = 0 ∧
      World.Alike before before'
        ((CommandLine.writeTargets o s targets : StateM World _) v).2 w' := by
  induction h generalizing v with
  | nil w => exact ⟨rfl, hv⟩
  | @cons w w₁ w' target directory targets files paths generated written _ ih =>
    obtain ⟨hresult, halike⟩ := Blind.writeFiles o.verbose directory files o.overwrite _ _ _ _ hv
    rw [written] at hresult halike
    have hrun := eq_mk_of_fst_eq hresult
    rw [← writeTarget_of_ok generated] at hrun
    rw [writeTargets_cons_of_ok hrun]
    rw [writeTarget_of_ok generated]
    exact ih (alike_log _ _ halike)

/-- If no target failed, all were written. -/
theorem writes_of_writeTargets
    (h : ((writeTargets o s targets : StateM World _) w).1 = 0) :
    ∃ w', Writes o s w targets w' := by
  induction targets generalizing w with
  | nil => exact ⟨w, .nil w⟩
  | cons first targets ih =>
    obtain ⟨target, directory⟩ := first
    cases hresult : (writeTarget o s target directory : StateM World _) w with
    | mk result w₁ =>
      cases result with
      | error e =>
        rw [writeTargets_cons_of_error hresult] at h
        cases h
      | ok paths =>
        rw [writeTargets_cons_of_ok hresult] at h
        have hblind := (Blind.writeTargets o s targets _ _ _ _ (alike_log o.verbose
          (targetRecord target paths.length directory) (.refl w₁))).1
        rw [h] at hblind
        obtain ⟨w', hw'⟩ := ih hblind.symm
        cases hgenerate : target.generate s with
        | error e =>
          rw [writeTarget_of_error hgenerate] at hresult
          cases hresult
        | ok files =>
          rw [writeTarget_of_ok hgenerate] at hresult
          exact ⟨w', .cons hgenerate hresult hw'⟩

/-- A file of one target stays while other targets are written. -/
theorem Writes.keeps (h : Writes o s w targets w') (hs : s.Worded)
    (hlanguages : ∀ t ∈ targets, target.language ≠ t.1.language) {f : GeneratedFile}
    (hf : f.path ∈ target.fileNames s) (hheld : Holds w.files directory f) :
    Holds w'.files directory f := by
  induction h with
  | nil w => exact hheld
  | @cons w w₁ w' next place targets files paths generated written _ ih =>
    obtain ⟨hnext, hlater⟩ := List.forall_mem_cons.mp hlanguages
    refine ih hlater (hheld.writeFiles (plainFiles_of_generate hs generated) ?_ written)
    intro g hg
    have hpath : g.path ∈ next.fileNames s :=
      paths_of_generate generated ▸ List.mem_map_of_mem hg
    exact ⟨apart_of_languages hnext hf hpath, ne_stagingName_of_mem hf g.path⟩

/-- **The files of all targets are there in the end**, if the languages are different. -/
theorem Writes.holds (h : Writes o s w targets w') (hs : s.Worded)
    (hlanguages : targets.Pairwise fun t t' => t.1.language ≠ t'.1.language) :
    ∀ t ∈ targets, ∃ files, t.1.generate s = .ok files ∧ ∀ f ∈ files, Holds w'.files t.2 f := by
  induction h with
  | nil w => exact nofun
  | @cons w w₁ w' first place targets files paths generated written rest ih =>
    obtain ⟨hfirst, hlater⟩ := List.pairwise_cons.mp hlanguages
    refine List.forall_mem_cons.mpr ⟨⟨files, generated, fun f hf => ?_⟩, ih hlater⟩
    have hpath : f.path ∈ first.fileNames s :=
      paths_of_generate generated ▸ List.mem_map_of_mem hf
    exact rest.keeps hs hfirst hpath
      (holds_of_writeFiles (plainFiles_of_generate hs generated) written f hf)

end

/-- No language is asked for twice. -/
theorem languages_of_targets (o : Options) :
    o.targets.Pairwise fun t t' => t.1.language ≠ t'.1.language := by
  unfold Options.targets
  cases o.goDirectory <;> cases o.javaScriptDirectory <;> simp [Target.language]

/-! ## Runs -/

/-- The schema file holds a text that compiles to the schema. -/
def Compiles (o : Options) (files : FileSystem) (s : Schema) : Prop :=
  ∃ text : String, files.readFile o.input = .ok text.toUTF8 ∧ Schema.ofText o.errorMode text = .ok s

theorem readText_eq_some_iff {bytes : ByteArray} {text : String} :
    String.fromUTF8? bytes = some text ↔ bytes = text.toUTF8 := by
  have hbytes : bytes.data.toList.toByteArray = bytes := ByteArray.ext List.data_toByteArray
  rw [← hbytes, Text.fromUTF8?_eq_some_iff, hbytes]
  refine ⟨fun h => ?_, fun h => ?_⟩
  · exact ByteArray.ext (Array.toList_inj.mp h)
  · rw [h]
    rfl

theorem mapError_eq_ok_iff {ε ε' α : Type} {x : Except ε α} {f : ε → ε'} {a : α} :
    x.mapError f = .ok a ↔ x = .ok a := by
  cases x with
  | error e => exact ⟨nofun, nofun⟩
  | ok b => exact ⟨fun h => congrArg _ (Except.ok.inj h), fun h => congrArg _ (Except.ok.inj h)⟩

/-- Reading the schema file changes nothing. It gives a schema exactly if the file compiles to
it. -/
theorem loadSchema_run (o : Options) (w : World) :
    ∃ result, (loadSchema o : StateM World _) w = (result, w) ∧
      ∀ s, result = .ok s ↔ Compiles o w.files s := by
  have hread : (Host.readFile o.input : StateM World _) w = (w.files.readFile o.input, w) := rfl
  rw [loadSchema, run_bind, hread]
  cases hfile : w.files.readFile o.input with
  | error e =>
    refine ⟨_, rfl, fun s => ⟨nofun, ?_⟩⟩
    rintro ⟨text, htext, -⟩
    rw [hfile] at htext
    cases htext
  | ok contents =>
    simp only
    cases hcontents : String.fromUTF8? contents with
    | none =>
      refine ⟨_, rfl, fun s => ⟨nofun, ?_⟩⟩
      rintro ⟨text, htext, -⟩
      rw [hfile] at htext
      rw [readText_eq_some_iff.mpr (Except.ok.inj htext)] at hcontents
      cases hcontents
    | some text =>
      obtain rfl := readText_eq_some_iff.mp hcontents
      refine ⟨_, rfl, fun s => mapError_eq_ok_iff.trans ⟨fun h => ⟨text, hfile, h⟩, ?_⟩⟩
      rintro ⟨text', htext', h⟩
      rw [hfile] at htext'
      have hsame := readText_eq_some_iff.mpr (Except.ok.inj htext')
      rw [hcontents] at hsame
      rwa [Option.some.inj hsame]

/-- What a run prints before it looks at its targets. -/
def announcement (o : Options) (s : Schema) : String :=
  if o.dumpSchema then s.dumpPretty ++ "\n" else ""

/-- The surroundings with that printed. -/
def announced (o : Options) (s : Schema) (w : World) : World :=
  { w with output := w.output ++ announcement o s }

/-- What a run does before it looks at its targets. -/
def announce (o : Options) (s : Schema) : StateM World Unit := do
  log o.verbose (schemaRecord s)
  log o.verbose (versionRecord s.fingerprint)
  if o.dumpSchema then
    Host.print (s.dumpPretty ++ "\n")

/-- What a run does with its targets. -/
def conclude (o : Options) (s : Schema) : StateM World (Except RunFailure Unit) := do
  if o.targets.isEmpty then
    Host.print (summaryText s.fingerprint)
    return .ok ()
  match ← writeTargets o s o.targets with
  | 0 => return .ok ()
  | failed => return .error (.targets failed o.targets.length)

section

variable {o : Options} {s : Schema} {w : World}

theorem process_eq (o : Options) (s : Schema) :
    (process o s : StateM World _) = announce o s >>= fun _ => conclude o s := by
  unfold process announce conclude
  cases o.dumpSchema <;> rfl

/-- What is announced is printed, and nothing else changes. -/
theorem announce_run (o : Options) (s : Schema) (w : World) :
    (announce o s w).2.files = w.files ∧ (announce o s w).2.input = w.input ∧
      (announce o s w).2.output = w.output ++ announcement o s := by
  unfold announce announcement
  cases o.dumpSchema with
  | false => cases o.verbose <;> exact ⟨rfl, rfl, String.append_empty.symm⟩
  | true => cases o.verbose <;> exact ⟨rfl, rfl, rfl⟩

/-- With targets, a run succeeds if none of them fails. -/
theorem conclude_of_targets (h : o.targets ≠ []) :
    ((conclude o s w).1 = .ok () ↔ ((writeTargets o s o.targets : StateM World _) w).1 = 0) ∧
      (conclude o s w).2 = ((writeTargets o s o.targets : StateM World _) w).2 := by
  rw [conclude, if_neg (by simpa using h), run_bind]
  cases ((writeTargets o s o.targets : StateM World _) w).1 with
  | zero => exact ⟨⟨fun _ => rfl, fun _ => rfl⟩, rfl⟩
  | succ failed => exact ⟨⟨nofun, nofun⟩, rfl⟩

/-- Without targets, a run changes no file. -/
theorem conclude_of_no_targets (h : o.targets = []) :
    (conclude o s w).1 = .ok () ∧ (conclude o s w).2.files = w.files := by
  rw [conclude, h]
  exact ⟨rfl, rfl⟩

/-- A run whose schema compiles announces it and goes on. -/
theorem run_of_compiles (h : Compiles o w.files s) :
    ∃ v : World, v.files = w.files ∧ v.input = w.input ∧ v.output = w.output ++ announcement o s ∧
      (run o : StateM World _) w = conclude o s v := by
  obtain ⟨result, hload, hresult⟩ :=
    loadSchema_run o ((log o.verbose startRecord : StateM World _) w).2
  have hlog := (alike_log o.verbose startRecord (.refl w))
  rw [hlog.files] at hresult
  obtain ⟨hfiles, hinput, houtput⟩ :=
    announce_run o s ((log o.verbose startRecord : StateM World _) w).2
  refine ⟨_, hfiles.trans hlog.files, hinput.trans hlog.input, ?_, ?_⟩
  · rw [houtput, hlog.output_eq]
  · rw [run, run_bind, run_bind, hload, (hresult s).mpr h]
    simp only [process_eq, run_bind]

/-- Any other run fails and changes nothing. -/
theorem run_of_not_compiles (h : ∀ s, ¬ Compiles o w.files s) :
    ∃ e v, (run o : StateM World _) w = (.error e, v) ∧ World.Alike w.output w.output v w := by
  obtain ⟨result, hload, hresult⟩ :=
    loadSchema_run o ((log o.verbose startRecord : StateM World _) w).2
  have hlog := alike_log o.verbose startRecord (.refl w)
  rw [hlog.files] at hresult
  cases result with
  | ok s => exact absurd ((hresult s).mp rfl) (h s)
  | error e =>
    refine ⟨e, _, ?_, hlog⟩
    rw [run, run_bind, run_bind, hload]
    rfl

/-- The program ends as its run does, and says so on the error channel only. -/
theorem program_of_run {arguments : List String}
    (ho : Request.ofArguments arguments = .ok (.run o)) (w : World) :
    (((program arguments : StateM World Exit) w).1 = .success ↔
        ((run o : StateM World _) w).1 = .ok ()) ∧
      (((program arguments : StateM World Exit) w).1 = .failure ↔
        ∃ e, ((run o : StateM World _) w).1 = .error e) ∧
      World.Alike "" "" ((program arguments : StateM World Exit) w).2
        ((run o : StateM World _) w).2 := by
  rw [program, ho]
  simp only [run_bind]
  cases ((run o : StateM World _) w).1 with
  | ok u =>
    refine ⟨⟨fun _ => rfl, fun _ => rfl⟩, ⟨nofun, ?_⟩, .of_output_eq rfl rfl rfl⟩
    rintro ⟨e, he⟩
    cases he
  | error e => exact ⟨⟨nofun, nofun⟩, ⟨fun _ => ⟨e, rfl⟩, fun _ => rfl⟩, .of_output_eq rfl rfl rfl⟩

end

/-! ## Isolation -/

/-- A target that cannot be generated leaves the others as they are without it. -/
theorem writeTargets_skips {o : Options} {s : Schema} {target : Target} {directory : Path}
    {e : GenerationError} (h : target.generate s = .error e) (sooner later : List (Target × Path))
    {before before' : String} {w w' : World} (hw : World.Alike before before' w w') :
    World.Alike before before'
      ((writeTargets o s (sooner ++ (target, directory) :: later) : StateM World _) w).2
      ((writeTargets o s (sooner ++ later) : StateM World _) w').2 := by
  induction sooner generalizing w w' with
  | nil =>
    rw [List.nil_append, writeTargets_cons_of_error (writeTarget_of_error h)]
    exact (Blind.writeTargets o s later _ _ _ _ (alike_report _ hw)).2
  | cons first sooner ih =>
    obtain ⟨target', place⟩ := first
    obtain ⟨hresult, halike⟩ := Blind.writeTarget o s target' place _ _ _ _ hw
    cases hrun : (writeTarget o s target' place : StateM World _) w with
    | mk result w₁ =>
      rw [hrun] at hresult halike
      have hrun' := eq_mk_of_fst_eq hresult.symm
      cases result with
      | error e' =>
        rw [List.cons_append, writeTargets_cons_of_error hrun, List.cons_append,
          writeTargets_cons_of_error hrun']
        exact ih (Blind.report _ _ _ _ _ halike).2
      | ok paths =>
        rw [List.cons_append, writeTargets_cons_of_ok hrun, List.cons_append,
          writeTargets_cons_of_ok hrun']
        exact ih (Blind.log _ _ _ _ _ _ halike).2

/-- The options without a target. -/
def Options.without (o : Options) : Language → Options
  | .go => { o with goDirectory := none }
  | .javaScript => { o with javaScriptDirectory := none }

theorem writeTargets_without (o : Options) (language : Language) (s : Schema)
    (targets : List (Target × Path)) :
    (writeTargets (o.without language) s targets : StateM World _) = writeTargets o s targets := by
  induction targets with
  | nil => rfl
  | cons first targets ih =>
    cases language <;> rw [writeTargets, writeTargets, ih] <;> rfl

/-- The targets of a run that is asked for both. -/
theorem exists_split_targets {o : Options} (hgo : o.goDirectory.isSome)
    (hjs : o.javaScriptDirectory.isSome) {target : Target} {directory : Path}
    (h : (target, directory) ∈ o.targets) :
    ∃ sooner later, o.targets = sooner ++ (target, directory) :: later ∧
      (o.without target.language).targets = sooner ++ later ∧ sooner ++ later ≠ [] := by
  obtain ⟨go, hgo⟩ := Option.isSome_iff_exists.mp hgo
  obtain ⟨js, hjs⟩ := Option.isSome_iff_exists.mp hjs
  have htargets : o.targets = [(.go o.goPackage, go), (.javaScript (!o.noBigint), js)] := by
    rw [Options.targets, hgo, hjs]
    rfl
  rw [htargets] at h ⊢
  rcases List.mem_cons.mp h with heq | h
  · obtain ⟨rfl, rfl⟩ := Prod.mk.inj heq
    refine ⟨[], [(.javaScript (!o.noBigint), js)], rfl, ?_, List.cons_ne_nil _ _⟩
    simp [Target.language, Options.without, Options.targets, hjs]
  · obtain ⟨rfl, rfl⟩ := Prod.mk.inj (List.mem_singleton.mp h)
    refine ⟨[(.go o.goPackage, go)], [], rfl, ?_, List.cons_ne_nil _ _⟩
    simp [Target.language, Options.without, Options.targets, hgo]

section

variable {o : Options} {s : Schema} {arguments : List String}
  (ho : Request.ofArguments arguments = .ok (.run o)) {w : World} (hs : Compiles o w.files s)

include ho hs

/-- If the schema compiles, the program does with the files what the targets do. -/
theorem program_of_compiles :
    (((program arguments : StateM World Exit) w).1 = .success ↔
        ((writeTargets o s o.targets : StateM World _) w).1 = 0) ∧
      ((program arguments : StateM World Exit) w).2.files =
        ((writeTargets o s o.targets : StateM World _) w).2.files := by
  obtain ⟨hexit, -, halike⟩ := program_of_run ho w
  obtain ⟨v, hfiles, hinput, -, hrun⟩ := run_of_compiles hs
  rw [hexit, halike.files, hrun]
  by_cases htargets : o.targets = []
  · obtain ⟨hok, hsame⟩ := @conclude_of_no_targets o s v htargets
    rw [hok, hsame, htargets]
    exact ⟨⟨fun _ => rfl, fun _ => rfl⟩, hfiles⟩
  · obtain ⟨hok, hstate⟩ := @conclude_of_targets o s v htargets
    obtain ⟨hcount, hend⟩ := Blind.writeTargets o s o.targets _ _ _ _ (.of_eq hfiles hinput)
    rw [hok, hstate, hcount]
    exact ⟨Iff.rfl, hend.files⟩

/-- With targets, it prints no more than the dump and what the targets print. -/
theorem alike_of_targets (hne : o.targets ≠ []) :
    World.Alike "" "" ((program arguments : StateM World Exit) w).2
      ((writeTargets o s o.targets : StateM World _) (announced o s w)).2 := by
  obtain ⟨-, -, halike⟩ := program_of_run ho w
  obtain ⟨v, hfiles, hinput, houtput, hrun⟩ := run_of_compiles hs
  have hv : World.Alike "" "" v (announced o s w) := .of_output_eq hfiles hinput houtput
  rw [hrun, (@conclude_of_targets o s v hne).2] at halike
  exact halike.trans (Blind.writeTargets o s o.targets _ _ _ _ hv).2

end

/-- A file compiles to one schema. -/
theorem Compiles.unique {o : Options} {files : FileSystem} {s s' : Schema}
    (h : Compiles o files s) (h' : Compiles o files s') : s = s' := by
  obtain ⟨text, hread, hs⟩ := h
  obtain ⟨text', hread', hs'⟩ := h'
  have hbytes := Except.ok.inj (hread.symm.trans hread')
  have htext := (readText_eq_some_iff.mpr rfl).symm.trans (readText_eq_some_iff.mpr hbytes)
  obtain rfl := Option.some.inj htext
  exact Except.ok.inj (hs.symm.trans hs')

/-- The program succeeds exactly if there is a schema and all targets are written. -/
theorem success_iff_writes {o : Options} {arguments : List String}
    (ho : Request.ofArguments arguments = .ok (.run o)) (w : World) :
    ((program arguments : StateM World Exit) w).1 = .success ↔
      ∃ s v, Compiles o w.files s ∧ Writes o s w o.targets v := by
  refine ⟨fun hsuccess => ?_, ?_⟩
  · by_cases hcompiles : ∃ s, Compiles o w.files s
    · obtain ⟨s, hs⟩ := hcompiles
      obtain ⟨v, hv⟩ := writes_of_writeTargets ((program_of_compiles ho hs).1.mp hsuccess)
      exact ⟨s, v, hs, hv⟩
    · obtain ⟨e, v, hrun, -⟩ := run_of_not_compiles (not_exists.mp hcompiles)
      have hok := (program_of_run ho w).1.mp hsuccess
      rw [hrun] at hok
      cases hok
  · rintro ⟨s, v, hs, hv⟩
    exact (program_of_compiles ho hs).1.mpr (hv.writeTargets (.refl w)).1

/-- After a success, the directories hold the files of their targets. -/
theorem holds_of_success {o : Options} {arguments : List String}
    (ho : Request.ofArguments arguments = .ok (.run o)) {w : World} {s : Schema}
    (hsuccess : ((program arguments : StateM World Exit) w).1 = .success)
    (hs : Compiles o w.files s) :
    ∀ t ∈ o.targets, ∃ files, t.1.generate s = .ok files ∧
      ∀ f ∈ files, Holds ((program arguments : StateM World Exit) w).2.files t.2 f := by
  obtain ⟨s', v, hs', hv⟩ := (success_iff_writes ho w).mp hsuccess
  obtain rfl := hs.unique hs'
  obtain ⟨text, -, htext⟩ := hs
  rw [(program_of_compiles ho hs').2, (hv.writeTargets (.refl w)).2.files]
  exact hv.holds (Schema.ofText_worded htext) (languages_of_targets o)

/-- A target that cannot be generated does not change what the program does for the other one. -/
theorem alike_without {o : Options} {arguments alone : List String}
    (ho : Request.ofArguments arguments = .ok (.run o)) (hgo : o.goDirectory.isSome)
    (hjs : o.javaScriptDirectory.isSome) {w : World} {s : Schema} (hs : Compiles o w.files s)
    {target : Target} {directory : Path} (ht : (target, directory) ∈ o.targets)
    {e : GenerationError} (he : target.generate s = .error e)
    (halone : Request.ofArguments alone = .ok (.run (o.without target.language))) :
    World.Alike "" "" ((program arguments : StateM World Exit) w).2
      ((program alone : StateM World Exit) w).2 := by
  obtain ⟨sooner, later, htargets, hwithout, hne⟩ := exists_split_targets hgo hjs ht
  have hs' : Compiles (o.without target.language) w.files s := by
    cases target <;> exact hs
  have hfull := alike_of_targets ho hs (List.ne_nil_of_mem ht)
  have halone := alike_of_targets halone hs' (hwithout ▸ hne)
  have hannounced : announced (o.without target.language) s w = announced o s w := by
    cases target <;> rfl
  rw [hwithout, writeTargets_without, hannounced] at halone
  rw [htargets] at hfull
  exact (hfull.trans (writeTargets_skips he sooner later (.of_output_eq rfl rfl rfl))).trans
    halone.symm

/-- **Targets do not disturb each other.** Arguments that ask for a run, in any surroundings:

* the program exits with zero exactly if the schema file is read and compiled and every target is
  generated and written, one after another; then the directories of the targets hold their files;
* if the schema file cannot be read or compiled, it exits with one, and files, input and output are
  as they were;
* if two targets are asked for and one cannot be generated, the program leaves the same files and
  the same input as when it is asked for the other one only, and prints the same. -/
theorem program_isolates_targets {arguments : List String} {o : Options}
    (ho : Request.ofArguments arguments = .ok (.run o)) (w : World) :
    ∃ exit w', (program arguments : StateM World Exit) w = (exit, w') ∧
      (exit.code = 0 ↔ ∃ s v, Compiles o w.files s ∧ Writes o s w o.targets v) ∧
      (exit.code = 0 → ∀ s, Compiles o w.files s → ∀ t ∈ o.targets,
        ∃ files, t.1.generate s = .ok files ∧ ∀ f ∈ files, Holds w'.files t.2 f) ∧
      ((∀ s, ¬ Compiles o w.files s) →
        exit.code = 1 ∧ w'.files = w.files ∧ w'.input = w.input ∧ w'.output = w.output) ∧
      (o.goDirectory.isSome → o.javaScriptDirectory.isSome → ∀ s, Compiles o w.files s →
        ∀ target directory e, (target, directory) ∈ o.targets → target.generate s = .error e →
          ∀ alone, Request.ofArguments alone = .ok (.run (o.without target.language)) →
            ∃ exit' v, (program alone : StateM World Exit) w = (exit', v) ∧
              w'.files = v.files ∧ w'.input = v.input ∧ w'.output = v.output) := by
  have hcode {exit : Exit} : exit.code = 0 ↔ exit = .success := by
    cases exit <;> decide
  refine ⟨((program arguments : StateM World Exit) w).1,
    ((program arguments : StateM World Exit) w).2, rfl, ?_, ?_, ?_, ?_⟩
  · exact hcode.trans (success_iff_writes ho w)
  · exact fun hsuccess s hs => holds_of_success ho (hcode.mp hsuccess) hs
  · intro hnone
    obtain ⟨e, v, hrun, hv⟩ := run_of_not_compiles hnone
    obtain ⟨-, hfailure, halike⟩ := program_of_run ho w
    rw [hrun] at hfailure halike
    rw [hfailure.mpr ⟨e, rfl⟩]
    exact ⟨rfl, halike.files.trans hv.files, halike.input.trans hv.input,
      halike.output_eq.trans hv.output_eq⟩
  · intro hgo hjs s hs target directory e ht he alone halone
    have halike := alike_without ho hgo hjs hs ht he halone
    exact ⟨_, _, rfl, halike.files, halike.input, halike.output_eq⟩

/-- Both targets are asked for, with a package name that is none. -/
def misnamedArguments : List String :=
  ["--input", "s.ango", "--go", "g", "--js", "j", "--go-package", "1"]

def misnamedOptions : Options :=
  { input := ⟨"s.ango"⟩
    goDirectory := some ⟨"g"⟩
    javaScriptDirectory := some ⟨"j"⟩
    goPackage := "1"
    noBigint := false
    forceOverwrite := false
    collectErrors := false
    dumpSchema := false
    verbose := false }

/-- The module of the other target is there, and the input has an answer about it. -/
def misnamedWorld : World :=
  { files :=
      { entries := [(["s.ango"], .file "message M \x7b\x7d".toUTF8), (["j"], .directory),
          (["j", "protocol.js"], .file "old".toUTF8)]
        workingDirectory := [] }
    input := "y\nno\n".toUTF8.toList
    output := ""
    errors := [] }

/-- The run without the target that fails. -/
def loneRun : Exit × World :=
  (program ["--input=s.ango", "--js=j", "--go-package=1"] : StateM World Exit) misnamedWorld

theorem loneRun_asks :
    loneRun.1 = .success ∧ loneRun.2.output = "j/protocol.js already exists. Overwrite? [y/N] " ∧
      loneRun.2.input = "no\n".toUTF8.toList := by
  decide +kernel

/-- Both runs ask about the module that is there and take the same line, and only one succeeds. -/
theorem misnamed_leaves_javaScript :
    ∃ s e, Compiles misnamedOptions misnamedWorld.files s ∧
      (Target.go "1").generate s = .error e ∧
      ∃ w', (program misnamedArguments : StateM World Exit) misnamedWorld = (.failure, w') ∧
        w'.files = loneRun.2.files ∧
        w'.output = "j/protocol.js already exists. Overwrite? [y/N] " ∧
        w'.input = "no\n".toUTF8.toList ∧ loneRun.1 = .success := by
  have hcompiles : ∃ s ∈ (Schema.ofText .failFast "message M \x7b\x7d").toOption,
      (Target.go "1").generate s = .error (Go.packageError "1") := by decide +kernel
  have hfails : ((program misnamedArguments : StateM World Exit) misnamedWorld).1 = .failure := by
    decide +kernel
  obtain ⟨s, hs, he⟩ := hcompiles
  have hs : Compiles misnamedOptions misnamedWorld.files s :=
    ⟨_, rfl, eq_ok_of_mem_toOption hs⟩
  obtain ⟨exit, w', hrun, -, -, -, hisolated⟩ := @program_isolates_targets misnamedArguments
    misnamedOptions (by decide +kernel) misnamedWorld
  obtain ⟨exit', v, hlone, hfiles, hinput, houtput⟩ :=
    hisolated rfl rfl s hs (.go "1") ⟨"g"⟩ _ (by decide) he
      ["--input=s.ango", "--js=j", "--go-package=1"] (by decide +kernel)
  change loneRun = (exit', v) at hlone
  obtain ⟨hsuccess, hasked, hleft⟩ := loneRun_asks
  rw [hrun] at hfails
  rw [hlone] at hsuccess hasked hleft ⊢
  obtain rfl : exit = .failure := hfails
  exact ⟨s, _, hs, he, w', hrun, hfiles, houtput.trans hasked, hinput.trans hleft, hsuccess⟩

end CommandLine

end WireSchema
