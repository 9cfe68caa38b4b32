import WireSchema.CommandLine.Run
import WireSchema.Proofs.HostRelations
import WireSchema.Proofs.PlainMachine

/-!
# Nothing depends on what was printed

No operation reads the error channel or the output back. So two runs that start with the same files
and the same input do the same, whatever has been printed before: they have the same result, and
leave the same files and the same input, and what they print from there on is the same (`Blind`).
Only the lines on the error channel may differ.
-/

namespace WireSchema

/-- Two surroundings that cannot be told apart by a run: the files and the input are the same, and
the outputs have grown by the same text since they were `before` and `before'`. -/
structure World.Alike (before before' : String) (w w' : World) : Prop where
  files : w.files = w'.files
  input : w.input = w'.input
  output : ∃ said, w.output = before ++ said ∧ w'.output = before' ++ said

namespace World.Alike

variable {before before' : String} {w w' w'' : World}

/-- The same files and the same input are all that it takes, whatever has been printed. -/
theorem of_eq (hfiles : w.files = w'.files) (hinput : w.input = w'.input) :
    Alike w.output w'.output w w' :=
  ⟨hfiles, hinput, "", String.append_empty.symm, String.append_empty.symm⟩

theorem refl (w : World) : Alike w.output w.output w w :=
  .of_eq rfl rfl

/-- The same output is alike from any common beginning of it. -/
theorem of_output_eq (hfiles : w.files = w'.files) (hinput : w.input = w'.input)
    (houtput : w.output = w'.output) : Alike "" "" w w' :=
  ⟨hfiles, hinput, w.output, String.empty_append.symm, houtput ▸ String.empty_append.symm⟩

theorem symm (h : Alike before before' w w') : Alike before' before w' w := by
  obtain ⟨said, hw, hw'⟩ := h.output
  exact ⟨h.files.symm, h.input.symm, said, hw', hw⟩

/-- Surroundings that differ in the error channel only have the same output. -/
theorem output_eq (h : Alike before before w w') : w.output = w'.output := by
  obtain ⟨said, hw, hw'⟩ := h.output
  rw [hw, hw']

/-- Surroundings that cannot be told apart from the same cannot be told apart. -/
theorem trans (h : Alike before before w w') (h' : Alike before before' w' w'') :
    Alike before before' w w'' := by
  obtain ⟨said, hw', hw''⟩ := h'.output
  exact ⟨h.files.trans h'.files, h.input.trans h'.input, said, h.output_eq.trans hw', hw''⟩

end World.Alike

/-- The result does not depend on what was printed, and surroundings that are alike stay so. -/
def Blind {α : Type} (x : StateM World α) : Prop :=
  ∀ before before' w w', World.Alike before before' w w' →
    (x w).1 = (x w').1 ∧ World.Alike before before' (x w).2 (x w').2

namespace Blind

variable {α β : Type}

theorem pure (a : α) : Blind (Pure.pure a) :=
  fun _ _ _ _ h => ⟨rfl, h⟩

/-- Computations that do not look at what was printed can be put together. -/
theorem bind {x : StateM World α} {f : α → StateM World β} (hx : Blind x)
    (hf : ∀ a, Blind (f a)) : Blind (x >>= f) := by
  intro before before' w w' h
  obtain ⟨hresult, halike⟩ := hx _ _ _ _ h
  rw [run_bind, run_bind, ← hresult]
  exact hf _ _ _ _ _ halike

/-- Looking at files is not looking at what was printed. -/
theorem look (f : FileSystem → α) : Blind (World.look f) :=
  fun _ _ _ _ h => ⟨congrArg f h.files, h⟩

/-- Neither is changing files. -/
theorem change (f : FileSystem → Except FileError FileSystem) : Blind (World.change f) := by
  intro before before' w w' h
  rw [World.change, World.change, ← h.files]
  cases f w.files with
  | error e => exact ⟨rfl, h⟩
  | ok files => exact ⟨rfl, rfl, h.input, h.output⟩

/-- Neither is reading a line. -/
theorem readLine : Blind (Host.readLine : StateM World (List UInt8)) := by
  intro before before' w w' h
  have hfirst : (firstLine w.input).1 = (firstLine w'.input).1 := by rw [h.input]
  have hrest : (firstLine w.input).2 = (firstLine w'.input).2 := by rw [h.input]
  exact ⟨hfirst, h.files, hrest, h.output⟩

/-- Printing adds to the output, whatever it is. -/
theorem print (text : String) : Blind (Host.print text : StateM World Unit) := by
  intro before before' w w' h
  obtain ⟨said, hw, hw'⟩ := h.output
  refine ⟨rfl, h.files, h.input, said ++ text, ?_, ?_⟩
  · exact (congrArg (· ++ text) hw).trans String.append_assoc
  · exact (congrArg (· ++ text) hw').trans String.append_assoc

/-- Reporting adds to the error channel, whatever it is. -/
theorem report (line : String) : Blind (Host.report line : StateM World Unit) :=
  fun _ _ _ _ h => ⟨rfl, h.files, h.input, h.output⟩

/-! ## Runs -/

/-- Computations that do not look at what was printed, related to themselves. -/
theorem hostRelation : HostRelation fun α (x y : StateM World α) => x = y ∧ Blind x where
  pure a := ⟨rfl, .pure a⟩
  bind := by
    rintro α β x _ f g ⟨rfl, hx⟩ hf
    exact ⟨congrArg (x >>= ·) (funext fun a => (hf a).1), hx.bind fun a => (hf a).2⟩
  readFile p := ⟨rfl, .look _⟩
  isPresent p := ⟨rfl, .look _⟩
  isDirectory p := ⟨rfl, .look _⟩
  createDirectory p := ⟨rfl, .change _⟩
  writeFile p contents := ⟨rfl, .change _⟩
  removeFile p := ⟨rfl, .change _⟩
  rename source target := ⟨rfl, .change _⟩
  readLine := ⟨rfl, .readLine⟩
  print text := ⟨rfl, .print text⟩
  report line := ⟨rfl, .report line⟩

theorem log (verbose : Bool) (r : LogRecord) :
    Blind (WireSchema.log verbose r : StateM World Unit) :=
  (hostRelation.log verbose r).2

/-- **A run of `writeFiles` does not depend on what was printed.** -/
theorem writeFiles (verbose : Bool) (directory : Path) (files : List GeneratedFile)
    (overwrite : Overwrite) :
    Blind (WireSchema.writeFiles verbose directory files overwrite : StateM World _) :=
  (hostRelation.writeFiles verbose directory files overwrite).2

/-- Neither does writing a target. -/
theorem writeTarget (o : CommandLine.Options) (s : Schema) (target : Target) (directory : Path) :
    Blind (CommandLine.writeTarget o s target directory : StateM World _) := by
  rw [CommandLine.writeTarget]
  cases target.generate s with
  | error e => exact .pure _
  | ok files => exact .writeFiles _ _ _ _

/-- Nor writing several. -/
theorem writeTargets (o : CommandLine.Options) (s : Schema) (targets : List (Target × Path)) :
    Blind (CommandLine.writeTargets o s targets : StateM World _) := by
  induction targets with
  | nil => exact .pure _
  | cons target targets ih =>
    refine .bind (.writeTarget o s _ _) fun result => ?_
    cases result with
    | ok written => exact .bind (.log _ _) fun _ => ih
    | error e => exact .bind (.report _) fun _ => .bind ih fun _ => .pure _

end Blind

end WireSchema
