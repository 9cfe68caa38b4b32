import WireSchema.Proofs.HostRelations
import WireSchema.Proofs.PlainMachine

/-!
# Worlds as machines

A machine without links that grants every request does what a world does: same results, same files,
same input and output (`Mirrors`). This holds of every operation of a host, so it holds of a whole
run of `writeFiles` (`Mirrors.writeFiles`). What is proved of all machines is thereby proved of
worlds.
-/

namespace WireSchema

variable {policy : Policy} {α β : Type}

/-- On a machine without links a computation does what another one does in a world. -/
def Mirrors (x : StateM (Machine policy) α) (y : StateM World α) : Prop :=
  ∀ w clock, ∃ clock', x (.ofWorld w clock) = ((y w).1, .ofWorld (y w).2 clock')

namespace Mirrors

theorem pure (a : α) :
    Mirrors (Pure.pure a : StateM (Machine policy) α) (Pure.pure a) :=
  fun _ clock => ⟨clock, rfl⟩

/-- Computations that mirror each other can be put together. -/
theorem bind {x : StateM (Machine policy) α} {y : StateM World α}
    {next : α → StateM (Machine policy) β} {next' : α → StateM World β} (h : Mirrors x y)
    (hnext : ∀ a, Mirrors (next a) (next' a)) : Mirrors (x >>= next) (y >>= next') := by
  intro w clock
  obtain ⟨clock₁, hx⟩ := h w clock
  obtain ⟨clock₂, hrest⟩ := hnext (y w).1 (y w).2 clock₁
  refine ⟨clock₂, ?_⟩
  rw [run_bind, hx]
  exact hrest

/-! ## Operations -/

theorem holds_ofWorld (w : World) (clock : Nat) :
    (Machine.ofWorld w clock : Machine policy).Holds w.files :=
  ⟨rfl, rfl, rfl⟩

/-- Looking at the files of a machine without links is looking at a file system. -/
theorem look (hgranting : policy.Granting) (p : Path) (refusal : FileError → α)
    {f : Machine policy → α} {g : FileSystem → α}
    (h : ∀ {m : Machine policy} {fs}, m.Holds fs → f m = g fs) :
    Mirrors (Machine.look p refusal f) (World.look g) := by
  intro w clock
  refine ⟨clock + 1, ?_⟩
  unfold Machine.look
  rw [hgranting]
  exact congrArg (·, _) (h (holds_ofWorld w clock))

/-- A change that is granted. -/
theorem settle (w : World) (clock : Nat) {f : Machine policy → Except FileError (Machine policy)}
    {g : FileSystem → Except FileError FileSystem}
    (h : ∀ {m : Machine policy} {fs}, m.Holds fs → f m = (g fs).map m.withFiles) :
    (Machine.ofWorld w clock).settle (.ok ()) (f (.ofWorld w clock)) =
      ((World.change g w).1, .ofWorld (World.change g w).2 (clock + 1)) := by
  rw [h (holds_ofWorld w clock)]
  unfold World.change
  cases g w.files <;> rfl

/-- A change that is granted is the change of a file system. -/
theorem change (hgranting : policy.Granting) (request : Request)
    {f : Machine policy → Except FileError (Machine policy)}
    {g : FileSystem → Except FileError FileSystem}
    (h : ∀ {m : Machine policy} {fs}, m.Holds fs → f m = (g fs).map m.withFiles) :
    Mirrors (Machine.change request f) (World.change g) := by
  intro w clock
  refine ⟨clock + 1, ?_⟩
  unfold Machine.change
  rw [hgranting]
  exact settle w clock h

section

variable (hgranting : policy.Granting)
include hgranting

/-- A file is read, or it is not, for the same reason. -/
theorem readFile (p : Path) :
    Mirrors (Host.readFile p : StateM (Machine policy) _) (Host.readFile p) := by
  refine look hgranting p _ fun {m fs} h => ?_
  rw [h.lookup]
  rfl

theorem isPresent (p : Path) :
    Mirrors (Host.isPresent p : StateM (Machine policy) _) (Host.isPresent p) :=
  look hgranting p _ fun h => congrArg Except.isOk (h.lookup p)

/-- A path names a directory on both sides or on neither. -/
theorem isDirectory (p : Path) :
    Mirrors (Host.isDirectory p : StateM (Machine policy) _) (Host.isDirectory p) := by
  refine look hgranting p _ fun {m fs} h => ?_
  rw [h.lookup]
  unfold FileSystem.isDirectory
  rcases fs.lookup p with e | _ | contents <;> rfl

theorem createDirectory (p : Path) :
    Mirrors (Host.createDirectory p : StateM (Machine policy) _) (Host.createDirectory p) :=
  change hgranting _ fun h => h.createDirectory p

/-- A write that is granted is never cut. -/
theorem writeFile (p : Path) (contents : ByteArray) :
    Mirrors (Host.writeFile p contents : StateM (Machine policy) _)
      (Host.writeFile p contents) := by
  intro w clock
  refine ⟨clock + 1, ?_⟩
  change Machine.write p contents _ = _
  unfold Machine.write
  rw [hgranting]
  exact settle w clock fun h => h.writeFile p contents

theorem removeFile (p : Path) :
    Mirrors (Host.removeFile p : StateM (Machine policy) _) (Host.removeFile p) :=
  change hgranting _ fun h => h.removeFile p

theorem rename (source target : Path) :
    Mirrors (Host.rename source target : StateM (Machine policy) _)
      (Host.rename source target) :=
  change hgranting _ fun h => h.rename source target

end

theorem readLine : Mirrors (Host.readLine : StateM (Machine policy) _) Host.readLine :=
  fun _ clock => ⟨clock, rfl⟩

theorem print (text : String) :
    Mirrors (Host.print text : StateM (Machine policy) _) (Host.print text) :=
  fun _ clock => ⟨clock, rfl⟩

theorem report (line : String) :
    Mirrors (Host.report line : StateM (Machine policy) _) (Host.report line) :=
  fun _ clock => ⟨clock, rfl⟩

/-! ## Runs -/

/-- Machines that grant everything are related to worlds. -/
theorem hostRelation (hgranting : policy.Granting) :
    HostRelation fun α (x : StateM (Machine policy) α) (y : StateM World α) => Mirrors x y where
  pure := pure
  bind := bind
  readFile := readFile hgranting
  isPresent := isPresent hgranting
  isDirectory := isDirectory hgranting
  createDirectory := createDirectory hgranting
  writeFile := writeFile hgranting
  removeFile := removeFile hgranting
  rename := rename hgranting
  readLine := readLine
  print := print
  report := report

/-- **A run on a machine that grants everything is a run in a world.** -/
theorem writeFiles (hgranting : policy.Granting) (verbose : Bool) (directory : Path)
    (files : List GeneratedFile) (overwrite : Overwrite) :
    Mirrors (WireSchema.writeFiles verbose directory files overwrite : StateM (Machine policy) _)
      (WireSchema.writeFiles verbose directory files overwrite) :=
  (hostRelation hgranting).writeFiles verbose directory files overwrite

end Mirrors

end WireSchema
