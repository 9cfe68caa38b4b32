import WireSchema.Output.Staging

/-!
# Relations between hosts

The functions of a run are written for any host, so they can tell two hosts apart by nothing but the
operations. A relation between the computations of two hosts that holds of every operation, and is
kept when computations are put together (`HostRelation`), therefore holds of a whole run of
`writeFiles` (`HostRelation.writeFiles`).
-/

namespace WireSchema

variable {m n : Type → Type} [Monad m] [Monad n] [Host m] [Host n]

/-- A relation that holds of the operations of two hosts and of what is put together from them. -/
structure HostRelation (R : (α : Type) → m α → n α → Prop) : Prop where
  pure : ∀ {α : Type} (a : α), R α (Pure.pure a) (Pure.pure a)
  bind : ∀ {α β : Type} {x : m α} {y : n α} {f : α → m β} {g : α → n β},
    R α x y → (∀ a, R β (f a) (g a)) → R β (x >>= f) (y >>= g)
  readFile : ∀ p, R _ (Host.readFile p) (Host.readFile p)
  isPresent : ∀ p, R _ (Host.isPresent p) (Host.isPresent p)
  isDirectory : ∀ p, R _ (Host.isDirectory p) (Host.isDirectory p)
  createDirectory : ∀ p, R _ (Host.createDirectory p) (Host.createDirectory p)
  writeFile : ∀ p contents, R _ (Host.writeFile p contents) (Host.writeFile p contents)
  removeFile : ∀ p, R _ (Host.removeFile p) (Host.removeFile p)
  rename : ∀ source target, R _ (Host.rename source target) (Host.rename source target)
  readLine : R _ Host.readLine Host.readLine
  print : ∀ text, R _ (Host.print text) (Host.print text)
  report : ∀ line, R _ (Host.report line) (Host.report line)

namespace HostRelation

variable {R : (α : Type) → m α → n α → Prop} (h : HostRelation R)
include h

/-- A record is reported, or nothing is done. -/
theorem log (verbose : Bool) (r : LogRecord) :
    R _ (WireSchema.log verbose r) (WireSchema.log verbose r) := by
  cases verbose with
  | false => exact h.pure ()
  | true => exact h.report r.line

/-! ## Questions -/

theorem confirm (p : Path) : R _ (WireSchema.confirm p) (WireSchema.confirm p) :=
  h.bind (h.print _) fun _ => h.bind h.readLine fun _ => h.pure _

/-- The same questions are asked, by induction on the paths. -/
theorem confirmAll (paths : List Path) :
    R _ (WireSchema.confirmAll paths) (WireSchema.confirmAll paths) := by
  induction paths with
  | nil => exact h.pure _
  | cons p paths ih =>
    refine h.bind (h.isPresent p) fun found => ?_
    cases found with
    | false => exact ih
    | true =>
      refine h.bind (h.confirm p) fun answer => ?_
      match answer with
      | .error e => exact h.pure _
      | .ok false => exact h.pure _
      | .ok true => exact ih

/-! ## Directories -/

theorem acceptDirectory (p : Path) (result : Except FileError Unit) :
    R _ (WireSchema.acceptDirectory p result) (WireSchema.acceptDirectory p result) := by
  cases result with
  | ok u => exact h.pure _
  | error e =>
    refine h.bind (h.isDirectory p) fun found => ?_
    cases found <;> exact h.pure _

/-- The same directories are made, by induction on the chain. -/
theorem createChain (chain : List Path) :
    R _ (WireSchema.createChain chain) (WireSchema.createChain chain) := by
  induction chain with
  | nil => exact h.pure _
  | cons p above ih =>
    unfold WireSchema.createChain
    by_cases hempty : p.text.isEmpty = true
    · rw [if_pos hempty, if_pos hempty]
      exact h.pure _
    rw [if_neg hempty, if_neg hempty]
    refine h.bind (h.createDirectory p) fun result => ?_
    split
    · refine h.bind ih fun above => ?_
      cases above with
      | error e => exact h.pure _
      | ok u => exact h.bind (h.createDirectory p) (h.acceptDirectory p)
    · exact h.acceptDirectory p _

/-! ## Files -/

theorem stage (destination : Path) (contents : String) :
    R _ (WireSchema.stage destination contents) (WireSchema.stage destination contents) := by
  refine h.bind (h.writeFile _ _) fun result => ?_
  cases result with
  | ok u => exact h.pure _
  | error e => exact h.bind (h.removeFile _) fun _ => h.pure _

/-- The same staged files are removed. -/
theorem discard (staged : List Staged) :
    R _ (WireSchema.discard staged) (WireSchema.discard staged) := by
  induction staged with
  | nil => exact h.pure _
  | cons s staged ih => exact h.bind (h.removeFile _) fun _ => ih

/-- The same files are staged, up to the same failure. -/
theorem stageAll (staged : List Staged) (files : List (Path × String)) :
    R _ (WireSchema.stageAll staged files) (WireSchema.stageAll staged files) := by
  induction files generalizing staged with
  | nil => exact h.pure _
  | cons file files ih =>
    refine h.bind (h.stage file.1 file.2) fun result => ?_
    cases result with
    | ok s => exact ih (staged ++ [s])
    | error e => exact h.bind (h.discard staged) fun _ => h.pure _

/-- The same files are moved, up to the same failure. -/
theorem commitAll (verbose : Bool) (staged : List Staged) :
    R _ (WireSchema.commitAll verbose staged) (WireSchema.commitAll verbose staged) := by
  induction staged with
  | nil => exact h.pure _
  | cons s staged ih =>
    refine h.bind (h.rename _ _) fun result => ?_
    cases result with
    | ok u => exact h.bind (h.log verbose _) fun _ => ih
    | error e => exact h.bind (h.discard (s :: staged)) fun _ => h.pure _

/-- **What holds of every operation holds of a whole run.** -/
theorem writeFiles (verbose : Bool) (directory : Path) (files : List GeneratedFile)
    (overwrite : Overwrite) :
    R _ (WireSchema.writeFiles verbose directory files overwrite)
      (WireSchema.writeFiles verbose directory files overwrite) := by
  have hasked (paths : List Path) : R (Except RunFailure Unit)
      (if overwrite = .ask then WireSchema.confirmAll paths else Pure.pure (.ok ()))
      (if overwrite = .ask then WireSchema.confirmAll paths else Pure.pure (.ok ())) := by
    split
    · exact h.confirmAll paths
    · exact h.pure _
  -- each of the four stages is followed by the next one, or by nothing if it fails
  refine h.bind (hasked _) fun result => ?_
  cases result with
  | error e => exact h.pure _
  | ok u =>
    refine h.bind (h.createChain directory.ancestors) fun result => ?_
    cases result with
    | error e => exact h.pure _
    | ok u =>
      refine h.bind (h.stageAll _ _) fun result => ?_
      cases result with
      | error e => exact h.pure _
      | ok staged =>
        refine h.bind (h.commitAll verbose staged) fun result => ?_
        cases result <;> exact h.pure _

end HostRelation

end WireSchema
