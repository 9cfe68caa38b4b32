import WireSchema.Schema.Compile

/-!
# The two error modes

A run that stops at its first diagnostic and a run that collects all of them are the same run as far
as the first one goes. Each of the three stages has its own way of stopping early: the tokens of a
text and the checks of declarations report everything and are cut afterwards, while reading
declarations leaves its loop. For each stage the fail-fast result is the collected one with its
report cut to the first diagnostic (`Report.inMode`), and this passes through the sequence of the
stages, because a stage that fails hides the ones behind it in both modes.
-/

namespace WireSchema

/-! ## Cutting a report -/

theorem Report.inMode_inMode (mode : ErrorMode) (r : Report) :
    (r.inMode mode).inMode .failFast = r.inMode .failFast := by
  cases mode <;> rfl

/-- A result whose report is cut to what a mode shows. -/
def inMode {α : Type} (mode : ErrorMode) (result : Except Report α) : Except Report α :=
  result.mapError (·.inMode mode)

theorem inMode_inMode {α : Type} (mode : ErrorMode) (result : Except Report α) :
    inMode .failFast (inMode mode result) = inMode .failFast result := by
  cases result with
  | ok a => rfl
  | error r => exact congrArg Except.error (r.inMode_inMode mode)

/-- A sequence of two stages is cut by cutting both. -/
theorem inMode_bind {α β : Type} (mode : ErrorMode) (result : Except Report α)
    (next : α → Except Report β) :
    inMode mode (result >>= next) = inMode mode result >>= fun a => inMode mode (next a) := by
  cases result <;> rfl

theorem inMode_guard {α : Type} (a : α) (ds : List Diagnostic) :
    inMode .failFast (Report.guard a ds) = Report.guard a (ds.take 1) := by
  cases ds <;> rfl

theorem inMode_eq_ok_iff {α : Type} {mode : ErrorMode} {result : Except Report α} {a : α} :
    inMode mode result = .ok a ↔ result = .ok a := by
  cases result with
  | ok b => exact Iff.rfl
  | error r => exact iff_of_false nofun nofun

/-! ## The stages -/

/-- **What is read before the first failure** does not depend on the mode, and the first failure is
all that a fail-fast run has. -/
theorem Parser.declarations_failFast (mode : ErrorMode) (ts : List Token) :
    (declarations .failFast ts).2 = (declarations mode ts).2.take 1 ∧
      ((declarations mode ts).2 = [] → declarations .failFast ts = declarations mode ts) := by
  fun_induction declarations mode ts with
  | case1 => simp
  | case2 mode t ts d rest hrun _ ds fs hrec ih =>
    obtain ⟨hfs, hds⟩ := ih
    rw [hrec] at hfs hds
    rw [declarations_of_ok hrun]
    refine ⟨hfs, fun hnone => ?_⟩
    rw [hds hnone]
  | case3 t ts f hrun =>
    rw [declarations_failFast_of_error hrun]
    exact ⟨rfl, nofun⟩
  | case4 t ts f hrun =>
    -- what recovery finds behind the failure is cut off
    rw [declarations_failFast_of_error hrun]
    exact ⟨rfl, nofun⟩

theorem Written.ofTokens_failFast (stream : TokenStream) :
    Written.ofTokens .failFast stream = inMode .failFast (Written.ofTokens .collect stream) := by
  obtain ⟨hfs, hds⟩ := Parser.declarations_failFast .collect stream.tokens
  simp only [Written.ofTokens, inMode_guard]
  cases hcollect : (Parser.declarations .collect stream.tokens).2 with
  | nil =>
    rw [hds hcollect, hcollect]
    rfl
  | cons f fs =>
    rw [hfs, hcollect]
    rfl

theorem Schema.ofDeclarations_failFast (ds : List Written.Declaration) :
    Schema.ofDeclarations .failFast ds = inMode .failFast (Schema.ofDeclarations .collect ds) :=
  (inMode_inMode .collect _).symm

/-- **The fail-fast result is the collected one, cut to its first diagnostic.** -/
theorem Schema.ofText_failFast (text : String) :
    Schema.ofText .failFast text = inMode .failFast (Schema.ofText .collect text) := by
  change (inMode .failFast (TokenStream.ofText text) >>= fun stream =>
      Written.ofTokens .failFast stream >>= Schema.ofDeclarations .failFast) =
    inMode .failFast (inMode .collect (TokenStream.ofText text) >>= fun stream =>
      Written.ofTokens .collect stream >>= Schema.ofDeclarations .collect)
  simp only [inMode_bind, inMode_inMode, ← Written.ofTokens_failFast,
    ← Schema.ofDeclarations_failFast]

/-- **The two modes agree on every text**: they accept the same texts with the same schema, and on
any other text the collected diagnostics are not empty and the first of them is all that fail-fast
reports. -/
theorem Schema.ofText_modes_agree (text : String) :
    (∀ s, Schema.ofText .failFast text = .ok s ↔ Schema.ofText .collect text = .ok s) ∧
      ∀ r, Schema.ofText .collect text = .error r →
        ∃ d ds, r.diagnostics = d :: ds ∧
          (∃ r', Schema.ofText .failFast text = .error r' ∧ r'.diagnostics = [d]) ∧
          Schema.ofTextOrFirst text = .error d := by
  unfold Schema.ofTextOrFirst
  rw [Schema.ofText_failFast]
  refine ⟨fun s => inMode_eq_ok_iff, fun r hr => ?_⟩
  rw [hr]
  exact ⟨r.first, r.others, rfl, ⟨_, rfl, rfl⟩, rfl⟩

end WireSchema
