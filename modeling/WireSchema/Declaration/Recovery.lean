import WireSchema.Declaration.Parser

/-!
# Declarations of a whole text

Reads declarations until the tokens run out. In collecting mode a broken declaration is skipped up
to its closing brace or semicolon, or up to what looks like the start of the next declaration, and
reading goes on there; otherwise the first failure ends the run.
-/

namespace WireSchema

namespace Parser

/-! ## Resuming after a failure -/

/-- How many more braces are opened than closed. The number has no bound of its own; it cannot
exceed the number of tokens. -/
def braceBalance (ts : List Token) : Int :=
  ts.foldl (fun depth t =>
    if t.isSymbol "\x7b" then depth + 1 else if t.isSymbol "\x7d" then depth - 1 else depth) 0

/-- The tokens without a leading semicolon. -/
def dropSemicolon : List Token → List Token
  | [] => []
  | t :: ts => if t.isSymbol ";" then ts else t :: ts

/-- Do the tokens look like the start of a declaration: a keyword and an identifier? -/
def startsDeclaration : List Token → Bool
  | t :: u :: _ => (Keyword.ofToken? t).isSome && u.isIdentifier
  | _ => false

/-- Skips the rest of a broken declaration that is inside `depth` braces: outside all braces to
after a semicolon or to the start of a declaration, otherwise to after the closing brace. Depths are
counted without a bound, too. -/
def skip (depth : Nat) : List Token → List Token
  | [] => []
  | t :: ts =>
    if depth = 0 && t.isSymbol ";" then ts
    else if depth = 0 && startsDeclaration (t :: ts) then t :: ts
    else if t.isSymbol "\x7b" then skip (depth + 1) ts
    else if t.isSymbol "\x7d" then
      if depth ≤ 1 then dropSemicolon ts else skip (depth - 1) ts
    else skip depth ts

/-- The place of a failure, or the place after the first token if the failure is there. -/
def passOne (start stop : List Token) : List Token :=
  if stop.length = start.length then stop.tail else stop

/-- Skips from `stop` on, inside the braces that the tokens of `start` before it leave open. If they
close more braces than they open, nothing is skipped. -/
def skipFrom (start stop : List Token) : List Token :=
  let balance := braceBalance (start.take (start.length - stop.length))
  if balance < 0 then stop else skip balance.toNat stop

/-- Where reading resumes after a declaration that starts at `start` failed at `stop`. -/
def resume (start stop : List Token) : List Token :=
  skipFrom start (passOne start stop)

theorem dropSemicolon_suffix (ts : List Token) : dropSemicolon ts <:+ ts := by
  fun_cases dropSemicolon ts with
  | case1 => exact List.suffix_refl _
  | case2 => exact List.suffix_cons _ _
  | case3 => exact List.suffix_refl _

theorem skip_suffix (depth : Nat) (ts : List Token) : skip depth ts <:+ ts := by
  fun_induction skip depth ts with
  | case1 => exact List.suffix_refl _
  | case2 => exact List.suffix_cons _ _
  | case3 => exact List.suffix_refl _
  | case4 _ _ _ _ _ _ ih => exact ih.trans (List.suffix_cons _ _)
  | case5 => exact (dropSemicolon_suffix _).trans (List.suffix_cons _ _)
  | case6 _ _ _ _ _ _ _ _ ih => exact ih.trans (List.suffix_cons _ _)
  | case7 _ _ _ _ _ _ _ ih => exact ih.trans (List.suffix_cons _ _)

theorem skipFrom_suffix (start stop : List Token) : skipFrom start stop <:+ stop := by
  unfold skipFrom
  simp only
  split
  · exact List.suffix_refl _
  · exact skip_suffix _ _

theorem passOne_length {start stop : List Token} (h : stop <:+ start) (ne : start ≠ []) :
    (passOne start stop).length < start.length := by
  have hle := h.length_le
  have hpos := List.length_pos_iff.2 ne
  unfold passOne
  split
  · simp only [List.length_tail]; omega
  · omega

theorem resume_length {start stop : List Token} (h : stop <:+ start) (ne : start ≠ []) :
    (resume start stop).length < start.length :=
  Nat.lt_of_le_of_lt (skipFrom_suffix _ _).length_le (passOne_length h ne)

/-! ## All declarations -/

/-- The declarations that the tokens form, and the failures on the way. -/
def declarations (mode : ErrorMode) (ts : List Token) : List Written.Declaration × List Failure :=
  match ts with
  | [] => ([], [])
  | t :: tail =>
    match h : declaration.run (t :: tail) with
    | .ok (d, rest) =>
      have : rest.length < (t :: tail).length := by
        have := declaration_advances (t :: tail)
        rw [h] at this
        exact this.2
      let (ds, fs) := declarations mode rest
      (d :: ds, fs)
    | .error f =>
      match mode with
      | .failFast => ([], [f])
      | .collect =>
        have : (resume (t :: tail) f.rest).length < (t :: tail).length := by
          have := declaration_advances (t :: tail)
          rw [h] at this
          exact resume_length this (by simp)
        let (ds, fs) := declarations .collect (resume (t :: tail) f.rest)
        (ds, f :: fs)
termination_by ts.length
decreasing_by all_goals assumption

@[simp] theorem declarations_nil (mode : ErrorMode) : declarations mode [] = ([], []) := by
  rw [declarations]

/-- A declaration that is read is the first of them, in either mode. -/
theorem declarations_of_ok {mode : ErrorMode} {t : Token} {ts rest : List Token}
    {d : Written.Declaration} (h : declaration.run (t :: ts) = .ok (d, rest)) :
    declarations mode (t :: ts) =
      (d :: (declarations mode rest).1, (declarations mode rest).2) := by
  rw [declarations]
  split
  · rename_i d' rest' h'
    obtain ⟨rfl, rfl⟩ := Prod.mk.inj (Except.ok.inj (h.symm.trans h'))
    rfl
  · rename_i f h'
    cases h.symm.trans h'

/-- The first failure ends a run that does not collect. -/
theorem declarations_failFast_of_error {t : Token} {ts : List Token} {f : Failure}
    (h : declaration.run (t :: ts) = .error f) : declarations .failFast (t :: ts) = ([], [f]) := by
  rw [declarations]
  split
  · rename_i h'
    cases h.symm.trans h'
  · rename_i f' h'
    obtain rfl := Except.error.inj (h.symm.trans h')
    rfl

/-- A run that collects goes on behind a failure. -/
theorem declarations_collect_of_error {t : Token} {ts : List Token} {f : Failure}
    (h : declaration.run (t :: ts) = .error f) :
    declarations .collect (t :: ts) =
      ((declarations .collect (resume (t :: ts) f.rest)).1,
        f :: (declarations .collect (resume (t :: ts) f.rest)).2) := by
  rw [declarations]
  split
  · rename_i h'
    cases h.symm.trans h'
  · rename_i f' h'
    obtain rfl := Except.error.inj (h.symm.trans h')
    rfl

end Parser

/-- The diagnostic of a failure in a text that ends at `finish`. -/
def Failure.diagnostic (finish : Location) (f : Failure) : Diagnostic :=
  ⟨.syntactic f.fault, (f.rest.head?.map Token.location).getD finish⟩

/-- The declarations that the tokens of a text form. -/
def Written.ofTokens (mode : ErrorMode) (stream : TokenStream) :
    Except Report (List Written.Declaration) :=
  let (ds, fs) := Parser.declarations mode stream.tokens
  Report.guard ds (fs.map (Failure.diagnostic stream.finish))

end WireSchema
