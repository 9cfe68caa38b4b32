import Mathlib.Tactic.SplitIfs
import WireSchema.Schema.Compile

/-!
# Moving text does not change what it means

Tokens, declarations, schemas and diagnostics carry locations. **Relocating** one of them applies a
function to all of its locations. Reading declarations and binding names never look at a location,
so they commute with relocation: what relocated tokens become is what the tokens become, relocated
(`Schema.ofStream_relocate`). With a constant function this says that a result is determined, up to
its locations, by the kinds and spellings of the tokens.
-/

namespace WireSchema

variable (g : Location → Location)

/-! ## Relocating values -/

@[simp] def Token.relocate (t : Token) : Token :=
  { t with location := g t.location }

@[simp] def SyntaxFault.relocate : SyntaxFault → SyntaxFault
  | .unexpectedToken expected found => .unexpectedToken expected (found.map (Token.relocate g))
  | fault => fault

@[simp] def SemanticFault.relocate : SemanticFault → SemanticFault
  | .duplicateDeclaration name first => .duplicateDeclaration name (g first)
  | fault => fault

@[simp] def Fault.relocate : Fault → Fault
  | .syntactic fault => .syntactic (fault.relocate g)
  | .semantic fault => .semantic (fault.relocate g)

@[simp] def Diagnostic.relocate (d : Diagnostic) : Diagnostic :=
  { fault := d.fault.relocate g, location := g d.location }

@[simp] def Report.relocate (r : Report) : Report :=
  { first := r.first.relocate g, others := r.others.map (Diagnostic.relocate g) }

@[simp] def Failure.relocate (f : Failure) : Failure :=
  { fault := f.fault.relocate g, rest := f.rest.map (Token.relocate g) }

namespace Written

@[simp] def ProtocolName.relocate (n : ProtocolName) : ProtocolName :=
  { n with location := g n.location }

@[simp] def Constant.relocate (c : Constant) : Constant :=
  { c with location := g c.location }

@[simp] def Variant.relocate (v : Variant) : Variant :=
  { v with location := g v.location }

@[simp] def Enum.relocate (e : Enum) : Enum :=
  { e with variants := e.variants.map (Variant.relocate g), location := g e.location }

@[simp] def Modifier.relocate (m : Modifier) : Modifier :=
  { m with location := g m.location }

@[simp] def Field.relocate (f : Field) : Field :=
  { f with
    modifiers := f.modifiers.map (Modifier.relocate g)
    typeLocation := g f.typeLocation
    tagLocation := g f.tagLocation
    location := g f.location }

@[simp] def Message.relocate (m : Message) : Message :=
  { m with fields := m.fields.map (Field.relocate g), location := g m.location }

@[simp] def Declaration.relocate : Declaration → Declaration
  | .name n => .name (n.relocate g)
  | .constant c => .constant (c.relocate g)
  | .enum e => .enum (e.relocate g)
  | .message m => .message (m.relocate g)

end Written

@[simp] def Field.relocate (f : Field) : Field :=
  { f with location := g f.location }

@[simp] def Message.relocate (m : Message) : Message :=
  { m with fields := m.fields.map (Field.relocate g), location := g m.location }

@[simp] def Variant.relocate (v : Variant) : Variant :=
  { v with location := g v.location }

@[simp] def Enum.relocate (e : Enum) : Enum :=
  { e with variants := e.variants.map (Variant.relocate g), location := g e.location }

@[simp] def Constant.relocate (c : Constant) : Constant :=
  { c with location := g c.location }

@[simp] def Schema.relocate (s : Schema) : Schema :=
  { s with
    messages := s.messages.map (Message.relocate g)
    enums := s.enums.map (Enum.relocate g)
    constants := s.constants.map (Constant.relocate g) }

@[simp] def TokenStream.relocate (stream : TokenStream) : TokenStream :=
  { tokens := stream.tokens.map (Token.relocate g), finish := g stream.finish }

/-! ## Parsers -/

namespace Parser

variable {g} {α β γ δ : Type}

/-- What a parser did, with the value mapped and everything else relocated. -/
def relocateRun (g : Location → Location) (f : α → β) :
    Except Failure (α × List Token) → Except Failure (β × List Token)
  | .ok (a, rest) => .ok (f a, rest.map (Token.relocate g))
  | .error e => .error (e.relocate g)

/-- On relocated tokens `q` does what `p` does on the tokens. -/
def Mirrors (g : Location → Location) (f : α → β) (p : Parser α) (q : Parser β) : Prop :=
  ∀ ts, q.run (ts.map (Token.relocate g)) = relocateRun g f (p.run ts)

theorem mirrors_pure {f : α → β} {a : α} {b : β} (h : f a = b) :
    Mirrors g f (pure a) (pure b) := by
  intro ts
  rw [← h]
  rfl

/-- Parsers that mirror each other can be put together. -/
theorem Mirrors.bind {f : α → β} {f' : γ → δ} {p : Parser α} {q : Parser β}
    {next : α → Parser γ} {next' : β → Parser δ} (h : Mirrors g f p q)
    (hnext : ∀ a, Mirrors g f' (next a) (next' (f a))) :
    Mirrors g f' (p >>= next) (q >>= next') := by
  intro ts
  rw [StateT.run_bind, StateT.run_bind, h ts]
  cases p.run ts with
  | error e => rfl
  | ok r => exact hnext r.1 r.2

/-- What a reader of single tokens says, with the value mapped and the fault relocated. -/
def relocateRead (g : Location → Location) (f : α → β) :
    Except SyntaxFault α → Except SyntaxFault β
  | .ok a => .ok (f a)
  | .error fault => .error (fault.relocate g)

/-- Reading one token mirrors itself if what is read from the token does. -/
theorem token_mirrors {expected : Expected} {f : α → β} {read : Token → Except SyntaxFault α}
    {read' : Token → Except SyntaxFault β}
    (h : ∀ t, read' (t.relocate g) = relocateRead g f (read t)) :
    Mirrors g f (token expected read) (token expected read') := by
  intro ts
  cases ts with
  | nil => rfl
  | cons t ts =>
    simp only [List.map_cons, token, StateT.run, h]
    cases read t <;> rfl

/-- A test that does not look at locations accepts a moved token if it accepts the token. -/
theorem accept_mirrors {expected : Expected} {test : Token → Bool}
    (h : ∀ t : Token, test (t.relocate g) = test t) (t : Token) :
    accept expected test (t.relocate g) =
      relocateRead g (Token.relocate g) (accept expected test t) := by
  unfold accept
  rw [h t]
  cases test t <;> rfl

theorem symbol_mirrors (spelling : String) :
    Mirrors g (Token.relocate g) (symbol spelling) (symbol spelling) :=
  token_mirrors (accept_mirrors fun _ => rfl)

theorem identifier_mirrors : Mirrors g (Token.relocate g) identifier identifier :=
  token_mirrors (accept_mirrors fun _ => rfl)

/-- The value of an integer token does not depend on where it stands. -/
theorem integerOf_relocate (expected : Expected) (t : Token) :
    integerOf expected (t.relocate g) = relocateRead g id (integerOf expected t) := by
  obtain ⟨kind, text, location⟩ := t
  cases kind with
  | integer =>
    simp only [integerOf, Token.relocate]
    cases Decimal.readInteger? text <;> rfl
  | _ => rfl

theorem integer_mirrors : Mirrors g (Prod.map id g) integer integer := by
  refine token_mirrors fun t => ?_
  rw [integerOf_relocate]
  cases integerOf .integer t <;> rfl

/-- Whether an optional symbol is there does not depend on locations. -/
theorem optionalSymbol_mirrors (spelling : String) :
    Mirrors g id (optionalSymbol spelling) (optionalSymbol spelling) := by
  intro ts
  cases ts with
  | nil => rfl
  | cons t ts =>
    have hsymbol : (t.relocate g).isSymbol spelling = t.isSymbol spelling := rfl
    simp only [List.map_cons, optionalSymbol, StateT.run, hsymbol]
    cases t.isSymbol spelling <;> rfl

/-- The value of a literal token does not depend on where it stands. -/
theorem literalOf_relocate (t : Token) :
    literalOf (t.relocate g) = relocateRead g id (literalOf t) := by
  obtain ⟨kind, text, location⟩ := t
  cases kind with
  | integer =>
    simp only [literalOf, integerOf, Token.relocate]
    cases Decimal.readInteger? text <;> rfl
  | number =>
    simp only [literalOf, Token.relocate]
    cases Binary64.read? text <;> rfl
  | string =>
    simp only [literalOf, stringOf, Token.relocate]
    cases unescape text.toList.tail.dropLast <;> rfl
  | identifier =>
    unfold literalOf
    by_cases htrue : text = "true"
    · simp [htrue, relocateRead]
    · by_cases hfalse : text = "false"
      · simp [hfalse, relocateRead]
      · simp [htrue, hfalse, relocateRead]
  | symbol => rfl

theorem literal_mirrors : Mirrors g id literal literal :=
  token_mirrors literalOf_relocate

theorem variant_mirrors : Mirrors g (Written.Variant.relocate g) variant variant :=
  identifier_mirrors.bind fun _ => (symbol_mirrors _).bind fun _ => integer_mirrors.bind fun _ =>
    (symbol_mirrors _).bind fun _ => mirrors_pure rfl

/-- Moving tokens moves the modifiers among them and leaves the rest behind them. -/
theorem splitModifiers_relocate (ts : List Token) :
    splitModifiers (ts.map (Token.relocate g)) =
      ((splitModifiers ts).1.map (Written.Modifier.relocate g),
        (splitModifiers ts).2.map (Token.relocate g)) := by
  fun_induction splitModifiers ts with
  | case1 => rfl
  | case2 => rfl
  | case3 t u ts word hword hu ih =>
    have hword' : modifierWord? (t.relocate g) = some word := hword
    have hu' : (u.relocate g).isIdentifier = true := hu
    rw [List.map_cons] at ih
    simp only [List.map_cons, splitModifiers, hword', hu', if_true, ih]
    rfl
  | case4 t u ts word hword hu =>
    have hword' : modifierWord? (t.relocate g) = some word := hword
    have hu' : ¬ (u.relocate g).isIdentifier = true := hu
    simp only [List.map_cons, splitModifiers, hword', hu']
    rfl
  | case5 t u ts hword =>
    have hword' : modifierWord? (t.relocate g) = none := hword
    simp only [List.map_cons, splitModifiers, hword']
    rfl

theorem modifiers_mirrors :
    Mirrors g (List.map (Written.Modifier.relocate g)) modifiers modifiers :=
  fun ts => congrArg Except.ok (splitModifiers_relocate ts)

/-- A moved field is the field, moved. -/
theorem field_mirrors : Mirrors g (Written.Field.relocate g) field field :=
  identifier_mirrors.bind fun _ => (symbol_mirrors _).bind fun _ => modifiers_mirrors.bind fun _ =>
    identifier_mirrors.bind fun _ => (symbol_mirrors _).bind fun _ => integer_mirrors.bind fun _ =>
      (symbol_mirrors _).bind fun _ => mirrors_pure rfl

theorem atClose_relocate (ts : List Token) : atClose (ts.map (Token.relocate g)) = atClose ts := by
  cases ts <;> rfl

/-- If an item mirrors itself, so do the items of a block. -/
theorem items_mirrors {item : Parser α} {advances : Advances item} {f : α → α}
    (h : Mirrors g f item item) :
    Mirrors g (List.map f) (items item advances) (items item advances) := by
  intro ts
  change itemsUntilClose item advances _ = relocateRun g _ (itemsUntilClose item advances ts)
  fun_induction itemsUntilClose item advances ts with
  | case1 ts hclose =>
    rw [itemsUntilClose_of_atClose (by rwa [atClose_relocate]), ← List.map_tail]
    rfl
  | case2 ts hclose e hitem =>
    have hitem' := h ts
    rw [hitem] at hitem'
    exact itemsUntilClose_of_error (by rwa [atClose_relocate]) hitem'
  | case3 ts hclose a rest hitem _ e hrec ih =>
    have hitem' := h ts
    rw [hitem] at hitem'
    rw [itemsUntilClose_of_ok (by rwa [atClose_relocate]) hitem', ih, hrec]
    rfl
  | case4 ts hclose a rest hitem _ as rest' hrec ih =>
    have hitem' := h ts
    rw [hitem] at hitem'
    rw [itemsUntilClose_of_ok (by rwa [atClose_relocate]) hitem', ih, hrec]
    rfl

/-- A keyword keeps its word and moves its location. -/
theorem keyword_mirrors : Mirrors g (Prod.map id g) keyword keyword := by
  refine token_mirrors fun t => ?_
  have hword : Keyword.ofToken? (t.relocate g) = Keyword.ofToken? t := rfl
  rw [hword]
  cases Keyword.ofToken? t <;> rfl

/-- What follows a keyword is moved along with it. -/
theorem body_mirrors (word : Keyword) (location : Location) :
    Mirrors g (Written.Declaration.relocate g) (body word location) (body word (g location)) := by
  cases word with
  | name =>
    exact Mirrors.bind (f := Written.ProtocolName.relocate g)
      (identifier_mirrors.bind fun _ => (symbol_mirrors _).bind fun _ => mirrors_pure rfl)
      fun _ => mirrors_pure rfl
  | const =>
    exact Mirrors.bind (f := Written.Constant.relocate g)
      (identifier_mirrors.bind fun _ => (symbol_mirrors _).bind fun _ =>
        identifier_mirrors.bind fun _ => (symbol_mirrors _).bind fun _ =>
        literal_mirrors.bind fun _ => (symbol_mirrors _).bind fun _ => mirrors_pure rfl)
      fun _ => mirrors_pure rfl
  | enum =>
    exact Mirrors.bind (f := Written.Enum.relocate g)
      (identifier_mirrors.bind fun _ => (symbol_mirrors _).bind fun _ =>
        (items_mirrors variant_mirrors).bind fun _ => (optionalSymbol_mirrors _).bind fun _ =>
        mirrors_pure rfl)
      fun _ => mirrors_pure rfl
  | message =>
    exact Mirrors.bind (f := Written.Message.relocate g)
      (identifier_mirrors.bind fun _ => (symbol_mirrors _).bind fun _ =>
        (items_mirrors field_mirrors).bind fun _ => (optionalSymbol_mirrors _).bind fun _ =>
        mirrors_pure rfl)
      fun _ => mirrors_pure rfl

/-- A moved declaration is the declaration, moved. -/
theorem declaration_mirrors :
    Mirrors g (Written.Declaration.relocate g) declaration declaration :=
  keyword_mirrors.bind fun _ => body_mirrors _ _

/-! ## Resuming after a failure -/

/-- Counting braces takes no notice of locations. -/
theorem braceBalance_relocate (ts : List Token) :
    braceBalance (ts.map (Token.relocate g)) = braceBalance ts := by
  rw [braceBalance, List.foldl_map]
  rfl

/-- A semicolon is passed wherever it stands. -/
theorem dropSemicolon_relocate (ts : List Token) :
    dropSemicolon (ts.map (Token.relocate g)) = (dropSemicolon ts).map (Token.relocate g) := by
  cases ts with
  | nil => rfl
  | cons t ts =>
    have hsymbol : (t.relocate g).isSymbol ";" = t.isSymbol ";" := rfl
    simp only [List.map_cons, dropSemicolon, hsymbol]
    cases t.isSymbol ";" <;> rfl

/-- Whether a declaration starts here does not depend on locations. -/
theorem startsDeclaration_relocate (ts : List Token) :
    startsDeclaration (ts.map (Token.relocate g)) = startsDeclaration ts := by
  rcases ts with _ | ⟨t, _ | ⟨u, ts⟩⟩ <;> rfl

/-- Skipping stops at the same token. -/
theorem skip_relocate (depth : Nat) (ts : List Token) :
    skip depth (ts.map (Token.relocate g)) = (skip depth ts).map (Token.relocate g) := by
  induction ts generalizing depth with
  | nil => rfl
  | cons t ts ih =>
    have hsymbol : ∀ spelling, (t.relocate g).isSymbol spelling = t.isSymbol spelling :=
      fun _ => rfl
    have hstarts := startsDeclaration_relocate (g := g) (t :: ts)
    rw [List.map_cons] at hstarts ⊢
    simp only [skip, hsymbol, hstarts, ih, dropSemicolon_relocate]
    split_ifs <;> rfl

/-- Reading goes on at the same token. -/
theorem resume_relocate (start stop : List Token) :
    resume (start.map (Token.relocate g)) (stop.map (Token.relocate g)) =
      (resume start stop).map (Token.relocate g) := by
  have hpass : passOne (start.map (Token.relocate g)) (stop.map (Token.relocate g)) =
      (passOne start stop).map (Token.relocate g) := by
    simp only [passOne, List.length_map, ← List.map_tail]
    split_ifs <;> rfl
  simp only [resume, skipFrom, hpass, List.length_map, ← List.map_take, braceBalance_relocate,
    skip_relocate]
  split_ifs <;> rfl

/-- **Parsing moved tokens** gives the same declarations and failures, moved. -/
theorem declarations_relocate (mode : ErrorMode) (ts : List Token) :
    declarations mode (ts.map (Token.relocate g)) =
      ((declarations mode ts).1.map (Written.Declaration.relocate g),
        (declarations mode ts).2.map (Failure.relocate g)) := by
  fun_induction declarations mode ts with
  | case1 => simp
  | case2 mode t ts d rest hrun _ ds fs hrec ih =>
    have hrun' := declaration_mirrors (g := g) (t :: ts)
    rw [hrun] at hrun'
    rw [hrec] at ih
    rw [List.map_cons] at hrun' ⊢
    rw [declarations_of_ok hrun', ih]
    rfl
  | case3 t ts f hrun =>
    have hrun' := declaration_mirrors (g := g) (t :: ts)
    rw [hrun] at hrun'
    exact declarations_failFast_of_error hrun'
  | case4 t ts f hrun _ ds fs hrec ih =>
    -- the place to resume at is found by counting tokens, so it moves along
    have hrun' := declaration_mirrors (g := g) (t :: ts)
    rw [hrun] at hrun'
    rw [hrec, ← resume_relocate] at ih
    rw [List.map_cons] at hrun' ih ⊢
    rw [declarations_collect_of_error hrun']
    exact congrArg (fun r => (r.1, f.relocate g :: r.2)) ih

end Parser

/-! ## Reports -/

/-- A result with its value mapped and its report relocated. -/
def relocateResult {α β : Type} (f : α → β) : Except Report α → Except Report β
  | .ok a => .ok (f a)
  | .error r => .error (r.relocate g)

/-- A report of moved diagnostics is the moved report. -/
theorem relocateResult_guard {α β : Type} (f : α → β) (a : α) (ds : List Diagnostic) :
    relocateResult g f (Report.guard a ds) =
      Report.guard (f a) (ds.map (Diagnostic.relocate g)) := by
  cases ds <;> rfl

/-- Stages that keep step with a move can be put together. -/
theorem relocateResult_bind {α β γ δ : Type} {f : α → β} {f' : γ → δ} {result : Except Report α}
    {next : α → Except Report γ} {next' : β → Except Report δ}
    (h : ∀ a, next' (f a) = relocateResult g f' (next a)) :
    relocateResult g f result >>= next' = relocateResult g f' (result >>= next) := by
  cases result with
  | ok a => exact h a
  | error r => rfl

/-- The diagnostic of a moved failure is the moved diagnostic. -/
theorem Failure.diagnostic_relocate (finish : Location) (f : Failure) :
    (f.relocate g).diagnostic (g finish) = (f.diagnostic finish).relocate g := by
  obtain ⟨fault, rest⟩ := f
  cases rest <;> rfl

/-- The declarations of a moved stream are those of the stream, moved. -/
theorem Written.ofTokens_relocate (mode : ErrorMode) (stream : TokenStream) :
    Written.ofTokens mode (stream.relocate g) =
      relocateResult g (List.map (Written.Declaration.relocate g))
        (Written.ofTokens mode stream) := by
  simp only [Written.ofTokens, TokenStream.relocate, Parser.declarations_relocate,
    relocateResult_guard, List.map_map]
  congr 2
  funext f
  exact f.diagnostic_relocate g stream.finish

namespace Resolve

variable {σ α β : Type}

/-! ## Checks -/

/-- What happened to an item, with a kept item mapped and a diagnostic relocated. -/
def Outcome.relocate (f : β → β) : Outcome β → Outcome β
  | .ok b => .ok (f b)
  | .error d => .error (d.relocate g)

/-- Moving outcomes moves what is kept of them. -/
theorem kept_relocate (f : β → β) (rs : List (Outcome β)) :
    kept (rs.map (Outcome.relocate g f)) = (kept rs).map f := by
  induction rs with
  | nil => rfl
  | cons r rs ih =>
    cases r with
    | ok b => exact congrArg (f b :: ·) ih
    | error d => exact ih

/-- Moving outcomes moves what they report. -/
theorem reported_relocate (f : β → β) (rs : List (Outcome β)) :
    reported (rs.map (Outcome.relocate g f)) = (reported rs).map (Diagnostic.relocate g) := by
  induction rs with
  | nil => rfl
  | cons r rs ih =>
    cases r with
    | ok b => exact ih
    | error d => exact congrArg (d.relocate g :: ·) ih

/-- A run of a check commutes with relocation if every step does. -/
theorem outcomes_relocate {check check' : σ → α → σ × Outcome β} (state : σ → σ) {item : α → α}
    {f : β → β}
    (h : ∀ st a, check' (state st) (item a) =
      ((state (check st a).1), (check st a).2.relocate g f)) (st : σ) (as : List α) :
    outcomes check' (state st) (as.map item) =
      (outcomes check st as).map (Outcome.relocate g f) := by
  induction as generalizing st with
  | nil => rfl
  | cons a as ih => rw [List.map_cons, outcomes, outcomes, h, List.map_cons, ih]

/-- The state after a run commutes with relocation if every step does. -/
theorem stateAfter_relocate {check check' : σ → α → σ × Outcome β} (state : σ → σ) {item : α → α}
    (h : ∀ st a, (check' (state st) (item a)).1 = state (check st a).1) (st : σ) (as : List α) :
    stateAfter check' (state st) (as.map item) = state (stateAfter check st as) := by
  induction as generalizing st with
  | nil => rfl
  | cons a as ih => rw [List.map_cons, stateAfter, stateAfter, h, ih]

/-- An entry with its location relocated. -/
def NameEntry.relocate (entry : NameEntry) : NameEntry :=
  { entry with location := g entry.location }

/-- A table of names with its locations relocated. -/
def NameTable.relocate (names : NameTable) : NameTable :=
  names.map (Prod.map id (NameEntry.relocate g))

/-- A state with its locations relocated. -/
def DeclarationState.relocate (st : DeclarationState) : DeclarationState :=
  { st with names := NameTable.relocate g st.names }

theorem lookup_map_snd {ι ν : Type} [BEq ι] (f : ν → ν) (key : ι) (table : List (ι × ν)) :
    (table.map (Prod.map id f)).lookup key = (table.lookup key).map f := by
  induction table with
  | nil => rfl
  | cons e table ih =>
    obtain ⟨k, v⟩ := e
    rw [List.map_cons, List.lookup_cons, Prod.map_apply, List.lookup_cons, id]
    cases key == k with
    | true => rfl
    | false => exact ih

/-- A table with moved entries has the same names. -/
theorem NameTable.lookup_relocate (names : NameTable) (name : String) :
    (NameTable.relocate g names).lookup name = (names.lookup name).map (NameEntry.relocate g) :=
  lookup_map_snd (NameEntry.relocate g) name names

/-- Whether a name is free does not depend on locations; the clash that is reported moves along. -/
theorem checkName_relocate (st : DeclarationState) (name : String) (entry : NameEntry)
    (d : Written.Declaration) :
    checkName (st.relocate g) name (entry.relocate g) (d.relocate g) =
      ((checkName st name entry d).1.relocate g,
        (checkName st name entry d).2.relocate g (Written.Declaration.relocate g)) := by
  unfold checkName
  cases (Primitive.ofName? name).isSome with
  | true => rfl
  | false =>
    have hlookup : (st.relocate g).names.lookup name =
        (st.names.lookup name).map (NameEntry.relocate g) :=
          NameTable.lookup_relocate g st.names name
    have henter : (st.relocate g).enter name (entry.relocate g) =
        (st.enter name entry).relocate g := by
      obtain ⟨location, slot⟩ := entry
      cases slot <;> rfl
    rw [hlookup, henter]
    cases st.names.lookup name <;> rfl

/-- Checking a moved declaration moves the state and the outcome. -/
theorem checkDeclaration_relocate (st : DeclarationState) (d : Written.Declaration) :
    checkDeclaration (st.relocate g) (d.relocate g) =
      ((checkDeclaration st d).1.relocate g,
        (checkDeclaration st d).2.relocate g (Written.Declaration.relocate g)) := by
  cases d with
  | name n =>
    obtain ⟨named, names⟩ := st
    cases named <;> rfl
  | constant c => exact checkName_relocate g st c.name ⟨c.location, .constant⟩ (.constant c)
  | enum e => exact checkName_relocate g st e.name ⟨e.location, .enum st.enums⟩ (.enum e)
  | message m =>
    exact checkName_relocate g st m.name ⟨m.location, .message st.messages⟩ (.message m)

/-- Declarations by kind with their locations relocated. -/
def Sorted.relocate (declared : Sorted) : Sorted :=
  { names := declared.names.map (Written.ProtocolName.relocate g)
    constants := declared.constants.map (Written.Constant.relocate g)
    enums := declared.enums.map (Written.Enum.relocate g)
    messages := declared.messages.map (Written.Message.relocate g) }

/-- Moving declarations does not change how they are sorted by kind. -/
theorem Sorted.ofDeclarations_relocate (ds : List Written.Declaration) :
    Sorted.ofDeclarations (ds.map (Written.Declaration.relocate g)) =
      (Sorted.ofDeclarations ds).relocate g := by
  simp only [Sorted.ofDeclarations, Sorted.relocate, List.filterMap_map, List.map_filterMap,
    Sorted.mk.injEq]
  refine ⟨?_, ?_, ?_, ?_⟩ <;>
  · congr 1
    funext d
    cases d <;> rfl

/-- The outcomes of moved declarations are the outcomes, moved. -/
theorem declarationOutcomes_relocate (ds : List Written.Declaration) :
    declarationOutcomes (ds.map (Written.Declaration.relocate g)) =
      (declarationOutcomes ds).map (Outcome.relocate g (Written.Declaration.relocate g)) :=
  outcomes_relocate g (DeclarationState.relocate g) (checkDeclaration_relocate g) {} ds

theorem declaredOf_relocate (ds : List Written.Declaration) :
    declaredOf (ds.map (Written.Declaration.relocate g)) = (declaredOf ds).relocate g := by
  rw [declaredOf, declarationOutcomes_relocate, kept_relocate, Sorted.ofDeclarations_relocate]
  rfl

/-- **The table of names commutes with relocation.** -/
theorem namesOf_relocate (ds : List Written.Declaration) :
    namesOf (ds.map (Written.Declaration.relocate g)) = NameTable.relocate g (namesOf ds) :=
  congrArg DeclarationState.names (stateAfter_relocate (DeclarationState.relocate g)
    (fun st d => congrArg Prod.fst (checkDeclaration_relocate g st d)) {} ds)

/-- A moved variant is judged as it was. -/
theorem checkVariant_relocate (enum : String) (st : VariantState) (v : Written.Variant) :
    checkVariant enum st (v.relocate g) =
      ((checkVariant enum st v).1, (checkVariant enum st v).2.relocate g (Variant.relocate g)) := by
  unfold checkVariant
  by_cases hlabel : v.label ∈ st.labels
  · simp [hlabel, report, Outcome.relocate]
  · cases hfits : fitsEnum v.value with
    | false => simp [hlabel, hfits, report, Outcome.relocate]
    | true =>
      cases hvalue : st.values.lookup v.value <;>
        simp [hlabel, hfits, hvalue, report, Outcome.relocate]

theorem variantOutcomes_relocate (e : Written.Enum) :
    variantOutcomes (e.relocate g) =
      (variantOutcomes e).map (Outcome.relocate g (Variant.relocate g)) :=
  outcomes_relocate g id (checkVariant_relocate g e.name) {} e.variants

/-- A moved enum resolves to the enum, moved. -/
theorem resolveEnum_relocate (e : Written.Enum) :
    resolveEnum (e.relocate g) = (resolveEnum e).relocate g := by
  rw [resolveEnum, variantOutcomes_relocate, kept_relocate]
  rfl

/-- What a word names does not depend on locations. -/
theorem type?_relocate (names : NameTable) (word : String) :
    type? (NameTable.relocate g names) word = type? names word := by
  rw [type?, NameTable.lookup_relocate, type?]
  cases Primitive.ofName? word with
  | some p => rfl
  | none => cases names.lookup word <;> rfl

/-- The modifier of a field does not depend on where its words stand. -/
theorem modifierOf_relocate (message : String) (f : Written.Field) :
    modifierOf message (f.relocate g) = (modifierOf message f).relocate g id := by
  obtain ⟨name, modifiers, type, typeLocation, tag, tagLocation, location⟩ := f
  rcases modifiers with _ | ⟨⟨word, loc⟩, _ | ⟨second, rest⟩⟩
  · rfl
  · cases word <;> rfl
  · rfl

/-- A type word stands for the same type wherever it and its declaration are. -/
theorem typeOf_relocate (names : NameTable) (message : String) (f : Written.Field) :
    typeOf (NameTable.relocate g names) message (f.relocate g) =
      (typeOf names message f).relocate g id := by
  simp only [typeOf, Written.Field.relocate, type?_relocate]
  cases type? names f.type <;> rfl

theorem fieldOf_relocate (names : NameTable) (message : String) (f : Written.Field) (tag : Nat) :
    fieldOf (NameTable.relocate g names) message (f.relocate g) tag =
      (fieldOf names message f tag).relocate g (Field.relocate g) := by
  rw [fieldOf, modifierOf_relocate, typeOf_relocate, fieldOf]
  cases modifierOf message f with
  | error d => rfl
  | ok m => cases typeOf names message f <;> rfl

/-- A moved field is judged as it was. -/
theorem checkField_relocate (names : NameTable) (message : String) (st : FieldState)
    (f : Written.Field) :
    checkField (NameTable.relocate g names) message st (f.relocate g) =
      ((checkField names message st f).1,
        (checkField names message st f).2.relocate g (Field.relocate g)) := by
  -- the tables of a message hold tags and names, never locations
  have htag : (f.relocate g).tag = f.tag := rfl
  simp only [checkField, fieldOf_relocate, htag]
  cases tag? f.tag with
  | none => rfl
  | some tag =>
    simp only
    cases st.tags.lookup tag with
    | some other => rfl
    | none =>
      by_cases hname : f.name ∈ st.names
      · simp [hname, report, Outcome.relocate]
      · simp [hname]

theorem fieldOutcomes_relocate (names : NameTable) (m : Written.Message) :
    fieldOutcomes (NameTable.relocate g names) (m.relocate g) =
      (fieldOutcomes names m).map (Outcome.relocate g (Field.relocate g)) :=
  outcomes_relocate g id (checkField_relocate g names m.name) {} m.fields

/-- A moved message resolves to the message, moved. -/
theorem resolveMessage_relocate (names : NameTable) (m : Written.Message) :
    resolveMessage (NameTable.relocate g names) (m.relocate g) =
      (resolveMessage names m).relocate g := by
  rw [resolveMessage, fieldOutcomes_relocate, kept_relocate]
  rfl

/-- A moved constant has the same value. -/
theorem constantOutcome_relocate (c : Written.Constant) :
    constantOutcome (c.relocate g) = (constantOutcome c).relocate g (Constant.relocate g) := by
  simp only [constantOutcome, Written.Constant.relocate]
  cases (Primitive.ofName? c.type).bind fun type => (constantValue? type c.value).map (type, ·) <;>
    rfl

theorem constantOutcomes_relocate (cs : List Written.Constant) :
    (cs.map (Written.Constant.relocate g)).map constantOutcome =
      (cs.map constantOutcome).map (Outcome.relocate g (Constant.relocate g)) := by
  simp only [List.map_map, Function.comp_def, constantOutcome_relocate]

/-! ## Whole schemas -/

/-- **Moved declarations make the schema, moved.** -/
theorem schemaOf_relocate (ds : List Written.Declaration) :
    schemaOf (ds.map (Written.Declaration.relocate g)) = (schemaOf ds).relocate g := by
  have hmessages : ((declaredOf ds).relocate g).messages.map
        (resolveMessage (NameTable.relocate g (namesOf ds))) =
      ((declaredOf ds).messages.map (resolveMessage (namesOf ds))).map (Message.relocate g) := by
    simp only [Sorted.relocate, List.map_map]
    exact List.map_congr_left fun m _ => resolveMessage_relocate g (namesOf ds) m
  have henums : ((declaredOf ds).relocate g).enums.map resolveEnum =
      ((declaredOf ds).enums.map resolveEnum).map (Enum.relocate g) := by
    simp only [Sorted.relocate, List.map_map]
    exact List.map_congr_left fun e _ => resolveEnum_relocate g e
  have hconstants : kept (((declaredOf ds).relocate g).constants.map constantOutcome) =
      (kept ((declaredOf ds).constants.map constantOutcome)).map (Constant.relocate g) := by
    rw [Sorted.relocate, constantOutcomes_relocate, kept_relocate]
  have hnames : ((declaredOf ds).relocate g).names.head?.map (·.name) =
      (declaredOf ds).names.head?.map (·.name) := by
    rw [Sorted.relocate, List.head?_map, Option.map_map]
    rfl
  simp only [schemaOf, declaredOf_relocate, namesOf_relocate, hmessages, henums, hconstants, hnames,
    Schema.relocate]

/-- Moved declarations have the same diagnostics, moved. -/
theorem diagnosticsOf_relocate (ds : List Written.Declaration) :
    diagnosticsOf (ds.map (Written.Declaration.relocate g)) =
      (diagnosticsOf ds).map (Diagnostic.relocate g) := by
  have henums : ((declaredOf ds).relocate g).enums.flatMap (fun e => reported (variantOutcomes e)) =
      ((declaredOf ds).enums.flatMap fun e => reported (variantOutcomes e)).map
        (Diagnostic.relocate g) := by
    rw [Sorted.relocate, List.flatMap_map, List.map_flatMap]
    simp only [variantOutcomes_relocate, reported_relocate]
  have hmessages : ((declaredOf ds).relocate g).messages.flatMap
        (fun m => reported (fieldOutcomes (NameTable.relocate g (namesOf ds)) m)) =
      ((declaredOf ds).messages.flatMap fun m => reported (fieldOutcomes (namesOf ds) m)).map
        (Diagnostic.relocate g) := by
    rw [show ((declaredOf ds).relocate g).messages =
      (declaredOf ds).messages.map (Written.Message.relocate g) from rfl, List.flatMap_map,
      List.map_flatMap]
    simp only [fieldOutcomes_relocate, reported_relocate]
  have hconstants : reported (((declaredOf ds).relocate g).constants.map constantOutcome) =
      (reported ((declaredOf ds).constants.map constantOutcome)).map (Diagnostic.relocate g) := by
    rw [Sorted.relocate, constantOutcomes_relocate, reported_relocate]
  simp only [diagnosticsOf, declaredOf_relocate, namesOf_relocate, declarationOutcomes_relocate,
    reported_relocate, henums, hmessages, hconstants, List.map_append]

end Resolve

/-- **Binding names commutes with relocation**, in either mode. -/
theorem Schema.ofDeclarations_relocate (mode : ErrorMode) (ds : List Written.Declaration) :
    Schema.ofDeclarations mode (ds.map (Written.Declaration.relocate g)) =
      relocateResult g (Schema.relocate g) (Schema.ofDeclarations mode ds) := by
  rw [Schema.ofDeclarations, Resolve.schemaOf_relocate, Resolve.diagnosticsOf_relocate,
    ← relocateResult_guard, Schema.ofDeclarations]
  cases Report.guard (Resolve.schemaOf ds) (Resolve.diagnosticsOf ds) with
  | ok s => rfl
  | error r => cases mode <;> rfl

/-- **What tokens become commutes with relocation**, in either mode. -/
theorem Schema.ofStream_relocate (mode : ErrorMode) (stream : TokenStream) :
    (Written.ofTokens mode (stream.relocate g) >>= Schema.ofDeclarations mode) =
      relocateResult g (Schema.relocate g)
        (Written.ofTokens mode stream >>= Schema.ofDeclarations mode) := by
  rw [Written.ofTokens_relocate]
  exact relocateResult_bind g (Schema.ofDeclarations_relocate g mode)

end WireSchema
