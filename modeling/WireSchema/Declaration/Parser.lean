import WireSchema.Declaration
import WireSchema.Declaration.Keyword
import WireSchema.Decimal.Numeral
import WireSchema.Diagnostic

/-!
# Reading declarations from tokens

A `Parser` takes tokens from the front of a list. When it fails it says why and where it stood: the
first token of `Failure.rest` is the one to blame, and the end of the text is to blame when there is
none. A parser that succeeds leaves a suffix of its input, and so does one that fails; the parsers
of whole items take at least one token (`Advances`), which is what makes the loops over items end.

Keywords and modifier words are contextual: any of them may be used as a name, and a modifier word
is a modifier only if another identifier follows it.
-/

namespace WireSchema

/-- Why and where reading tokens failed. -/
structure Failure where
  fault : SyntaxFault
  /-- the tokens from the blamed one on -/
  rest : List Token
  deriving DecidableEq, Repr

/-- Takes tokens from the front of a list. -/
abbrev Parser (α : Type) : Type :=
  StateT (List Token) (Except Failure) α

namespace Parser

variable {α β : Type}

/-! ## What parsers leave -/

/-- Success and failure both left a suffix of `ts`. -/
def Kept (ts : List Token) : Except Failure (α × List Token) → Prop
  | .ok (_, rest) => rest <:+ ts
  | .error f => f.rest <:+ ts

/-- Failure left a suffix of `ts`, and success a shorter one. -/
def Advanced (ts : List Token) : Except Failure (α × List Token) → Prop
  | .ok (_, rest) => rest <:+ ts ∧ rest.length < ts.length
  | .error f => f.rest <:+ ts

/-- The parser never leaves anything but a suffix of its input. -/
def Keeps (p : Parser α) : Prop :=
  ∀ ts, Kept ts (p.run ts)

/-- The parser takes at least one token when it succeeds. -/
def Advances (p : Parser α) : Prop :=
  ∀ ts, Advanced ts (p.run ts)

theorem Advanced.kept {ts : List Token} {r : Except Failure (α × List Token)}
    (h : Advanced ts r) : Kept ts r := by
  cases r with
  | error f => exact h
  | ok r => exact h.1

theorem Advances.keeps {p : Parser α} (h : Advances p) : Keeps p :=
  fun ts => (h ts).kept

theorem keeps_pure (a : α) : Keeps (pure a : Parser α) :=
  fun _ => List.suffix_refl _

/-- Parsers that leave a rest can be put together. -/
theorem Keeps.bind {p : Parser α} {f : α → Parser β} (hp : Keeps p) (hf : ∀ a, Keeps (f a)) :
    Keeps (p >>= f) := by
  intro ts
  have h := hp ts
  rw [StateT.run_bind]
  cases hr : p.run ts with
  | error e => rw [hr] at h; exact h
  | ok r =>
    rw [hr] at h
    have h' := hf r.1 r.2
    show Kept ts ((f r.1).run r.2)
    cases hs : (f r.1).run r.2 with
    | error e => rw [hs] at h'; exact List.IsSuffix.trans h' h
    | ok s => rw [hs] at h'; exact List.IsSuffix.trans h' h

/-- If the first one takes a token, so do both. -/
theorem Advances.bind {p : Parser α} {f : α → Parser β} (hp : Advances p) (hf : ∀ a, Keeps (f a)) :
    Advances (p >>= f) := by
  intro ts
  have h := hp ts
  rw [StateT.run_bind]
  cases hr : p.run ts with
  | error e => rw [hr] at h; exact h
  | ok r =>
    rw [hr] at h
    have h' := hf r.1 r.2
    show Advanced ts ((f r.1).run r.2)
    cases hs : (f r.1).run r.2 with
    | error e => rw [hs] at h'; exact List.IsSuffix.trans h' h.1
    | ok s =>
      rw [hs] at h'
      exact ⟨List.IsSuffix.trans h' h.1,
        Nat.lt_of_le_of_lt (List.IsSuffix.length_le h') h.2⟩

/-! ## Single tokens -/

/-- The failure at a place where something else was expected. -/
def unexpected (expected : Expected) (ts : List Token) : Failure :=
  ⟨.unexpectedToken expected ts.head?, ts⟩

/-- Takes one token and what `read` makes of it; `read` may refuse it. -/
def token (expected : Expected) (read : Token → Except SyntaxFault α) : Parser α
  | [] => .error (unexpected expected [])
  | t :: ts =>
    match read t with
    | .ok a => .ok (a, ts)
    | .error fault => .error ⟨fault, t :: ts⟩

/-- A parser for one token takes it. -/
theorem token_advances (expected : Expected) (read : Token → Except SyntaxFault α) :
    Advances (token expected read) := by
  intro ts
  cases ts with
  | nil => exact List.suffix_refl _
  | cons t ts =>
    simp only [token, StateT.run]
    cases read t with
    | ok a => exact ⟨List.suffix_cons _ _, by simp⟩
    | error e => exact List.suffix_refl _

/-- Accepts a token that passes a test and refuses any other as unexpected. -/
def accept (expected : Expected) (test : Token → Bool) (t : Token) : Except SyntaxFault Token :=
  if test t then .ok t else .error (.unexpectedToken expected (some t))

/-- Takes a symbol. -/
def symbol (spelling : String) : Parser Token :=
  token (.symbol spelling) (accept (.symbol spelling) (·.isSymbol spelling))

/-- Takes an identifier. -/
def identifier : Parser Token :=
  token .identifier (accept .identifier (·.isIdentifier))

/-- The value of an integer token. -/
def integerOf (expected : Expected) (t : Token) : Except SyntaxFault Int :=
  match t.kind with
  | .integer =>
    match Decimal.readInteger? t.text with
    | some value => .ok value
    | none => .error (.invalidInteger t.text)
  | _ => .error (.unexpectedToken expected (some t))

/-- Takes an integer that fits in 128 bits, with its location. -/
def integer : Parser (Int × Location) :=
  token .integer fun t => (integerOf .integer t).map (·, t.location)

/-- Takes a symbol if it is there. -/
def optionalSymbol (spelling : String) : Parser Unit
  | [] => .ok ((), [])
  | t :: ts => if t.isSymbol spelling then .ok ((), ts) else .ok ((), t :: ts)

theorem optionalSymbol_keeps (spelling : String) : Keeps (optionalSymbol spelling) := by
  intro ts
  cases ts with
  | nil => exact List.suffix_refl _
  | cons t ts =>
    simp only [optionalSymbol, StateT.run]
    split
    · exact List.suffix_cons _ _
    · exact List.suffix_refl _

/-! ## Literals -/

/-- The character that an escape letter stands for. -/
def escaped? (c : Char) : Option Char :=
  if c = '"' then some '"'
  else if c = '\\' then some '\\'
  else if c = 'n' then some '\n'
  else if c = 't' then some '\t'
  else if c = 'r' then some '\r'
  else none

/-- Replaces the escapes in the body of a string. An unknown escape is returned as the error. -/
def unescape : List Char → Except (List Char) (List Char)
  | [] => .ok []
  | '\\' :: [] => .error ['\\']
  | '\\' :: c :: cs =>
    match escaped? c with
    | some d => (unescape cs).map (d :: ·)
    | none => .error ['\\', c]
  | c :: cs => (unescape cs).map (c :: ·)

/-- The text that a string token stands for: what its escapes mean, without the two quotes. -/
def stringOf (t : Token) : Except SyntaxFault String :=
  match unescape t.text.toList.tail.dropLast with
  | .ok body => .ok (String.ofList body)
  | .error spelling => .error (.invalidEscape (String.ofList spelling))

/-- The value of a token that is a literal. -/
def literalOf (t : Token) : Except SyntaxFault Literal :=
  match t.kind with
  | .integer => (integerOf .literal t).map .integer
  | .number =>
    match Binary64.read? t.text with
    | some value => .ok (.number value)
    | none => .error (.invalidNumber t.text)
  | .string => (stringOf t).map .string
  | .identifier =>
    if t.text = "true" then .ok (.bool true)
    else if t.text = "false" then .ok (.bool false)
    else .error (.unexpectedToken .literal (some t))
  | .symbol => .error (.unexpectedToken .literal (some t))

/-- Takes a literal. -/
def literal : Parser Literal :=
  token .literal literalOf

/-! ## Items of enums and messages -/

/-- Takes a label, `=`, an integer and `;`. -/
def variant : Parser Written.Variant := do
  let label ← identifier
  let _ ← symbol "="
  let (value, _) ← integer
  let _ ← symbol ";"
  return { label := label.text, value, location := label.location }

theorem variant_advances : Advances variant :=
  (token_advances _ _).bind fun _ => (token_advances _ _).keeps.bind fun _ =>
    (token_advances _ _).keeps.bind fun _ => (token_advances _ _).keeps.bind fun _ =>
      keeps_pure _

/-- The modifier word that a token is; only identifiers are modifiers. -/
def modifierWord? (t : Token) : Option Written.ModifierWord :=
  if t.isIdentifier then Written.ModifierWord.ofText? t.text else none

/-- The modifiers at the front of the tokens: modifier words that another identifier follows. -/
def splitModifiers : List Token → List Written.Modifier × List Token
  | [] => ([], [])
  | [t] => ([], [t])
  | t :: u :: ts =>
    match modifierWord? t with
    | some word =>
      if u.isIdentifier then
        (⟨word, t.location⟩ :: (splitModifiers (u :: ts)).1, (splitModifiers (u :: ts)).2)
      else ([], t :: u :: ts)
    | none => ([], t :: u :: ts)

/-- Behind modifiers a rest is left. -/
theorem splitModifiers_suffix (ts : List Token) : (splitModifiers ts).2 <:+ ts := by
  fun_induction splitModifiers ts with
  | case1 => exact List.suffix_refl _
  | case2 => exact List.suffix_refl _
  | case3 t u ts word _ _ ih => exact ih.trans (List.suffix_cons _ _)
  | case4 => exact List.suffix_refl _
  | case5 => exact List.suffix_refl _

/-- Takes modifiers, as many as there are. -/
def modifiers : Parser (List Written.Modifier) :=
  fun ts => .ok (splitModifiers ts)

theorem modifiers_keeps : Keeps modifiers :=
  splitModifiers_suffix

/-- Takes a name, `:`, modifiers, a type word, `=`, a tag and `;`. -/
def field : Parser Written.Field := do
  let name ← identifier
  let _ ← symbol ":"
  let modifiers ← modifiers
  let type ← identifier
  let _ ← symbol "="
  let (tag, tagLocation) ← integer
  let _ ← symbol ";"
  return {
    name := name.text, modifiers, type := type.text, typeLocation := type.location,
    tag, tagLocation, location := name.location }

theorem field_advances : Advances field :=
  (token_advances _ _).bind fun _ => (token_advances _ _).keeps.bind fun _ =>
    modifiers_keeps.bind fun _ => (token_advances _ _).keeps.bind fun _ =>
      (token_advances _ _).keeps.bind fun _ => (token_advances _ _).keeps.bind fun _ =>
        (token_advances _ _).keeps.bind fun _ => keeps_pure _

/-- Does the closing brace stand next? -/
def atClose : List Token → Bool
  | [] => false
  | t :: _ => t.isSymbol "\x7d"

/-- Takes items up to and with the closing brace. -/
def itemsUntilClose (item : Parser α) (advances : Advances item) (ts : List Token) :
    Except Failure (List α × List Token) :=
  if atClose ts then .ok ([], ts.tail)
  else
    match h : item.run ts with
    | .error f => .error f
    | .ok (a, rest) =>
      have : rest.length < ts.length := by
        have := advances ts
        rw [h] at this
        exact this.2
      match itemsUntilClose item advances rest with
      | .error f => .error f
      | .ok (as, rest) => .ok (a :: as, rest)
termination_by ts.length

/-- A closing brace ends the items. -/
theorem itemsUntilClose_of_atClose {item : Parser α} {advances : Advances item} {ts : List Token}
    (h : atClose ts = true) : itemsUntilClose item advances ts = .ok ([], ts.tail) := by
  rw [itemsUntilClose, if_pos h]

/-- An item that fails ends the items. -/
theorem itemsUntilClose_of_error {item : Parser α} {advances : Advances item} {ts : List Token}
    {f : Failure} (hclose : ¬ atClose ts = true) (h : item.run ts = .error f) :
    itemsUntilClose item advances ts = .error f := by
  rw [itemsUntilClose, if_neg hclose]
  split
  · rename_i f' h'
    obtain rfl := Except.error.inj (h'.symm.trans h)
    rfl
  · rename_i h'
    cases h'.symm.trans h

/-- Behind an item the items go on. -/
theorem itemsUntilClose_of_ok {item : Parser α} {advances : Advances item} {ts rest : List Token}
    {a : α} (hclose : ¬ atClose ts = true) (h : item.run ts = .ok (a, rest)) :
    itemsUntilClose item advances ts =
      (itemsUntilClose item advances rest).map fun (as, rest) => (a :: as, rest) := by
  rw [itemsUntilClose, if_neg hclose]
  split
  · rename_i h'
    cases h'.symm.trans h
  · rename_i a' rest' h'
    obtain ⟨rfl, rfl⟩ := Prod.mk.inj (Except.ok.inj (h'.symm.trans h))
    cases itemsUntilClose item advances rest' <;> rfl

/-- The parser of `itemsUntilClose`. -/
def items (item : Parser α) (advances : Advances item) : Parser (List α) :=
  itemsUntilClose item advances

theorem items_keeps (item : Parser α) (advances : Advances item) :
    Keeps (items item advances) := by
  intro ts
  show Kept ts (itemsUntilClose item advances ts)
  fun_induction itemsUntilClose item advances ts with
  | case1 ts _ => exact List.tail_suffix _
  | case2 ts _ f h =>
    have := advances ts
    rw [h] at this
    exact this
  | case3 ts _ a rest h _ f hrec ih =>
    have := advances ts
    rw [h] at this
    rw [hrec] at ih
    exact List.IsSuffix.trans ih this.1
  | case4 ts _ a rest h _ as rest' hrec ih =>
    have := advances ts
    rw [h] at this
    rw [hrec] at ih
    exact List.IsSuffix.trans ih this.1

/-! ## Declarations -/

/-- Takes the keyword that opens a declaration, with its location. -/
def keyword : Parser (Keyword × Location) :=
  token .declaration fun t =>
    match Keyword.ofToken? t with
    | some word => .ok (word, t.location)
    | none => .error (.unexpectedToken .declaration (some t))

/-- Takes what follows the keyword of a protocol name. -/
def protocolName (location : Location) : Parser Written.ProtocolName := do
  let name ← identifier
  let _ ← symbol ";"
  return { name := name.text, location }

/-- Takes what follows the keyword of a constant. -/
def constant (location : Location) : Parser Written.Constant := do
  let name ← identifier
  let _ ← symbol ":"
  let type ← identifier
  let _ ← symbol "="
  let value ← literal
  let _ ← symbol ";"
  return { name := name.text, type := type.text, value, location }

/-- Takes what follows the keyword of an enum; a semicolon may follow the closing brace. -/
def enumeration : Parser Written.Enum := do
  let name ← identifier
  let _ ← symbol "\x7b"
  let variants ← items variant variant_advances
  optionalSymbol ";"
  return { name := name.text, variants, location := name.location }

/-- Takes what follows the keyword of a message; a semicolon may follow the closing brace. -/
def message : Parser Written.Message := do
  let name ← identifier
  let _ ← symbol "\x7b"
  let fields ← items field field_advances
  optionalSymbol ";"
  return { name := name.text, fields, location := name.location }

/-- Takes what follows the keyword `word`. -/
def body (word : Keyword) (location : Location) : Parser Written.Declaration :=
  match word with
  | .name => return .name (← protocolName location)
  | .const => return .constant (← constant location)
  | .enum => return .enum (← enumeration)
  | .message => return .message (← message)

/-- What follows a keyword leaves a rest, whichever keyword it is. -/
theorem body_keeps (word : Keyword) (location : Location) : Keeps (body word location) := by
  cases word with
  | name =>
    exact Keeps.bind ((token_advances _ _).keeps.bind fun _ =>
      (token_advances _ _).keeps.bind fun _ => keeps_pure _) fun _ => keeps_pure _
  | const =>
    exact Keeps.bind ((token_advances _ _).keeps.bind fun _ =>
      (token_advances _ _).keeps.bind fun _ => (token_advances _ _).keeps.bind fun _ =>
      (token_advances _ _).keeps.bind fun _ => (token_advances _ _).keeps.bind fun _ =>
      (token_advances _ _).keeps.bind fun _ => keeps_pure _) fun _ => keeps_pure _
  | enum =>
    exact Keeps.bind ((token_advances _ _).keeps.bind fun _ =>
      (token_advances _ _).keeps.bind fun _ => (items_keeps _ _).bind fun _ =>
      (optionalSymbol_keeps _).bind fun _ => keeps_pure _) fun _ => keeps_pure _
  | message =>
    exact Keeps.bind ((token_advances _ _).keeps.bind fun _ =>
      (token_advances _ _).keeps.bind fun _ => (items_keeps _ _).bind fun _ =>
      (optionalSymbol_keeps _).bind fun _ => keeps_pure _) fun _ => keeps_pure _

/-- Takes a declaration. -/
def declaration : Parser Written.Declaration := do
  let (word, location) ← keyword
  body word location

/-- A declaration takes a token, its keyword. -/
theorem declaration_advances : Advances declaration :=
  (token_advances _ _).bind fun _ => body_keeps _ _

end Parser

end WireSchema
