import WireSchema.Declaration
import WireSchema.Declaration.Keyword
import WireSchema.Proofs.SelfDelimiting
import WireSchema.Proofs.Spelling

/-!
# The grammar of schema text

Derivations of the schema grammar over tokens, as data. A derivation holds the tokens it is made of
together with the proofs that each may stand in its place, so every value of these types is a
derivation:

* `Variant` — `IDENT "=" INT ";"`
* `Field` — `IDENT ":" { "repeated" | "optional" } IDENT "=" INT ";"`
* `Body` — what follows the keyword of a declaration
* `Sentence` — declarations one after the other

Each has the tokens it derives (`tokens`) and the syntax tree it stands for (`tree`). Keywords are
spelled in any case, and only where a declaration starts: an identifier may be spelled like a
keyword or a modifier word. A type word is any identifier, so the modifiers of a field end one
identifier before the `=`.

A list of tokens has at most one derivation (`Sentence.eq_of_tokens_eq`).
-/

namespace WireSchema.Grammar

/-! ## Single tokens -/

/-- An identifier. -/
abbrev Identifier : Type :=
  { t : Token // t.isIdentifier = true }

/-- The symbol with a given spelling. -/
abbrev Symbol (spelling : String) : Type :=
  { t : Token // t.isSymbol spelling = true }

/-- The spelling of a keyword in small letters. -/
def keywordText : Keyword → String
  | .name => "name"
  | .const => "const"
  | .enum => "enum"
  | .message => "message"

/-- A keyword, in any case. -/
abbrev KeywordToken (word : Keyword) : Type :=
  { t : Token //
    t.isIdentifier = true ∧ t.text.toList.map Char.toLower = (keywordText word).toList }

/-- An integer and its value. -/
structure IntegerToken where
  token : Token
  value : Int
  isInteger : token.kind = .integer
  spells : SpellsInteger token.text value

/-- A literal and its value. -/
structure LiteralToken where
  token : Token
  value : Literal
  spells : SpellsLiteral token value

/-- A modifier word. -/
structure ModifierToken where
  token : Token
  word : Written.ModifierWord
  isIdentifier : token.isIdentifier = true
  spells : token.text = word.text

/-! ## Derivations -/

/-- A variant of an enum. -/
structure Variant where
  label : Identifier
  equals : Symbol "="
  value : IntegerToken
  semicolon : Symbol ";"

/-- A field of a message. -/
structure Field where
  name : Identifier
  colon : Symbol ":"
  modifiers : List ModifierToken
  type : Identifier
  equals : Symbol "="
  tag : IntegerToken
  semicolon : Symbol ";"

/-- Items between braces, with an optional semicolon at the end. -/
structure Block (Item : Type) where
  name : Identifier
  opening : Symbol "\x7b"
  items : List Item
  closing : Symbol "\x7d"
  semicolon : Option (Symbol ";")

/-- The name of the protocol. -/
structure ProtocolName where
  name : Identifier
  semicolon : Symbol ";"

/-- A constant. -/
structure Constant where
  name : Identifier
  colon : Symbol ":"
  type : Identifier
  equals : Symbol "="
  value : LiteralToken
  semicolon : Symbol ";"

/-- What follows the keyword of a declaration. -/
inductive Body : Keyword → Type where
  | name (protocol : ProtocolName) : Body .name
  | constant (constant : Constant) : Body .const
  | enum (block : Block Variant) : Body .enum
  | message (block : Block Field) : Body .message

/-- A declaration. -/
structure Declaration where
  word : Keyword
  keyword : KeywordToken word
  body : Body word

/-- A whole schema text. -/
structure Sentence where
  declarations : List Declaration

/-! ## Tokens and trees -/

def Variant.tokens (v : Variant) : List Token :=
  [v.label.val, v.equals.val, v.value.token, v.semicolon.val]

def Variant.tree (v : Variant) : Written.Variant :=
  { label := v.label.val.text, value := v.value.value, location := v.label.val.location }

def ModifierToken.tree (m : ModifierToken) : Written.Modifier :=
  ⟨m.word, m.token.location⟩

def Field.tokens (f : Field) : List Token :=
  f.name.val :: f.colon.val ::
    (f.modifiers.map ModifierToken.token ++
      [f.type.val, f.equals.val, f.tag.token, f.semicolon.val])

def Field.tree (f : Field) : Written.Field :=
  { name := f.name.val.text
    modifiers := f.modifiers.map ModifierToken.tree
    type := f.type.val.text
    typeLocation := f.type.val.location
    tag := f.tag.value
    tagLocation := f.tag.token.location
    location := f.name.val.location }

def Block.tokens {Item : Type} (itemTokens : Item → List Token) (b : Block Item) : List Token :=
  b.name.val :: b.opening.val ::
    (b.items.flatMap itemTokens ++ b.closing.val :: (b.semicolon.map Subtype.val).toList)

def Block.enumTree (b : Block Variant) : Written.Enum :=
  { name := b.name.val.text, variants := b.items.map Variant.tree, location := b.name.val.location }

def Block.messageTree (b : Block Field) : Written.Message :=
  { name := b.name.val.text, fields := b.items.map Field.tree, location := b.name.val.location }

def ProtocolName.tokens (p : ProtocolName) : List Token :=
  [p.name.val, p.semicolon.val]

/-- The tree of a protocol name whose keyword stands at `location`. -/
def ProtocolName.tree (location : Location) (p : ProtocolName) : Written.ProtocolName :=
  { name := p.name.val.text, location }

def Constant.tokens (c : Constant) : List Token :=
  [c.name.val, c.colon.val, c.type.val, c.equals.val, c.value.token, c.semicolon.val]

/-- The tree of a constant whose keyword stands at `location`. -/
def Constant.tree (location : Location) (c : Constant) : Written.Constant :=
  { name := c.name.val.text, type := c.type.val.text, value := c.value.value, location }

def Body.tokens {word : Keyword} : Body word → List Token
  | .name p => p.tokens
  | .constant c => c.tokens
  | .enum block => block.tokens Variant.tokens
  | .message block => block.tokens Field.tokens

/-- The tree of what follows a keyword that stands at `location`. -/
def Body.tree {word : Keyword} (location : Location) : Body word → Written.Declaration
  | .name p => .name (p.tree location)
  | .constant c => .constant (c.tree location)
  | .enum block => .enum block.enumTree
  | .message block => .message block.messageTree

def Declaration.tokens (d : Declaration) : List Token :=
  d.keyword.val :: d.body.tokens

def Declaration.tree (d : Declaration) : Written.Declaration :=
  d.body.tree d.keyword.val.location

def Sentence.tokens (s : Sentence) : List Token :=
  s.declarations.flatMap Declaration.tokens

def Sentence.tree (s : Sentence) : List Written.Declaration :=
  s.declarations.map Declaration.tree

/-! ## A token stands for one thing -/

/-- A token is an integer token in one way. -/
theorem IntegerToken.ext_of_token {i j : IntegerToken} (h : i.token = j.token) : i = j := by
  obtain ⟨t, v, hk, hs⟩ := i
  obtain ⟨t', v', hk', hs'⟩ := j
  obtain rfl : t = t' := h
  obtain rfl : v = v' := hs.unique hs'
  rfl

theorem LiteralToken.ext_of_token {i j : LiteralToken} (h : i.token = j.token) : i = j := by
  obtain ⟨t, v, hs⟩ := i
  obtain ⟨t', v', hs'⟩ := j
  obtain rfl : t = t' := h
  obtain rfl : v = v' := hs.unique hs'
  rfl

theorem modifierWord_text_injective {w w' : Written.ModifierWord} (h : w.text = w'.text) :
    w = w' := by
  revert h
  cases w <;> cases w' <;> decide

theorem ModifierToken.ext_of_token {m n : ModifierToken} (h : m.token = n.token) : m = n := by
  obtain ⟨t, w, hk, hs⟩ := m
  obtain ⟨t', w', hk', hs'⟩ := n
  obtain rfl : t = t' := h
  obtain rfl : w = w' := modifierWord_text_injective (hs.symm.trans hs')
  rfl

/-- A token is one keyword. -/
theorem keyword_unique {w w' : Keyword} (k : KeywordToken w) (k' : KeywordToken w')
    (h : k.val = k'.val) : w = w' := by
  have hw : (keywordText w).toList = (keywordText w').toList := by
    rw [← k.property.2, ← k'.property.2, h]
  revert hw
  cases w <;> cases w' <;> decide

/-! ## A list of tokens has one derivation -/

open SelfDelimiting

theorem isIdentifier_of_isSymbol {t : Token} {spelling : String} (h : t.isSymbol spelling = true) :
    ¬ t.isIdentifier = true := by
  simp only [Token.isSymbol, Token.isIdentifier, Bool.and_eq_true, decide_eq_true_eq] at h ⊢
  rw [h.1]
  decide

/-- Variants can be told apart whatever follows. -/
theorem Variant.readable : Readable (fun _ => True) (fun _ => True) Variant.tokens where
  inj {v v' t t'} _ _ _ _ h := by
    obtain ⟨l, e, n, s⟩ := v
    obtain ⟨l', e', n', s'⟩ := v'
    simp only [Variant.tokens, List.cons_append, List.nil_append, List.cons.injEq] at h
    obtain ⟨hl, he, hn, hs, ht⟩ := h
    rw [Subtype.ext hl, Subtype.ext he, IntegerToken.ext_of_token hn, Subtype.ext hs]
    exact ⟨rfl, ht⟩
  rest _ _ := trivial

/-- Fields can be told apart, although modifiers are words like any other. -/
theorem Field.readable : Readable (fun _ => True) (fun _ => True) Field.tokens where
  inj {f f' t t'} _ _ _ _ h := by
    obtain ⟨n, c, ms, y, e, g, s⟩ := f
    obtain ⟨n', c', ms', y', e', g', s'⟩ := f'
    simp only [Field.tokens, List.cons_append, List.append_assoc, List.nil_append,
      List.cons.injEq] at h
    obtain ⟨hn, hc, h⟩ := h
    -- the modifiers and the type word are the identifiers before the `=`
    have hrun : ∀ (ms : List ModifierToken) (y : Identifier),
        ∀ t ∈ ms.map ModifierToken.token ++ [y.val], t.isIdentifier = true := by
      intro ms y t ht
      rcases List.mem_append.mp ht with ht | ht
      · obtain ⟨m, -, rfl⟩ := List.mem_map.mp ht
        exact m.isIdentifier
      · rw [List.mem_singleton.mp ht]
        exact y.property
    have h : (ms.map ModifierToken.token ++ [y.val]) ++ e.val :: g.token :: s.val :: t =
        (ms'.map ModifierToken.token ++ [y'.val]) ++ e'.val :: g'.token :: s'.val :: t' := by
      simpa using h
    obtain ⟨hwords, he, htail⟩ := append_cons_inj_of_sort _ (hrun ms y) (hrun ms' y')
      (isIdentifier_of_isSymbol e.property) (isIdentifier_of_isSymbol e'.property) h
    obtain ⟨hms, hy⟩ := List.append_inj' hwords rfl
    obtain ⟨hg, htail⟩ := List.cons.inj htail
    obtain ⟨hs, ht⟩ := List.cons.inj htail
    have hms : ms = ms' :=
      List.map_injective_iff.mpr (fun _ _ => ModifierToken.ext_of_token) hms
    rw [Subtype.ext hn, Subtype.ext hc, hms, Subtype.ext (List.cons.inj hy).1, Subtype.ext he,
      IntegerToken.ext_of_token hg, Subtype.ext hs]
    exact ⟨rfl, ht⟩
  rest _ _ := trivial

/-- The first token, if there is one, is not a semicolon: an optional semicolon before it is absent
for good. -/
def NoSemicolon (ts : List Token) : Prop :=
  ∀ t ∈ ts.head?, ¬ t.isSymbol ";" = true

/-- Items that start with an identifier cannot be taken for the closing brace. -/
theorem ends_of_isSymbol {Item : Type} {itemTokens : Item → List Token}
    (hstart : ∀ i, ∃ t ∈ (itemTokens i).head?, t.isIdentifier = true) {t : Token}
    {spelling : String} (ht : t.isSymbol spelling = true) (r : List Token) :
    Ends (fun _ => True) (fun _ => True) itemTokens (t :: r) where
  rest := trivial
  ne {i u} _ h := by
    obtain ⟨t', hhead, hid⟩ := hstart i
    obtain ⟨tail, htail⟩ := List.head?_eq_some_iff.mp hhead
    rw [htail] at h
    rw [← (List.cons.inj h).1] at hid
    exact isIdentifier_of_isSymbol ht hid

/-- A block ends where it ends, if its items can be told apart. -/
theorem Block.inj {Item : Type} {itemTokens : Item → List Token}
    (hitem : Readable (fun _ => True) (fun _ => True) itemTokens)
    (hstart : ∀ i, ∃ t ∈ (itemTokens i).head?, t.isIdentifier = true) {b b' : Block Item}
    {t t' : List Token} (ht : NoSemicolon t) (ht' : NoSemicolon t')
    (h : b.tokens itemTokens ++ t = b'.tokens itemTokens ++ t') : b = b' ∧ t = t' := by
  obtain ⟨n, o, is, c, s⟩ := b
  obtain ⟨n', o', is', c', s'⟩ := b'
  simp only [Block.tokens, List.cons_append, List.append_assoc, List.cons.injEq] at h
  obtain ⟨hn, ho, h⟩ := h
  obtain ⟨rfl, htail⟩ := hitem.flatMap_append_inj (fun _ _ => trivial) (fun _ _ => trivial)
    (ends_of_isSymbol hstart c.property _) (ends_of_isSymbol hstart c'.property _) h
  obtain ⟨hc, htail⟩ := List.cons.inj htail
  rw [Subtype.ext hn, Subtype.ext ho, Subtype.ext hc]
  cases s with
  | none =>
    cases s' with
    | none => exact ⟨rfl, htail⟩
    | some s' =>
      obtain rfl : t = s'.val :: t' := htail
      exact absurd s'.property (ht _ rfl)
  | some s =>
    cases s' with
    | none =>
      obtain rfl : s.val :: t = t' := htail
      exact absurd s.property (ht' _ rfl)
    | some s' =>
      obtain ⟨hs, htail⟩ := List.cons.inj htail
      rw [Subtype.ext hs]
      exact ⟨rfl, htail⟩

/-- What follows a keyword can be derived in one way. -/
theorem Body.inj {word : Keyword} {b b' : Body word} {t t' : List Token} (ht : NoSemicolon t)
    (ht' : NoSemicolon t') (h : b.tokens ++ t = b'.tokens ++ t') : b = b' ∧ t = t' := by
  cases b with
  | name protocol =>
    cases b' with
    | name protocol' =>
      obtain ⟨n, s⟩ := protocol
      obtain ⟨n', s'⟩ := protocol'
      simp only [Body.tokens, ProtocolName.tokens, List.cons_append, List.nil_append,
        List.cons.injEq] at h
      obtain ⟨hn, hs, h⟩ := h
      rw [Subtype.ext hn, Subtype.ext hs]
      exact ⟨rfl, h⟩
  | constant constant =>
    cases b' with
    | constant constant' =>
      obtain ⟨n, c, y, e, v, s⟩ := constant
      obtain ⟨n', c', y', e', v', s'⟩ := constant'
      simp only [Body.tokens, Constant.tokens, List.cons_append, List.nil_append,
        List.cons.injEq] at h
      obtain ⟨hn, hc, hy, he, hv, hs, h⟩ := h
      rw [Subtype.ext hn, Subtype.ext hc, Subtype.ext hy, Subtype.ext he,
        LiteralToken.ext_of_token hv, Subtype.ext hs]
      exact ⟨rfl, h⟩
  | enum block =>
    cases b' with
    | enum block' =>
      obtain ⟨rfl, hrest⟩ :=
        Block.inj Variant.readable (fun v => ⟨_, rfl, v.label.property⟩) ht ht' h
      exact ⟨rfl, hrest⟩
  | message block =>
    cases b' with
    | message block' =>
      obtain ⟨rfl, hrest⟩ :=
        Block.inj Field.readable (fun f => ⟨_, rfl, f.name.property⟩) ht ht' h
      exact ⟨rfl, hrest⟩

/-- A declaration does not start with a semicolon. -/
theorem Declaration.noSemicolon (d : Declaration) (t : List Token) :
    NoSemicolon (d.tokens ++ t) := by
  intro u hu hsymbol
  obtain rfl : d.keyword.val = u := Option.some.inj hu
  exact isIdentifier_of_isSymbol hsymbol d.keyword.property.1

/-- Declarations can be told apart if no semicolon follows. -/
theorem Declaration.readable : Readable (fun _ => True) NoSemicolon Declaration.tokens where
  inj {d d' t t'} _ _ ht ht' h := by
    obtain ⟨w, k, b⟩ := d
    obtain ⟨w', k', b'⟩ := d'
    have hk : k.val = k'.val := (List.cons.inj h).1
    have hb : b.tokens ++ t = b'.tokens ++ t' := (List.cons.inj h).2
    obtain rfl : w = w' := keyword_unique k k' hk
    obtain rfl : k = k' := Subtype.ext hk
    obtain ⟨rfl, hrest⟩ := Body.inj ht ht' hb
    exact ⟨rfl, hrest⟩
  rest t _ := Declaration.noSemicolon _ t

/-- **A list of tokens has at most one derivation.** -/
theorem Sentence.eq_of_tokens_eq {s s' : Sentence} (h : s.tokens = s'.tokens) : s = s' := by
  have hends : Ends (fun _ => True) NoSemicolon Declaration.tokens [] :=
    ⟨nofun, fun _ h => absurd h (List.cons_ne_nil _ _).symm⟩
  obtain ⟨ds⟩ := s
  obtain ⟨ds'⟩ := s'
  obtain ⟨rfl, -⟩ := Declaration.readable.flatMap_append_inj (fun _ _ => trivial)
    (fun _ _ => trivial) hends hends (congrArg (· ++ []) h)
  rfl

end WireSchema.Grammar
