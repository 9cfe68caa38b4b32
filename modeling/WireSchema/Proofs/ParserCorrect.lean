import WireSchema.Declaration.Recovery
import WireSchema.Proofs.TokenValues

/-!
# Reading declarations is deriving them

The parsers of declarations succeed exactly on what the grammar derives, and return the tree of the
derivation. `Reads p Rest tokens tree` says this of one parser: on lexical tokens it succeeds with
`a` and leaves `rest` exactly when the list is the tokens of a derivation with tree `a`, followed by
`rest`. One direction inverts the parser's steps; the other runs them on the tokens of a derivation.

Two parsers look ahead, and their lemmas ask something of what follows: modifiers end before an
identifier that no identifier follows, and where an optional semicolon is absent none may stand next
(`Grammar.NoSemicolon`). A whole text has no tokens after it, and each declaration in it starts with
a keyword, so there nothing is left to ask.
-/

namespace WireSchema

open Grammar

namespace Parser

variable {α β D : Type} {ts rest : List Token}

/-! ## Sequencing -/

theorem run_pure_eq_ok_iff {a : α} {r : α × List Token} :
    (pure a : Parser α).run ts = .ok r ↔ (a, ts) = r := by
  change Except.ok (a, ts) = Except.ok r ↔ _
  rw [Except.ok.injEq]

/-- Inversion of sequencing: both parsers succeed. -/
theorem run_bind_eq_ok_iff {p : Parser α} {f : α → Parser β} {r : β × List Token} :
    (p >>= f).run ts = .ok r ↔ ∃ a rest, p.run ts = .ok (a, rest) ∧ (f a).run rest = .ok r := by
  rw [StateT.run_bind]
  cases hp : p.run ts with
  | error e =>
    refine ⟨nofun, ?_⟩
    rintro ⟨a, rest, h, -⟩
    cases h
  | ok q =>
    obtain ⟨a, rest⟩ := q
    change (f a).run rest = .ok r ↔ _
    refine ⟨fun h => ⟨a, rest, rfl, h⟩, ?_⟩
    rintro ⟨a', rest', h, hf⟩
    cases h
    exact hf

/-! ## Single tokens -/

/-- Reading one token takes the first token, if it can be read. -/
theorem run_token_eq_ok_iff {expected : Expected} {read : Token → Except SyntaxFault α} {a : α} :
    (token expected read).run ts = .ok (a, rest) ↔ ∃ t, ts = t :: rest ∧ read t = .ok a := by
  cases ts with
  | nil => simp [token, StateT.run]
  | cons t ts =>
    simp only [token, StateT.run]
    cases hread : read t with
    | error fault => simp [hread]
    | ok b =>
      refine ⟨?_, ?_⟩
      · rintro ⟨⟩
        exact ⟨t, rfl, hread⟩
      · rintro ⟨u, hts, hu⟩
        cases hts
        rw [hread] at hu
        cases hu
        rfl

/-- A token is accepted as it is. -/
theorem accept_eq_ok_iff {expected : Expected} {test : Token → Bool} {t u : Token} :
    accept expected test t = .ok u ↔ test t = true ∧ t = u := by
  unfold accept
  cases test t <;> simp

/-- A symbol is taken where it stands first. -/
theorem run_symbol_eq_ok_iff {spelling : String} {t : Token} :
    (symbol spelling).run ts = .ok (t, rest) ↔ ts = t :: rest ∧ t.isSymbol spelling = true := by
  simp only [symbol, run_token_eq_ok_iff, accept_eq_ok_iff]
  refine ⟨?_, fun h => ⟨t, h.1, h.2, rfl⟩⟩
  rintro ⟨u, hts, hu, rfl⟩
  exact ⟨hts, hu⟩

theorem run_identifier_eq_ok_iff {t : Token} :
    identifier.run ts = .ok (t, rest) ↔ ts = t :: rest ∧ t.isIdentifier = true := by
  simp only [identifier, run_token_eq_ok_iff, accept_eq_ok_iff]
  refine ⟨?_, fun h => ⟨t, h.1, h.2, rfl⟩⟩
  rintro ⟨u, hts, hu, rfl⟩
  exact ⟨hts, hu⟩

/-- A parser reads exactly what is derived: the derivations have `tokens` and a `tree`, and what
follows them satisfies `Rest`. -/
structure Reads (p : Parser α) (Rest : List Token → Prop) (tokens : D → List Token)
    (tree : D → α) : Prop where
  run_iff {ts rest : List Token} (lexical : ∀ t ∈ ts, t.Lexical) (follows : Rest rest) {a : α} :
    p.run ts = .ok (a, rest) ↔ ∃ d, ts = tokens d ++ rest ∧ tree d = a

/-- An integer is read from an integer token. -/
theorem integer_reads :
    Reads integer (fun _ => True) (fun i : IntegerToken => [i.token])
      (fun i => (i.value, i.token.location)) := by
  refine ⟨fun {ts rest} hts _ {a} => ?_⟩
  simp only [integer, run_token_eq_ok_iff, map_eq_ok_iff]
  refine ⟨?_, ?_⟩
  · rintro ⟨t, rfl, value, hvalue, rfl⟩
    obtain ⟨hk, hs⟩ := (integerOf_eq_ok_iff (hts t List.mem_cons_self)).mp hvalue
    exact ⟨⟨t, value, hk, hs⟩, rfl, rfl⟩
  · rintro ⟨i, rfl, rfl⟩
    have hlex := hts i.token List.mem_cons_self
    exact ⟨i.token, rfl, i.value, (integerOf_eq_ok_iff hlex).mpr ⟨i.isInteger, i.spells⟩, rfl⟩

/-- A literal is read from a literal token. -/
theorem literal_reads :
    Reads literal (fun _ => True) (fun l : LiteralToken => [l.token]) LiteralToken.value := by
  refine ⟨fun {ts rest} hts _ {a} => ?_⟩
  simp only [literal, run_token_eq_ok_iff]
  refine ⟨?_, ?_⟩
  · rintro ⟨t, rfl, hvalue⟩
    exact ⟨⟨t, a, (literalOf_eq_ok_iff (hts t List.mem_cons_self)).mp hvalue⟩, rfl, rfl⟩
  · rintro ⟨l, rfl, rfl⟩
    exact ⟨l.token, rfl, (literalOf_eq_ok_iff (hts l.token List.mem_cons_self)).mpr l.spells⟩

/-- A keyword is read from one of the keyword tokens. -/
theorem keyword_reads :
    Reads keyword (fun _ => True) (fun k : (word : Keyword) × KeywordToken word => [k.2.val])
      (fun k => (k.1, k.2.val.location)) := by
  refine ⟨fun {ts rest} hts _ {a} => ?_⟩
  simp only [keyword, run_token_eq_ok_iff]
  refine ⟨?_, ?_⟩
  · rintro ⟨t, rfl, hread⟩
    cases hword : Keyword.ofToken? t with
    | none => simp [hword] at hread
    | some word =>
      have hk := (Keyword.ofToken?_eq_some_iff (hts t List.mem_cons_self)).mp hword
      simp only [hword, Except.ok.injEq] at hread
      exact ⟨⟨word, t, hk⟩, rfl, hread⟩
  · rintro ⟨⟨word, t, hk⟩, rfl, rfl⟩
    refine ⟨t, rfl, ?_⟩
    simp only [(Keyword.ofToken?_eq_some_iff (hts t List.mem_cons_self)).mpr hk]

/-- An optional semicolon is read whether or not it is there, if no other follows. -/
theorem optionalSymbol_reads :
    Reads (optionalSymbol ";") NoSemicolon
      (fun s : Option (Symbol ";") => (s.map Subtype.val).toList) (fun _ => ()) := by
  refine ⟨fun {ts rest} _ hrest {a} => ⟨fun h => ?_, ?_⟩⟩
  · cases ts with
    | nil =>
      cases h
      exact ⟨none, rfl, rfl⟩
    | cons t ts =>
      change (if t.isSymbol ";" then Except.ok ((), ts) else .ok ((), t :: ts)) = _ at h
      split_ifs at h with ht <;> cases h
      · exact ⟨some ⟨t, ht⟩, rfl, rfl⟩
      · exact ⟨none, rfl, rfl⟩
  · rintro ⟨s, hs, -⟩
    subst hs
    cases s with
    | none =>
      cases rest with
      | nil => rfl
      | cons t ts => exact if_neg (hrest t rfl)
    | some s => exact if_pos s.property

/-! ## Items -/

/-- The parser for variants reads what the grammar derives. -/
theorem variant_reads : Reads variant (fun _ => True) Grammar.Variant.tokens Variant.tree := by
  refine ⟨fun {ts rest} hts _ {a} => ?_⟩
  simp only [variant, run_bind_eq_ok_iff, run_identifier_eq_ok_iff, run_symbol_eq_ok_iff,
    run_pure_eq_ok_iff, Prod.exists]
  refine ⟨?_, ?_⟩
  · rintro ⟨l, _, ⟨rfl, hl⟩, e, r, ⟨rfl, he⟩, value, location, _, hi, s, _, ⟨rfl, hs⟩, hv⟩
    simp only [List.forall_mem_cons] at hts
    obtain ⟨i, rfl, ⟨⟩⟩ := (integer_reads.run_iff hts.2.2 trivial).mp hi
    cases hv
    exact ⟨⟨⟨l, hl⟩, ⟨e, he⟩, i, ⟨s, hs⟩⟩, rfl, rfl⟩
  · rintro ⟨⟨⟨l, hl⟩, ⟨e, he⟩, i, ⟨s, hs⟩⟩, rfl, rfl⟩
    simp only [Variant.tokens, List.cons_append, List.nil_append, List.forall_mem_cons] at hts
    have hi : integer.run (i.token :: s :: rest) = .ok ((i.value, i.token.location), s :: rest) :=
      (integer_reads.run_iff (by simpa using hts.2.2) trivial).mpr ⟨i, rfl, rfl⟩
    exact ⟨l, _, ⟨rfl, hl⟩, e, _, ⟨rfl, he⟩, _, _, _, hi, s, _, ⟨rfl, hs⟩, rfl⟩

/-- Modifiers before an identifier that no identifier follows: that one is the type word. -/
theorem splitModifiers_eq_iff {y e : Token} {r : List Token} (hy : y.isIdentifier = true)
    (he : ¬ e.isIdentifier = true) {ms : List Written.Modifier} :
    splitModifiers ts = (ms, y :: e :: r) ↔
      ∃ words : List ModifierToken, ts = words.map ModifierToken.token ++ y :: e :: r ∧
        words.map ModifierToken.tree = ms := by
  fun_induction splitModifiers ts generalizing ms with
  | case1 => simp
  | case2 t =>
    simp only [Prod.mk.injEq, List.cons.injEq, reduceCtorEq, and_false, false_iff]
    rintro ⟨_ | ⟨m, words⟩, h, -⟩ <;> simp at h
  | case3 t u ts word hword hu ih =>
    -- an identifier follows the word, so it is a modifier and cannot be the type word
    refine ⟨fun h => ?_, ?_⟩
    · obtain ⟨rfl, hrest⟩ := Prod.mk.inj h
      obtain ⟨words, hts, hms⟩ := ih.mp (Prod.ext rfl hrest)
      have hm := modifierWord?_eq_some_iff.mp hword
      exact ⟨⟨t, word, hm.1, hm.2⟩ :: words, by simp [hts], by simp [hms, ModifierToken.tree]⟩
    · rintro ⟨_ | ⟨m, words⟩, hts, rfl⟩
      · cases hts
        exact absurd hu he
      · obtain ⟨rfl, htail⟩ := List.cons.inj hts
        have hm := modifierWord?_eq_some_iff.mpr ⟨m.isIdentifier, m.spells⟩
        obtain rfl := Option.some.inj (hm.symm.trans hword)
        rw [ih.mpr ⟨words, htail, rfl⟩]
        rfl
  | case4 t u ts word hword hu =>
    -- no identifier follows the word: it is the type word, whatever its spelling
    refine ⟨?_, ?_⟩
    · rintro ⟨⟩
      exact ⟨[], rfl, rfl⟩
    · rintro ⟨_ | ⟨m, words⟩, hts, rfl⟩
      · rw [hts]
        rfl
      · refine absurd ?_ hu
        obtain ⟨-, htail⟩ := List.cons.inj hts
        cases words with
        | nil =>
          cases htail
          exact hy
        | cons m words =>
          rw [(List.cons.inj htail).1]
          exact m.isIdentifier
  | case5 t u ts hword =>
    refine ⟨?_, ?_⟩
    · rintro ⟨⟩
      exact ⟨[], rfl, rfl⟩
    · rintro ⟨_ | ⟨m, words⟩, hts, rfl⟩
      · rw [hts]
        rfl
      · have hm := modifierWord?_eq_some_iff.mpr ⟨m.isIdentifier, m.spells⟩
        rw [← (List.cons.inj hts).1, hword] at hm
        cases hm

/-- The parser for fields reads what the grammar derives. -/
theorem field_reads : Reads field (fun _ => True) Field.tokens Field.tree := by
  refine ⟨fun {ts rest} hts _ {a} => ?_⟩
  simp only [field, run_bind_eq_ok_iff, run_identifier_eq_ok_iff, run_symbol_eq_ok_iff,
    run_pure_eq_ok_iff, Prod.exists]
  refine ⟨?_, ?_⟩
  · rintro ⟨n, _, ⟨rfl, hn⟩, c, r, ⟨rfl, hc⟩, ms, _, hms, y, _, ⟨rfl, hy⟩, e, r', ⟨rfl, he⟩,
      value, location, _, hi, s, _, ⟨rfl, hs⟩, hv⟩
    obtain ⟨words, rfl, rfl⟩ :=
      (splitModifiers_eq_iff hy (isIdentifier_of_isSymbol he)).mp (Except.ok.inj hms)
    have hr' : ∀ t ∈ r', t.Lexical := fun t ht => hts t (by simp [ht])
    obtain ⟨i, rfl, ⟨⟩⟩ := (integer_reads.run_iff hr' trivial).mp hi
    cases hv
    exact ⟨⟨⟨n, hn⟩, ⟨c, hc⟩, words, ⟨y, hy⟩, ⟨e, he⟩, i, ⟨s, hs⟩⟩, by simp [Field.tokens], rfl⟩
  · rintro ⟨⟨⟨n, hn⟩, ⟨c, hc⟩, words, ⟨y, hy⟩, ⟨e, he⟩, i, ⟨s, hs⟩⟩, hts', rfl⟩
    obtain rfl : ts = n :: c :: (words.map ModifierToken.token ++ y :: e :: i.token :: s :: rest) :=
      by simpa [Field.tokens] using hts'
    have hms : splitModifiers (words.map ModifierToken.token ++ y :: e :: i.token :: s :: rest) =
        (words.map ModifierToken.tree, y :: e :: i.token :: s :: rest) :=
      (splitModifiers_eq_iff hy (isIdentifier_of_isSymbol he)).mpr ⟨words, rfl, rfl⟩
    have hr : ∀ t ∈ i.token :: s :: rest, t.Lexical := fun t ht =>
      hts t (.tail _ (.tail _ (List.mem_append_right _ (.tail _ (.tail _ ht)))))
    have hi : integer.run (i.token :: s :: rest) = .ok ((i.value, i.token.location), s :: rest) :=
      (integer_reads.run_iff hr trivial).mpr ⟨i, rfl, rfl⟩
    exact ⟨n, _, ⟨rfl, hn⟩, c, _, ⟨rfl, hc⟩, _, _, congrArg Except.ok hms, y, _, ⟨rfl, hy⟩, e, _,
      ⟨rfl, he⟩, _, _, _, hi, s, _, ⟨rfl, hs⟩, rfl⟩

theorem atClose_iff :
    atClose ts = true ↔ ∃ (c : Symbol "\x7d") (r : List Token), ts = c.val :: r := by
  cases ts with
  | nil => simp [atClose]
  | cons t ts =>
    refine ⟨fun h => ⟨⟨t, h⟩, ts, rfl⟩, ?_⟩
    rintro ⟨c, r, h⟩
    rw [h]
    exact c.property

/-- The tokens that are left are those of a text. -/
theorem Advances.lexical {p : Parser α} (h : Advances p) (hts : ∀ t ∈ ts, t.Lexical) {a : α}
    (hok : p.run ts = .ok (a, rest)) : ∀ t ∈ rest, t.Lexical := by
  have hrest := h ts
  rw [hok] at hrest
  exact fun t ht => hts t (hrest.1.mem ht)

section Items

variable {item : Parser α} {advances : Advances item} {tokens : D → List Token} {tree : D → α}
  (hitem : Reads item (fun _ => True) tokens tree)
  (hstart : ∀ i, ∃ t ∈ (tokens i).head?, t.isIdentifier = true)

include hstart in
/-- Items start with an identifier, so the closing brace is not taken for the start of one. -/
theorem not_atClose_of_item (i : D) (r : List Token) : ¬ atClose (tokens i ++ r) = true := by
  intro h
  obtain ⟨c, r', hc⟩ := atClose_iff.mp h
  obtain ⟨t, hhead, hid⟩ := hstart i
  obtain ⟨tail, htail⟩ := List.head?_eq_some_iff.mp hhead
  rw [htail] at hc
  rw [(List.cons.inj hc).1] at hid
  exact isIdentifier_of_isSymbol c.property hid

include hitem in
/-- Before the closing brace, the items start with one that the parser reads. -/
theorem run_item_of_not_atClose (hts : ∀ t ∈ ts, t.Lexical) (hclose : ¬ atClose ts = true)
    {is : List D} {c : Symbol "\x7d"} (h : ts = is.flatMap tokens ++ [c.val] ++ rest) :
    ∃ i js, is = i :: js ∧ item.run ts = .ok (tree i, js.flatMap tokens ++ [c.val] ++ rest) := by
  cases is with
  | nil => exact absurd (atClose_iff.mpr ⟨c, rest, h⟩) hclose
  | cons i js =>
    refine ⟨i, js, rfl, (hitem.run_iff hts trivial).mpr ⟨i, ?_, rfl⟩⟩
    simpa using h

include hitem hstart in
/-- **The items of a block are read** if one item is, up to the closing brace. -/
theorem items_reads :
    Reads (items item advances) (fun _ => True)
      (fun d : List D × Symbol "\x7d" => d.1.flatMap tokens ++ [d.2.val])
      (fun d => d.1.map tree) := by
  refine ⟨fun {ts rest} hts _ {as} => ?_⟩
  change itemsUntilClose item advances ts = _ ↔ _
  -- along the loop: the derivations of the items split where the parser of an item stops
  fun_induction itemsUntilClose item advances ts generalizing as with
  | case1 ts hclose =>
    obtain ⟨c, r, rfl⟩ := atClose_iff.mp hclose
    refine ⟨?_, ?_⟩
    · rintro ⟨⟩
      exact ⟨([], c), rfl, rfl⟩
    · rintro ⟨⟨is, c'⟩, h, rfl⟩
      cases is with
      | nil =>
        rw [(List.cons.inj h).2]
        rfl
      | cons i is =>
        have h : c.val :: r = tokens i ++ (is.flatMap tokens ++ c'.val :: rest) := by simpa using h
        rw [h] at hclose
        exact absurd hclose (not_atClose_of_item hstart i _)
  | case2 ts hclose f herr =>
    refine ⟨fun h => ?_, ?_⟩
    · cases h
    rintro ⟨⟨is, c⟩, h, -⟩
    obtain ⟨i, js, -, hok⟩ := run_item_of_not_atClose hitem hts hclose h
    rw [herr] at hok
    cases hok
  | case3 ts hclose a rest' hok _ f herr ih =>
    refine ⟨fun h => ?_, ?_⟩
    · cases h
    rintro ⟨⟨is, c⟩, h, -⟩
    obtain ⟨i, js, -, hok'⟩ := run_item_of_not_atClose hitem hts hclose h
    obtain ⟨-, hrest⟩ := Prod.mk.inj (Except.ok.inj (hok.symm.trans hok'))
    have hrec := (ih (advances.lexical hts hok)).mpr ⟨(js, c), hrest, rfl⟩
    rw [herr] at hrec
    cases hrec
  | case4 ts hclose a rest' hok _ as' rest'' hrec ih =>
    have hrest' := advances.lexical hts hok
    refine ⟨?_, ?_⟩
    · rintro ⟨⟩
      obtain ⟨i, rfl, rfl⟩ := (hitem.run_iff hts trivial).mp hok
      obtain ⟨⟨js, c⟩, rfl, rfl⟩ := (ih hrest').mp hrec
      exact ⟨(i :: js, c), by simp, rfl⟩
    · rintro ⟨⟨is, c⟩, h, rfl⟩
      obtain ⟨i, js, rfl, hok'⟩ := run_item_of_not_atClose hitem hts hclose h
      obtain ⟨rfl, hrest⟩ := Prod.mk.inj (Except.ok.inj (hok.symm.trans hok'))
      have hrec' := (ih hrest').mpr ⟨(js, c), hrest, rfl⟩
      obtain ⟨rfl, rfl⟩ := Prod.mk.inj (Except.ok.inj (hrec.symm.trans hrec'))
      rfl

/-! ## Declarations -/

include hitem hstart in
/-- What enums and messages share: a name, items between braces and an optional semicolon. -/
theorem block_reads (tree' : String → List α → Location → β) :
    Reads (do
        let name ← identifier
        let _ ← symbol "\x7b"
        let as ← items item advances
        optionalSymbol ";"
        return tree' name.text as name.location)
      NoSemicolon (Block.tokens tokens)
      (fun b => tree' b.name.val.text (b.items.map tree) b.name.val.location) := by
  refine ⟨fun {ts rest} hts hrest {a} => ?_⟩
  simp only [run_bind_eq_ok_iff, run_identifier_eq_ok_iff, run_symbol_eq_ok_iff,
    run_pure_eq_ok_iff]
  refine ⟨?_, ?_⟩
  · rintro ⟨n, _, ⟨rfl, hn⟩, o, r, ⟨rfl, ho⟩, as, r', his, _, _, hs, hv⟩
    have hr : ∀ t ∈ r, t.Lexical := fun t ht => hts t (by simp [ht])
    obtain ⟨⟨is, c⟩, rfl, rfl⟩ := ((items_reads hitem hstart).run_iff hr trivial).mp his
    cases hv
    have hr' : ∀ t ∈ r', t.Lexical := fun t ht => hr t (by simp [ht])
    obtain ⟨s, rfl, -⟩ := (optionalSymbol_reads.run_iff hr' hrest).mp hs
    exact ⟨⟨⟨n, hn⟩, ⟨o, ho⟩, is, c, s⟩, by simp [Block.tokens], rfl⟩
  · rintro ⟨⟨⟨n, hn⟩, ⟨o, ho⟩, is, c, s⟩, hts', rfl⟩
    obtain rfl : ts = n :: o ::
        (is.flatMap tokens ++ [c.val] ++ ((s.map Subtype.val).toList ++ rest)) := by
      simpa [Block.tokens] using hts'
    have hts : ∀ t ∈ is.flatMap tokens ++ [c.val] ++ ((s.map Subtype.val).toList ++ rest),
        t.Lexical := fun t ht => hts t (.tail _ (.tail _ ht))
    have his : (items item advances).run _ = .ok (is.map tree, _) :=
      ((items_reads hitem hstart).run_iff hts trivial).mpr ⟨(is, c), rfl, rfl⟩
    have hs :=
      (optionalSymbol_reads.run_iff (fun t ht => hts t (List.mem_append_right _ ht)) hrest).mpr
      ⟨s, rfl, rfl⟩
    exact ⟨n, _, ⟨rfl, hn⟩, o, _, ⟨rfl, ho⟩, _, _, his, (), _, hs, rfl⟩

end Items

/-- Enums are read as the grammar derives them. -/
theorem enumeration_reads :
    Reads enumeration NoSemicolon (Block.tokens Grammar.Variant.tokens) Block.enumTree :=
  block_reads variant_reads (fun v => ⟨_, rfl, v.label.property⟩) fun name variants location =>
    ({ name, variants, location } : Written.Enum)

/-- So are messages. -/
theorem message_reads : Reads message NoSemicolon (Block.tokens Field.tokens) Block.messageTree :=
  block_reads field_reads (fun f => ⟨_, rfl, f.name.property⟩) fun name fields location =>
    ({ name, fields, location } : Written.Message)

theorem protocolName_reads (location : Location) :
    Reads (protocolName location) (fun _ => True) ProtocolName.tokens
      (ProtocolName.tree location) := by
  refine ⟨fun {ts rest} _ _ {a} => ?_⟩
  simp only [protocolName, run_bind_eq_ok_iff, run_identifier_eq_ok_iff, run_symbol_eq_ok_iff,
    run_pure_eq_ok_iff]
  refine ⟨?_, ?_⟩
  · rintro ⟨n, _, ⟨rfl, hn⟩, s, _, ⟨rfl, hs⟩, hv⟩
    cases hv
    exact ⟨⟨⟨n, hn⟩, ⟨s, hs⟩⟩, rfl, rfl⟩
  · rintro ⟨⟨⟨n, hn⟩, ⟨s, hs⟩⟩, rfl, rfl⟩
    exact ⟨n, _, ⟨rfl, hn⟩, s, _, ⟨rfl, hs⟩, rfl⟩

theorem constant_reads (location : Location) :
    Reads (constant location) (fun _ => True) Constant.tokens (Constant.tree location) := by
  refine ⟨fun {ts rest} hts _ {a} => ?_⟩
  simp only [constant, run_bind_eq_ok_iff, run_identifier_eq_ok_iff, run_symbol_eq_ok_iff,
    run_pure_eq_ok_iff]
  refine ⟨?_, ?_⟩
  · rintro ⟨n, _, ⟨rfl, hn⟩, c, _, ⟨rfl, hc⟩, y, _, ⟨rfl, hy⟩, e, r, ⟨rfl, he⟩, value, _, hl, s, _,
      ⟨rfl, hs⟩, hv⟩
    have hr : ∀ t ∈ r, t.Lexical := fun t ht => hts t (by simp [ht])
    obtain ⟨l, rfl, rfl⟩ := (literal_reads.run_iff hr trivial).mp hl
    cases hv
    exact ⟨⟨⟨n, hn⟩, ⟨c, hc⟩, ⟨y, hy⟩, ⟨e, he⟩, l, ⟨s, hs⟩⟩, rfl, rfl⟩
  · rintro ⟨⟨⟨n, hn⟩, ⟨c, hc⟩, ⟨y, hy⟩, ⟨e, he⟩, l, ⟨s, hs⟩⟩, rfl, rfl⟩
    have hr : ∀ t ∈ [l.token] ++ s :: rest, t.Lexical := fun t ht =>
      hts t (.tail _ (.tail _ (.tail _ (.tail _ ht))))
    have hl := (literal_reads.run_iff hr trivial).mpr ⟨l, rfl, rfl⟩
    exact ⟨n, _, ⟨rfl, hn⟩, c, _, ⟨rfl, hc⟩, y, _, ⟨rfl, hy⟩, e, _, ⟨rfl, he⟩, _, _, hl, s, _,
      ⟨rfl, hs⟩, rfl⟩

/-- Wrapping the tree of a derivation in a constructor `f` wraps the derivation in one, `wrap`. -/
theorem Reads.wrap {D' : Type} {p : Parser α} {Rest Rest' : List Token → Prop}
    {tokens : D → List Token} {tree : D → α} {tokens' : D' → List Token} {tree' : D' → β}
    (h : Reads p Rest tokens tree) (hrest : ∀ r, Rest' r → Rest r) (f : α → β) (wrap : D → D')
    (hwrap : Function.Surjective wrap) (htokens : ∀ d, tokens' (wrap d) = tokens d)
    (htree : ∀ d, tree' (wrap d) = f (tree d)) :
    Reads (do return f (← p)) Rest' tokens' tree' := by
  refine ⟨fun {ts rest} hts hr {b} => ?_⟩
  simp only [run_bind_eq_ok_iff, run_pure_eq_ok_iff]
  refine ⟨?_, ?_⟩
  · rintro ⟨a, _, ha, ⟨⟩⟩
    obtain ⟨d, rfl, rfl⟩ := (h.run_iff hts (hrest _ hr)).mp ha
    exact ⟨wrap d, by rw [htokens], htree d⟩
  · rintro ⟨d', rfl, rfl⟩
    obtain ⟨d, rfl⟩ := hwrap d'
    rw [htokens] at hts ⊢
    exact ⟨tree d, rest, (h.run_iff hts (hrest _ hr)).mpr ⟨d, rfl, rfl⟩, by rw [htree]⟩

/-- So is what follows a keyword, whichever keyword it is. -/
theorem body_reads (word : Keyword) (location : Location) :
    Reads (body word location) NoSemicolon (Body.tokens : Body word → List Token)
      (Body.tree location) := by
  cases word with
  | name =>
    exact (protocolName_reads location).wrap (fun _ _ => trivial) _ Body.name
      (fun | .name p => ⟨p, rfl⟩) (fun _ => rfl) fun _ => rfl
  | const =>
    exact (constant_reads location).wrap (fun _ _ => trivial) _ Body.constant
      (fun | .constant c => ⟨c, rfl⟩) (fun _ => rfl) fun _ => rfl
  | enum =>
    exact enumeration_reads.wrap (fun _ h => h) _ Body.enum
      (fun | .enum b => ⟨b, rfl⟩) (fun _ => rfl) fun _ => rfl
  | message =>
    exact message_reads.wrap (fun _ h => h) _ Body.message
      (fun | .message b => ⟨b, rfl⟩) (fun _ => rfl) fun _ => rfl

/-- **A declaration is read as the grammar derives it.** -/
theorem declaration_reads :
    Reads declaration NoSemicolon Grammar.Declaration.tokens Declaration.tree := by
  refine ⟨fun {ts rest} hts hrest {a} => ?_⟩
  simp only [declaration, run_bind_eq_ok_iff, Prod.exists]
  refine ⟨?_, ?_⟩
  · rintro ⟨word, location, r, hk, hb⟩
    obtain ⟨⟨word, k⟩, rfl, ⟨⟩⟩ := (keyword_reads.run_iff hts trivial).mp hk
    have hr : ∀ t ∈ r, t.Lexical := fun t ht => hts t (List.mem_cons_of_mem _ ht)
    obtain ⟨b, rfl, rfl⟩ := ((body_reads _ _).run_iff hr hrest).mp hb
    exact ⟨⟨word, k, b⟩, rfl, rfl⟩
  · rintro ⟨⟨word, k, b⟩, rfl, rfl⟩
    have hk := (keyword_reads.run_iff hts trivial).mpr ⟨⟨word, k⟩, rfl, rfl⟩
    have hr : ∀ t ∈ b.tokens ++ rest, t.Lexical := fun t ht => hts t (List.mem_cons_of_mem _ ht)
    exact ⟨_, _, _, hk, ((body_reads word _).run_iff hr hrest).mpr ⟨b, rfl, rfl⟩⟩

/-! ## Whole texts -/

theorem noSemicolon_flatMap (ds : List Grammar.Declaration) :
    NoSemicolon (ds.flatMap Declaration.tokens) := by
  cases ds with
  | nil => exact nofun
  | cons d ds => exact Declaration.noSemicolon d _

/-- A sentence that is not empty starts with a declaration that the parser reads. -/
theorem run_declaration_of_tokens_eq {t : Token} (hts : ∀ u ∈ t :: ts, u.Lexical) {s : Sentence}
    (h : s.tokens = t :: ts) :
    ∃ (d : Grammar.Declaration) (s' : Sentence), s.tree = d.tree :: s'.tree ∧
      declaration.run (t :: ts) = .ok (d.tree, s'.tokens) := by
  obtain ⟨ds⟩ := s
  cases ds with
  | nil => cases h
  | cons d ds =>
    refine ⟨d, ⟨ds⟩, rfl, ?_⟩
    exact (declaration_reads.run_iff hts (noSemicolon_flatMap ds)).mpr ⟨d, h.symm, rfl⟩

/-- **Reading a whole text is deriving it**: no declaration fails exactly if the tokens are those of
a sentence, and then the declarations are its tree. -/
theorem declarations_eq_iff {mode : ErrorMode} (hts : ∀ t ∈ ts, t.Lexical)
    {trees : List Written.Declaration} :
    declarations mode ts = (trees, []) ↔ ∃ s : Sentence, s.tokens = ts ∧ s.tree = trees := by
  fun_induction declarations mode ts generalizing trees with
  | case1 mode =>
    refine ⟨?_, ?_⟩
    · rintro ⟨⟩
      exact ⟨⟨[]⟩, rfl, rfl⟩
    · rintro ⟨⟨_ | ⟨d, ds⟩⟩, h, rfl⟩
      · rfl
      · cases h
  | case2 mode t tail d rest hok _ ds fs hrec ih =>
    have hrest := declaration_advances.lexical hts hok
    refine ⟨?_, ?_⟩
    · rintro ⟨⟩
      obtain ⟨s, rfl, rfl⟩ := (ih hrest).mp hrec
      -- what is left is a sentence, so no semicolon stands there that the declaration could take
      obtain ⟨d, h, rfl⟩ :=
        (declaration_reads.run_iff hts (noSemicolon_flatMap s.declarations)).mp hok
      exact ⟨⟨d :: s.declarations⟩, h.symm, rfl⟩
    · rintro ⟨s, h, rfl⟩
      obtain ⟨d', s', htree, hok'⟩ := run_declaration_of_tokens_eq hts h
      obtain ⟨rfl, rfl⟩ := Prod.mk.inj (Except.ok.inj (hok.symm.trans hok'))
      obtain ⟨rfl, rfl⟩ := Prod.mk.inj (hrec.symm.trans ((ih hrest).mpr ⟨s', rfl, rfl⟩))
      rw [htree]
  | case3 t tail f herr =>
    refine ⟨nofun, ?_⟩
    rintro ⟨s, h, -⟩
    obtain ⟨d, s', -, hok⟩ := run_declaration_of_tokens_eq hts h
    rw [herr] at hok
    cases hok
  | case4 t tail f herr _ ds fs hrec ih =>
    refine ⟨nofun, ?_⟩
    rintro ⟨s, h, -⟩
    obtain ⟨d, s', -, hok⟩ := run_declaration_of_tokens_eq hts h
    rw [herr] at hok
    cases hok

end Parser

/-- Reading the tokens of a text succeeds exactly if no declaration fails. -/
theorem Written.ofTokens_eq_ok_iff {mode : ErrorMode} {stream : TokenStream}
    {trees : List Written.Declaration} :
    Written.ofTokens mode stream = .ok trees ↔
      Parser.declarations mode stream.tokens = (trees, []) := by
  unfold Written.ofTokens
  obtain ⟨ds, fs⟩ := Parser.declarations mode stream.tokens
  cases fs with
  | nil => simp [Report.guard]
  | cons f fs => simp [Report.guard]

/-- **The parser is correct**, in both modes: the tokens of a text are accepted exactly if they form
a sentence of the grammar, the result is the tree of that sentence, and no other sentence has these
tokens. -/
theorem ofTokens_iff_derivation {text : String} {stream : TokenStream}
    (h : TokenStream.ofText text = .ok stream) (mode : ErrorMode) :
    (∀ trees, Written.ofTokens mode stream = .ok trees ↔
      ∃ s : Sentence, s.tokens = stream.tokens ∧ s.tree = trees) ∧
    ∀ s s' : Sentence, s.tokens = stream.tokens → s'.tokens = stream.tokens → s = s' := by
  refine ⟨fun trees => ?_, fun s s' hs hs' => Sentence.eq_of_tokens_eq (hs.trans hs'.symm)⟩
  rw [Written.ofTokens_eq_ok_iff, Parser.declarations_eq_iff (TokenStream.ofText_lexical h)]

/-- A text whose names and types are spelled like keywords and modifiers, with and without the
optional semicolon. -/
def contextualText : String :=
  "Enum name \x7b const = -1; \x7d MESSAGE optional \x7b message: optional optional = 1; \x7d; " ++
    "const enum: string = \"a\\n\";"

/-- The declarations of `contextualText`. -/
def contextualTrees : List Written.Declaration :=
  [.enum ⟨"name", [⟨"const", -1, ⟨1, 13⟩⟩], ⟨1, 6⟩⟩,
    .message ⟨"optional",
      [⟨"message", [⟨.optional, ⟨1, 55⟩⟩], "optional", ⟨1, 64⟩, 1, ⟨1, 75⟩, ⟨1, 46⟩⟩], ⟨1, 35⟩⟩,
    .constant ⟨"enum", "string", .string "a\n", ⟨1, 81⟩⟩]

/-- A text with keywords and modifiers for names has one derivation. -/
theorem contextualText_derivation :
    ∃ stream, TokenStream.ofText contextualText = .ok stream ∧
      Written.ofTokens .collect stream = .ok contextualTrees ∧
        ∃ s : Sentence, (s.tokens = stream.tokens ∧ s.tree = contextualTrees) ∧
          ∀ s' : Sentence, s'.tokens = stream.tokens → s' = s := by
  have hparse : (TokenStream.ofText contextualText).bind (Written.ofTokens .collect) =
      .ok contextualTrees := by decide +kernel
  cases hstream : TokenStream.ofText contextualText with
  | error report =>
    rw [hstream] at hparse
    cases hparse
  | ok stream =>
    rw [hstream] at hparse
    obtain ⟨hiff, hunique⟩ := ofTokens_iff_derivation hstream .collect
    obtain ⟨s, hs⟩ := (hiff contextualTrees).mp hparse
    exact ⟨stream, rfl, hparse, s, hs, fun s' hs' => hunique s' s hs' hs.1⟩

end WireSchema
