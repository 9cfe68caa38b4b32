import WireSchema.Proofs.FirstFault

/-!
# One syntax error for every broken block

A run that collects its failures goes on behind a broken enum or message exactly where its block
ends, whatever stands between the braces, as long as they are properly nested. The items of a block
take no brace, so a failure stands before any inner block and inside one open brace; from there the
end of the block is found by counting. A text made of valid declarations and broken blocks therefore
has one error for every broken block, the one that the block has alone (`ofTokens_pieces`).
-/

namespace WireSchema

open Grammar (Identifier NoSemicolon Symbol isIdentifier_of_isSymbol)

/-! ## Braces -/

/-- Is the token a brace? -/
def Token.isBrace (t : Token) : Bool :=
  t.isSymbol "\x7b" || t.isSymbol "\x7d"

theorem Token.isBrace_eq_false {t : Token} :
    t.isBrace = false ↔ t.isSymbol "\x7b" = false ∧ t.isSymbol "\x7d" = false := by
  simp [isBrace]

/-- No token is a brace. -/
def Plain (ts : List Token) : Prop :=
  ∀ t ∈ ts, t.isBrace = false

theorem Plain.append {ts us : List Token} (hts : Plain ts) (hus : Plain us) : Plain (ts ++ us) :=
  List.forall_mem_append.mpr ⟨hts, hus⟩

/-- Every brace that is opened is closed, and none is closed that was not opened. -/
inductive Nested : List Token → Prop
  | nil : Nested []
  | plain {t : Token} {ts : List Token} : t.isBrace = false → Nested ts → Nested (t :: ts)
  | block (opening : Symbol "\x7b") {inner : List Token} (closing : Symbol "\x7d")
      {ts : List Token} : Nested inner → Nested ts →
        Nested (opening.val :: (inner ++ closing.val :: ts))

/-- A token is one symbol at most. -/
theorem isSymbol_unique {t : Token} {a b : String} (ha : t.isSymbol a = true)
    (hb : t.isSymbol b = true) : a = b := by
  simp only [Token.isSymbol, Bool.and_eq_true, decide_eq_true_eq] at ha hb
  exact ha.2.symm.trans hb.2

theorem isBrace_of_closing (c : Symbol "\x7d") : c.val.isBrace = true := by
  simp [Token.isBrace, c.property]

/-- An identifier is no brace. -/
theorem isBrace_eq_false_of_isIdentifier {t : Token} (h : t.isIdentifier = true) :
    t.isBrace = false := by
  refine Token.isBrace_eq_false.mpr ⟨?_, ?_⟩ <;>
  · rw [← Bool.not_eq_true]
    exact fun hsymbol => isIdentifier_of_isSymbol hsymbol h

/-- Without a token in front that is no brace, a nested list is still nested. -/
theorem Nested.tail {t : Token} {ts : List Token} (h : Nested (t :: ts))
    (ht : t.isBrace = false) : Nested ts := by
  cases h with
  | plain _ h => exact h
  | block opening closing _ _ => simp [Token.isBrace, opening.property] at ht

/-- The part of a nested list behind tokens that are no braces is nested. -/
theorem Nested.of_plain_append {ts us : List Token} (h : Nested (ts ++ us)) (hts : Plain ts) :
    Nested us := by
  induction ts with
  | nil => exact h
  | cons t ts ih =>
    obtain ⟨ht, hts⟩ := List.forall_mem_cons.mp hts
    exact ih (h.tail ht) hts

/-- The first brace behind a nested list closes it, so a list without braces that ends there is the
whole of it. -/
theorem Nested.eq_of_plain {inner tail body rest : List Token} {c c' : Symbol "\x7d"}
    (h : Nested inner) (hbody : Plain body)
    (heq : inner ++ c.val :: tail = body ++ c'.val :: rest) : inner = body ∧ tail = rest := by
  induction body generalizing inner with
  | nil =>
    cases h with
    | nil => exact ⟨rfl, (List.cons.inj heq).2⟩
    | plain ht _ =>
      rw [(List.cons.inj heq).1, isBrace_of_closing] at ht
      cases ht
    | block opening closing _ _ =>
      have hopening := opening.property
      rw [(List.cons.inj heq).1] at hopening
      exact absurd (isSymbol_unique hopening c'.property) (by decide)
  | cons b body ih =>
    obtain ⟨hb, hbs⟩ := List.forall_mem_cons.mp hbody
    cases inner with
    | nil =>
      rw [← (List.cons.inj heq).1, isBrace_of_closing] at hb
      cases hb
    | cons t inner =>
      obtain ⟨rfl, hrest⟩ := List.cons.inj heq
      obtain ⟨rfl, htail⟩ := ih (h.tail hb) hbs hrest
      exact ⟨rfl, htail⟩

/-- Tokens without braces at the start of a block do not reach its end. -/
theorem exists_append_of_plain {inner tail used rest : List Token} {c : Symbol "\x7d"}
    (hused : Plain used) (heq : inner ++ c.val :: tail = used ++ rest) :
    ∃ left, inner = used ++ left ∧ rest = left ++ c.val :: tail := by
  rcases List.append_eq_append_iff.mp heq with ⟨more, rfl, hmore⟩ | ⟨left, hinner, hrest⟩
  · cases more with
    | nil => exact ⟨[], by simp, hmore.symm⟩
    | cons t more =>
      have ht := hused t (by simp)
      rw [← (List.cons.inj hmore).1, isBrace_of_closing] at ht
      cases ht
  · exact ⟨left, hinner, hrest⟩

/-! ## What items take -/

namespace Parser

variable {α β : Type} {ts rest used : List Token}

/-- The parser takes no brace, whether or not it succeeds. -/
structure Braceless (p : Parser α) : Prop where
  keeps : Keeps p
  ok {used rest : List Token} {a : α} : p.run (used ++ rest) = .ok (a, rest) → Plain used
  error {used rest : List Token} {fault : SyntaxFault} :
    p.run (used ++ rest) = .error ⟨fault, rest⟩ → Plain used

/-- Taking nothing takes no brace. -/
theorem braceless_pure (a : α) : Braceless (pure a : Parser α) where
  keeps := keeps_pure a
  ok {used rest b} h := by
    obtain rfl : used = [] :=
      List.append_left_eq_self.mp (Prod.mk.inj (run_pure_eq_ok_iff.mp h)).2
    exact nofun
  error h := by cases h

/-- Neither do two parsers that each take none. -/
theorem Braceless.bind {p : Parser α} {f : α → Parser β} (hp : Braceless p)
    (hf : ∀ a, Braceless (f a)) : Braceless (p >>= f) where
  keeps := hp.keeps.bind fun a => (hf a).keeps
  ok h := by
    obtain ⟨first, second, a, rfl, hpa, hfa⟩ :=
      split_of_bind_ok hp.keeps (fun a => (hf a).keeps) h
    exact (hp.ok hpa).append ((hf a).ok hfa)
  error h := by
    rcases split_of_bind_error hp.keeps (fun a => (hf a).keeps) h with
      hfail | ⟨first, second, a, rfl, hpa, hfa⟩
    · exact hp.error hfail
    · exact (hp.ok hpa).append ((hf a).error hfa)

/-- A parser for one token takes no brace if it reads none. -/
theorem token_braceless {expected : Expected} {read : Token → Except SyntaxFault α}
    (hread : ∀ {t a}, read t = .ok a → t.isBrace = false) : Braceless (token expected read) where
  keeps := (token_advances expected read).keeps
  ok {used rest a} h := by
    obtain ⟨t, ht, hta⟩ := run_token_eq_ok_iff.mp h
    rw [← List.singleton_append] at ht
    rw [List.append_cancel_right ht]
    exact List.forall_mem_singleton.mpr (hread hta)
  error h := by
    rw [run_token_eq_error h]
    exact nofun

theorem identifier_braceless : Braceless identifier :=
  token_braceless fun h => isBrace_eq_false_of_isIdentifier (accept_eq_ok_iff.mp h).1

/-- Symbols other than braces. -/
theorem symbol_braceless {spelling : String} (hopen : spelling ≠ "\x7b")
    (hclose : spelling ≠ "\x7d") : Braceless (symbol spelling) := by
  refine token_braceless fun h => Token.isBrace_eq_false.mpr ?_
  have hsymbol := (accept_eq_ok_iff.mp h).1
  rw [← Bool.not_eq_true, ← Bool.not_eq_true]
  exact ⟨fun h => hopen (isSymbol_unique hsymbol h), fun h => hclose (isSymbol_unique hsymbol h)⟩

theorem integer_braceless : Braceless integer := by
  refine token_braceless fun {t a} h => ?_
  obtain ⟨value, hvalue, -⟩ := map_eq_ok_iff.mp h
  have hkind : t.kind = .integer := by
    unfold integerOf at hvalue
    split at hvalue
    · assumption
    · cases hvalue
  simp [Token.isBrace, Token.isSymbol, hkind]

/-- Modifiers are identifiers. -/
theorem plain_of_splitModifiers {ms : List Written.Modifier}
    (h : splitModifiers (used ++ rest) = (ms, rest)) : Plain used := by
  induction used generalizing ms with
  | nil => exact nofun
  | cons u used ih =>
    rcases stop_or_word u (used ++ rest) with hstop | ⟨word, hword, hnext⟩
    · rw [List.cons_append, splitModifiers_of_stop hstop] at h
      have hlength := congrArg (List.length ∘ Prod.snd) h
      simp only [Function.comp_apply, List.length_cons, List.length_append] at hlength
      omega
    · rw [List.cons_append, splitModifiers_of_word hword hnext] at h
      refine List.forall_mem_cons.mpr
        ⟨isBrace_eq_false_of_isIdentifier (modifierWord?_eq_some_iff.mp hword).1, ?_⟩
      exact ih (Prod.ext rfl (Prod.mk.inj h).2)

/-- Modifiers are words, so they have no brace among them. -/
theorem modifiers_braceless : Braceless modifiers where
  keeps := modifiers_keeps
  ok h := plain_of_splitModifiers (Except.ok.inj h)
  error h := by cases h

/-- A variant has no brace. -/
theorem variant_braceless : Braceless variant :=
  identifier_braceless.bind fun _ => (symbol_braceless (by decide) (by decide)).bind fun _ =>
    integer_braceless.bind fun _ => (symbol_braceless (by decide) (by decide)).bind fun _ =>
      braceless_pure _

/-- A field has no brace. -/
theorem field_braceless : Braceless field :=
  identifier_braceless.bind fun _ => (symbol_braceless (by decide) (by decide)).bind fun _ =>
    modifiers_braceless.bind fun _ => identifier_braceless.bind fun _ =>
      (symbol_braceless (by decide) (by decide)).bind fun _ => integer_braceless.bind fun _ =>
        (symbol_braceless (by decide) (by decide)).bind fun _ => braceless_pure _

section Items

variable {item : Parser α} {advances : Advances item} (hitem : Braceless item)

include hitem

/-- Items that are read take one brace, the closing one at their end. -/
theorem plain_of_items_ok {as : List α}
    (h : itemsUntilClose item advances (used ++ rest) = .ok (as, rest)) :
    ∃ body, ∃ c : Symbol "\x7d", used = body ++ [c.val] ∧ Plain body := by
  generalize hts : used ++ rest = ts at h
  fun_induction itemsUntilClose item advances ts generalizing used as with
  | case1 ts hclose =>
    obtain ⟨rfl, rfl⟩ := Prod.mk.inj (Except.ok.inj h)
    obtain ⟨c, r, rfl⟩ := atClose_iff.mp hclose
    have hused : used ++ r = [c.val] ++ r := hts
    exact ⟨[], c, List.append_cancel_right hused, List.forall_mem_nil _⟩
  | case2 => cases h
  | case3 => cases h
  | case4 ts hclose a mid hok _ as' rest' hrec ih =>
    obtain ⟨rfl, rfl⟩ := Prod.mk.inj (Except.ok.inj h)
    obtain ⟨second, rfl⟩ := (items_keeps item advances).exists_used hrec
    obtain ⟨first, rfl⟩ := hitem.keeps.exists_used hok
    rw [← List.append_assoc] at hts
    obtain rfl := List.append_cancel_right hts
    obtain ⟨body, c, rfl, hbody⟩ := ih rfl hrec
    exact ⟨first ++ body, c, by rw [List.append_assoc], (hitem.ok hok).append hbody⟩

/-- Items that fail take no brace. -/
theorem plain_of_items_error {fault : SyntaxFault}
    (h : itemsUntilClose item advances (used ++ rest) = .error ⟨fault, rest⟩) : Plain used := by
  generalize hts : used ++ rest = ts at h
  fun_induction itemsUntilClose item advances ts generalizing used with
  | case1 => cases h
  | case2 ts hclose f herr =>
    obtain rfl := Except.error.inj h
    rw [← hts] at herr
    exact hitem.error herr
  | case3 ts hclose a mid hok _ f hrec ih =>
    obtain rfl := Except.error.inj h
    obtain ⟨second, rfl⟩ := (items_keeps item advances).exists_used_of_error hrec
    obtain ⟨first, rfl⟩ := hitem.keeps.exists_used hok
    rw [← List.append_assoc] at hts
    obtain rfl := List.append_cancel_right hts
    exact (hitem.ok hok).append (ih rfl hrec)
  | case4 => cases h

end Items

/-! ## Skipping the rest of a block -/

variable {depth : Nat}

/-- Inside of braces, skipping passes what is no brace. -/
theorem skip_plain {t : Token} (ht : t.isBrace = false) (hdepth : 0 < depth) :
    skip depth (t :: ts) = skip depth ts := by
  obtain ⟨hopen, hclose⟩ := Token.isBrace_eq_false.mp ht
  simp [skip, hopen, hclose, hdepth.ne']

/-- An opening brace leads one level down. -/
theorem skip_opening (o : Symbol "\x7b") (hdepth : 0 < depth) :
    skip depth (o.val :: ts) = skip (depth + 1) ts := by
  simp [skip, o.property, hdepth.ne']

theorem closing_not_opening (c : Symbol "\x7d") : c.val.isSymbol "\x7b" = false := by
  rw [← Bool.not_eq_true]
  exact fun h => absurd (isSymbol_unique h c.property) (by decide)

/-- A closing brace leads one level up. -/
theorem skip_closing (c : Symbol "\x7d") (hdepth : 0 < depth) :
    skip (depth + 1) (c.val :: ts) = skip depth ts := by
  simp [skip, c.property, closing_not_opening c, hdepth.ne']

/-- Behind the last closing brace skipping ends, a semicolon apart. -/
theorem skip_last_closing (c : Symbol "\x7d") : skip 1 (c.val :: ts) = dropSemicolon ts := by
  simp [skip, c.property, closing_not_opening c]

/-- **Inside a block, nested tokens are skipped as a whole.** -/
theorem skip_nested (h : Nested ts) (hdepth : 0 < depth) (rest : List Token) :
    skip depth (ts ++ rest) = skip depth rest := by
  induction h generalizing depth rest with
  | nil => rfl
  | plain ht _ ih => rw [List.cons_append, skip_plain ht hdepth, ih hdepth]
  | block opening closing _ _ ihinner ihts =>
    rw [List.cons_append, skip_opening opening hdepth, List.append_assoc,
      ihinner (Nat.succ_pos depth), List.cons_append, skip_closing closing hdepth, ihts hdepth]

theorem dropSemicolon_of_noSemicolon (h : NoSemicolon ts) : dropSemicolon ts = ts := by
  cases ts with
  | nil => rfl
  | cons t ts => exact if_neg (h t rfl)

/-- An optional semicolon is dropped. -/
theorem dropSemicolon_optional (s : Option (Symbol ";")) (h : NoSemicolon ts) :
    dropSemicolon ((s.map Subtype.val).toList ++ ts) = ts := by
  cases s with
  | none => exact dropSemicolon_of_noSemicolon h
  | some s => exact if_pos s.property

/-- Tokens that are no braces leave the balance as it is. -/
theorem braceBalance_foldl_plain (h : Plain ts) (depth : Int) :
    ts.foldl (fun depth t => if t.isSymbol "\x7b" then depth + 1
      else if t.isSymbol "\x7d" then depth - 1 else depth) depth = depth := by
  induction ts with
  | nil => rfl
  | cons t ts ih =>
    obtain ⟨ht, hts⟩ := List.forall_mem_cons.mp h
    obtain ⟨hopen, hclose⟩ := Token.isBrace_eq_false.mp ht
    simp only [List.foldl_cons, hopen, hclose, Bool.false_eq_true, if_false, ih hts]

/-- Behind an opening brace and no other, one brace is open. -/
theorem braceBalance_opened {before : List Token} (hbefore : Plain before) (o : Symbol "\x7b")
    (hused : Plain used) : braceBalance (before ++ o.val :: used) = 1 := by
  rw [braceBalance, List.foldl_append, braceBalance_foldl_plain hbefore, List.foldl_cons,
    if_pos o.property, braceBalance_foldl_plain hused]
  rfl

end Parser

/-! ## Blocks -/

/-- An enum or a message with anything between its braces, as long as braces are nested there. -/
structure BracedBlock where
  keyword : Token
  opens : Keyword.ofToken? keyword = some .enum ∨ Keyword.ofToken? keyword = some .message
  name : Identifier
  opening : Symbol "\x7b"
  inner : List Token
  nested : Nested inner
  closing : Symbol "\x7d"
  semicolon : Option (Symbol ";")

namespace BracedBlock

theorem keyword_isIdentifier (b : BracedBlock) : b.keyword.isIdentifier = true := by
  by_contra h
  have hopens := b.opens
  rw [Keyword.ofToken?, if_neg h] at hopens
  rcases hopens with h | h <;> cases h

/-- The tokens from the closing brace on. -/
def finish (b : BracedBlock) : List Token :=
  b.closing.val :: (b.semicolon.map Subtype.val).toList

/-- The tokens of the block. -/
def tokens (b : BracedBlock) : List Token :=
  b.keyword :: b.name.val :: b.opening.val :: (b.inner ++ b.finish)

end BracedBlock

namespace Parser

variable {α β : Type}

/-- How a run over what follows the keyword of a block can end: with all of it taken, or at a
failure between the braces that no inner brace stands before. -/
inductive BlockOutcome (b : BracedBlock) : Except Failure (α × List Token) → Prop
  | read (a : α) : BlockOutcome b (.ok (a, []))
  | broken {used left : List Token} {fault : SyntaxFault} : b.inner = used ++ left → Plain used →
      BlockOutcome b (.error ⟨fault, left ++ b.finish⟩)

/-- Behind a parser that succeeds the next one runs on what is left. -/
theorem run_bind_of_ok {p : Parser α} {f : α → Parser β} {ts rest : List Token} {a : α}
    (h : p.run ts = .ok (a, rest)) : (p >>= f).run ts = (f a).run rest := by
  rw [StateT.run_bind, h]
  rfl

/-- Behind a parser that fails nothing runs. -/
theorem run_bind_of_error {p : Parser α} {f : α → Parser β} {ts : List Token} {e : Failure}
    (h : p.run ts = .error e) : (p >>= f).run ts = .error e :=
  run_bind_eq_error_iff.mpr (.inl h)

/-- A block ends in the same way whatever is made of what was read. -/
theorem BlockOutcome.map {b : BracedBlock} {p : Parser α} {ts : List Token} (f : α → β)
    (h : BlockOutcome b (p.run ts)) :
    BlockOutcome b ((do let a ← p; return f a : Parser β).run ts) := by
  generalize hrun : p.run ts = result at h
  cases h with
  | read a =>
    rw [run_bind_of_ok hrun]
    exact .read (f a)
  | broken hinner hused =>
    rw [run_bind_of_error hrun]
    exact .broken hinner hused

theorem optionalSymbol_of_optional (s : Option (Symbol ";")) :
    (optionalSymbol ";").run (s.map Subtype.val).toList = .ok ((), []) := by
  cases s with
  | none => rfl
  | some s => exact if_pos s.property

/-- What enums and messages share: items between braces, and an optional semicolon. -/
theorem block_outcome {item : Parser α} {advances : Advances item} (hitem : Braceless item)
    (b : BracedBlock) {tree : Token → List α → β} :
    BlockOutcome b ((do
      let name ← identifier
      let _ ← symbol "\x7b"
      let as ← items item advances
      optionalSymbol ";"
      return tree name as : Parser β).run
        (b.name.val :: b.opening.val :: (b.inner ++ b.finish))) := by
  rw [run_bind_of_ok (run_identifier_eq_ok_iff.mpr ⟨rfl, b.name.property⟩),
    run_bind_of_ok (run_symbol_eq_ok_iff.mpr ⟨rfl, b.opening.property⟩)]
  cases hitems : (items item advances).run (b.inner ++ b.finish) with
  | ok r =>
    obtain ⟨as, rest⟩ := r
    obtain ⟨used, hused⟩ := (items_keeps item advances).exists_used hitems
    have htaken := hused ▸ hitems
    obtain ⟨body, c, rfl, hbody⟩ := plain_of_items_ok hitem htaken
    rw [List.append_assoc] at hused
    obtain ⟨-, hrest⟩ := b.nested.eq_of_plain hbody hused
    obtain rfl : (b.semicolon.map Subtype.val).toList = rest := hrest
    rw [run_bind_of_ok hitems, run_bind_of_ok (optionalSymbol_of_optional b.semicolon)]
    exact .read _
  | error f =>
    obtain ⟨fault, rest⟩ := f
    obtain ⟨used, hused⟩ := (items_keeps item advances).exists_used_of_error hitems
    have htaken := hused ▸ hitems
    have hplain := plain_of_items_error hitem htaken
    obtain ⟨left, hinner, rfl⟩ := exists_append_of_plain hplain hused
    rw [run_bind_of_error hitems]
    exact .broken hinner hplain

/-- **A block is read as a whole or fails inside its own braces.** -/
theorem declaration_outcome (b : BracedBlock) : BlockOutcome b (declaration.run b.tokens) := by
  have hkeyword {word : Keyword} (h : Keyword.ofToken? b.keyword = some word) :
      keyword.run b.tokens = .ok ((word, b.keyword.location), b.tokens.tail) :=
    run_token_eq_ok_iff.mpr ⟨b.keyword, rfl, by rw [h]⟩
  rcases b.opens with h | h
  · rw [declaration, run_bind_of_ok (hkeyword h)]
    exact (block_outcome variant_braceless b).map _
  · rw [declaration, run_bind_of_ok (hkeyword h)]
    exact (block_outcome field_braceless b).map _

/-- **After a failure inside a block, reading goes on behind it.** -/
theorem resume_block (b : BracedBlock) {used left rest : List Token}
    (hinner : b.inner = used ++ left) (hused : Plain used) (hrest : NoSemicolon rest) :
    resume (b.tokens ++ rest) (left ++ b.finish ++ rest) = rest := by
  let taken := [b.keyword, b.name.val] ++ b.opening.val :: used
  have hsplit : b.tokens ++ rest = taken ++ (left ++ b.finish ++ rest) := by
    simp [taken, BracedBlock.tokens, hinner]
  have hbalance : braceBalance taken = 1 := by
    refine braceBalance_opened (List.forall_mem_cons.mpr ⟨?_, List.forall_mem_singleton.mpr ?_⟩)
      b.opening hused
    · exact isBrace_eq_false_of_isIdentifier b.keyword_isIdentifier
    · exact isBrace_eq_false_of_isIdentifier b.name.property
  have hlength : (b.tokens ++ rest).length = taken.length + (left ++ b.finish ++ rest).length :=
    (congrArg List.length hsplit).trans List.length_append
  have hstop : passOne (b.tokens ++ rest) (left ++ b.finish ++ rest) =
      left ++ b.finish ++ rest := by
    refine if_neg fun hsame => ?_
    have htaken : taken.length = used.length + 3 := rfl
    omega
  have htaken : (b.tokens ++ rest).take
      ((b.tokens ++ rest).length - (left ++ b.finish ++ rest).length) = taken := by
    rw [hlength, Nat.add_sub_cancel, hsplit, List.take_left]
  have hleft : Nested left := Nested.of_plain_append (hinner ▸ b.nested) hused
  calc resume (b.tokens ++ rest) (left ++ b.finish ++ rest)
      = skip 1 (left ++ b.finish ++ rest) := by
        rw [resume, hstop, skipFrom, htaken, hbalance]
        rfl
    _ = skip 1 (b.finish ++ rest) := by
        rw [List.append_assoc, skip_nested hleft Nat.one_pos]
    _ = dropSemicolon ((b.semicolon.map Subtype.val).toList ++ rest) := skip_last_closing b.closing
    _ = rest := dropSemicolon_optional b.semicolon hrest

end Parser

open WireSchema.Parser

/-! ## Pieces -/

/-- The tokens are those of one valid declaration. -/
def Declares (ts : List Token) (d : Written.Declaration) : Prop :=
  ∀ mode finish, Written.ofTokens mode ⟨ts, finish⟩ = .ok [d]

/-- A valid declaration, or a block that is none. -/
inductive Piece where
  | valid (tokens : List Token) (d : Written.Declaration) (declares : Declares tokens d)
  | broken (block : BracedBlock) (invalid : ∀ d, ¬ Declares block.tokens d)

namespace Piece

def tokens : Piece → List Token
  | valid tokens _ _ => tokens
  | broken block _ => block.tokens

def declaration? : Piece → Option Written.Declaration
  | valid _ d _ => some d
  | broken _ _ => none

def block? : Piece → Option BracedBlock
  | valid _ _ _ => none
  | broken block _ => some block

end Piece

/-- Only no tokens at all give neither a declaration nor a failure. -/
theorem eq_nil_of_declarations {mode : ErrorMode} {ts : List Token}
    (hds : (declarations mode ts).1 = []) (hfs : (declarations mode ts).2 = []) : ts = [] := by
  cases ts with
  | nil => rfl
  | cons t ts =>
    cases hrun : declaration.run (t :: ts) with
    | ok r =>
      rw [declarations_of_ok hrun] at hds
      cases hds
    | error f =>
      obtain ⟨fs, hcons⟩ := declarations_of_run_error mode hrun
      cases hcons.symm.trans hfs

/-- A text is one declaration if reading one takes all of it. -/
theorem declares_iff {ts : List Token} {d : Written.Declaration} :
    Declares ts d ↔ declaration.run ts = .ok (d, []) := by
  refine ⟨fun h => ?_, fun h mode finish => ?_⟩
  · have hread := Written.ofTokens_eq_ok_iff.mp (h .failFast ⟨1, 1⟩)
    cases ts with
    | nil => cases hread.symm.trans (declarations_nil _)
    | cons t ts =>
      cases hrun : declaration.run (t :: ts) with
      | error f =>
        rw [declarations_failFast_of_error hrun] at hread
        cases hread
      | ok r =>
        obtain ⟨d', rest⟩ := r
        rw [declarations_of_ok hrun] at hread
        obtain ⟨hds, hfs⟩ := Prod.mk.inj hread
        obtain ⟨rfl, hnone⟩ := List.cons.inj hds
        rw [eq_nil_of_declarations hnone hfs]
  · exact Written.ofTokens_eq_ok_iff.mpr (by rw [declarations_of_run_ok h, declarations_nil])

/-- A broken block fails at one of its tokens, whatever follows it, and reading goes on behind it.
-/
theorem exists_failure_of_broken {b : BracedBlock} (h : ∀ d, ¬ Declares b.tokens d) :
    ∃ t ∈ b.tokens, ∃ fault r, ∀ rest,
      declaration.run (b.tokens ++ rest) = .error ⟨fault, t :: (r ++ rest)⟩ ∧
        (NoSemicolon rest → resume (b.tokens ++ rest) (t :: (r ++ rest)) = rest) := by
  have houtcome := declaration_outcome b
  generalize hrun : declaration.run b.tokens = result at houtcome
  cases houtcome with
  | read d => exact absurd (declares_iff.mpr hrun) (h d)
  | @broken used left fault hinner hused =>
    obtain ⟨t, r, hr⟩ : ∃ t r, left ++ b.finish = t :: r :=
      List.exists_cons_of_ne_nil (List.append_ne_nil_of_right_ne_nil left (List.cons_ne_nil _ _))
    obtain ⟨taken, htaken⟩ := declaration_predictive.keeps.exists_used_of_error hrun
    rw [hr] at hrun htaken
    rw [htaken] at hrun
    refine ⟨t, by simp [htaken], fault, r, fun rest => ⟨?_, fun hrest => ?_⟩⟩
    · rw [htaken, List.append_assoc]
      exact declaration_predictive.blames (r ++ rest) hrun
    · rw [← List.cons_append, ← hr]
      exact resume_block b hinner hused hrest

/-- The diagnostic is the only one of the block alone, and is located at one of its tokens. -/
def BracedBlock.HasError (b : BracedBlock) (error : Diagnostic) : Prop :=
  (∃ t ∈ b.tokens, error.location = t.location) ∧
    ∀ mode finish, Written.ofTokens mode ⟨b.tokens, finish⟩ = .error ⟨error, []⟩

/-- A broken block adds its own error to those of what follows, and nothing else. -/
theorem declarations_broken {b : BracedBlock} (h : ∀ d, ¬ Declares b.tokens d) :
    ∃ error, b.HasError error ∧ ∀ rest, NoSemicolon rest →
      ∃ f : Failure, (∀ finish, f.diagnostic finish = error) ∧
        declarations .collect (b.tokens ++ rest) =
          ((declarations .collect rest).1, f :: (declarations .collect rest).2) := by
  obtain ⟨t, ht, fault, r, hfail⟩ := exists_failure_of_broken h
  have hcollect (rest : List Token) (hrest : NoSemicolon rest) :
      declarations .collect (b.tokens ++ rest) = ((declarations .collect rest).1,
        ⟨fault, t :: (r ++ rest)⟩ :: (declarations .collect rest).2) := by
    obtain ⟨hrun, hresume⟩ := hfail rest
    have hread : declarations .collect (b.tokens ++ rest) = _ := declarations_collect_of_error hrun
    rw [hread]
    exact congrArg (fun ts => ((declarations .collect ts).1, _ :: (declarations .collect ts).2))
      (hresume hrest)
  refine ⟨⟨.syntactic fault, t.location⟩, ⟨⟨t, ht, rfl⟩, fun mode finish => ?_⟩,
    fun rest hrest => ⟨⟨fault, t :: (r ++ rest)⟩, fun _ => rfl, hcollect rest hrest⟩⟩
  cases mode with
  | failFast =>
    obtain ⟨hrun, -⟩ := hfail []
    rw [List.append_nil] at hrun
    have halone : declarations .failFast b.tokens = _ := declarations_failFast_of_error hrun
    rw [Written.ofTokens, halone]
    rfl
  | collect =>
    have halone := hcollect [] fun t ht => absurd ht (Option.not_mem_none t)
    rw [List.append_nil, declarations_nil] at halone
    rw [Written.ofTokens, halone]
    rfl

theorem NoSemicolon.append {ts us : List Token} (hts : NoSemicolon ts) (hus : NoSemicolon us) :
    NoSemicolon (ts ++ us) := by
  cases ts with
  | nil => exact hus
  | cons t ts => exact hts

/-- No piece starts with a semicolon. -/
theorem noSemicolon_pieces (pieces : List Piece) : NoSemicolon (pieces.flatMap Piece.tokens) := by
  induction pieces with
  | nil => exact nofun
  | cons piece pieces ih =>
    refine NoSemicolon.append ?_ ih
    cases piece with
    | valid tokens d declares => exact noSemicolon_of_run (declares_iff.mp declares)
    | broken b _ =>
      rintro t ⟨⟩ hsymbol
      exact isIdentifier_of_isSymbol hsymbol b.keyword_isIdentifier

/-- What a run over pieces collects. -/
theorem declarations_pieces (pieces : List Piece) (finish : Location) :
    ∃ fs : List Failure,
      List.Forall₂ BracedBlock.HasError (pieces.filterMap Piece.block?)
        (fs.map (Failure.diagnostic finish)) ∧
      declarations .collect (pieces.flatMap Piece.tokens) =
        (pieces.filterMap Piece.declaration?, fs) := by
  induction pieces with
  | nil => exact ⟨[], .nil, declarations_nil _⟩
  | cons piece pieces ih =>
    obtain ⟨fs, herrors, hread⟩ := ih
    have hrest := noSemicolon_pieces pieces
    rw [List.flatMap_cons]
    cases piece with
    | valid tokens d declares =>
      have hrun := declares_iff.mp declares
      rw [← List.append_nil tokens] at hrun
      have hrun := declaration_predictive.stable hrun (.inr hrest)
      exact ⟨fs, herrors, by rw [Piece.tokens, declarations_of_run_ok hrun, hread]; rfl⟩
    | broken b invalid =>
      obtain ⟨error, hb, hadds⟩ := declarations_broken invalid
      obtain ⟨f, hf, hfirst⟩ := hadds _ hrest
      refine ⟨f :: fs, .cons (hf finish ▸ hb) herrors, ?_⟩
      rw [Piece.tokens, hfirst, hread]
      rfl

/-- **Every broken block has one syntax error, and valid declarations have none.** A run that
collects, over declarations and broken blocks in any order, reports exactly the errors that the
broken blocks have alone, in their order, each located at a token of its block; without a broken
block it returns the declarations. -/
theorem ofTokens_pieces (pieces : List Piece) (finish : Location) :
    ∃ errors : List Diagnostic,
      List.Forall₂ BracedBlock.HasError (pieces.filterMap Piece.block?) errors ∧
      Written.ofTokens .collect ⟨pieces.flatMap Piece.tokens, finish⟩ =
        Report.guard (pieces.filterMap Piece.declaration?) errors := by
  obtain ⟨fs, herrors, hread⟩ := declarations_pieces pieces finish
  refine ⟨_, herrors, ?_⟩
  rw [Written.ofTokens, hread]

/-! ## Two broken blocks around a declaration -/

namespace Scattered

def word (text : String) (column : Nat) : Token :=
  ⟨.identifier, text, ⟨1, column⟩⟩

def symbol (text : String) (column : Nat) : Token :=
  ⟨.symbol, text, ⟨1, column⟩⟩

/-- A message that holds what looks like a declaration. -/
def outer : BracedBlock :=
  { keyword := word "message" 1
    opens := .inr (by decide)
    name := ⟨word "A" 9, by decide⟩
    opening := ⟨symbol "\x7b" 11, by decide⟩
    inner := [word "enum" 13, word "B" 18, symbol "\x7b" 20, symbol "\x7d" 22, symbol ";" 23]
    nested := .plain (by decide) (.plain (by decide)
      (.block ⟨symbol "\x7b" 20, by decide⟩ ⟨symbol "\x7d" 22, by decide⟩ .nil
        (.plain (by decide) .nil)))
    closing := ⟨symbol "\x7d" 25, by decide⟩
    semicolon := none }

/-- A message with half a field. -/
def short : BracedBlock :=
  { keyword := word "Message" 38
    opens := .inr (by decide)
    name := ⟨word "D" 46, by decide⟩
    opening := ⟨symbol "\x7b" 48, by decide⟩
    inner := [word "x" 50]
    nested := .plain (by decide) .nil
    closing := ⟨symbol "\x7d" 52, by decide⟩
    semicolon := some ⟨symbol ";" 53, by decide⟩ }

/-- Tokens that the parser refuses are no declaration. -/
theorem not_declares {ts : List Token} (h : (declaration.run ts).toOption = none)
    (d : Written.Declaration) : ¬ Declares ts d := by
  intro hd
  rw [declares_iff.mp hd] at h
  cases h

def enum : Written.Declaration :=
  .enum ⟨"C", [], ⟨1, 32⟩⟩

def pieces : List Piece :=
  [.broken outer (not_declares (by decide +kernel)),
    .valid [word "enum" 27, word "C" 32, symbol "\x7b" 34, symbol "\x7d" 36] enum
      (declares_iff.mpr (by decide +kernel)),
    .broken short (not_declares (by decide +kernel))]

/-- In both blocks the colon of a field is missing. -/
def errors : List Diagnostic :=
  [⟨.syntactic (.unexpectedToken (.symbol ":") (some (word "B" 18))), ⟨1, 18⟩⟩,
    ⟨.syntactic (.unexpectedToken (.symbol ":") (some (symbol "\x7d" 52))), ⟨1, 52⟩⟩]

/-- One error for each of the two blocks, and none for the declaration between them. -/
theorem ofTokens_scattered :
    List.Forall₂ BracedBlock.HasError [outer, short] errors ∧
      Written.ofTokens .collect ⟨pieces.flatMap Piece.tokens, ⟨1, 54⟩⟩ =
        Report.guard [enum] errors ∧
      Written.ofTokens .collect
        ⟨(pieces.filter (·.block?.isNone)).flatMap Piece.tokens, ⟨1, 54⟩⟩ = .ok [enum] := by
  obtain ⟨found, hblocks, hread⟩ := ofTokens_pieces pieces ⟨1, 54⟩
  obtain ⟨others, hothers, hvalid⟩ := ofTokens_pieces (pieces.filter (·.block?.isNone)) ⟨1, 54⟩
  have hread' : Written.ofTokens .collect ⟨pieces.flatMap Piece.tokens, ⟨1, 54⟩⟩ =
      Report.guard [enum] errors := by
    decide +kernel
  obtain rfl : found = errors := by
    rw [hread'] at hread
    match found, hread with
    | _ :: _, rfl => rfl
  cases hothers
  exact ⟨hblocks, hread', hvalid⟩

end Scattered

end WireSchema
