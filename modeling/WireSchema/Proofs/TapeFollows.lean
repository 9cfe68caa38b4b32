import Mathlib.Data.List.Basic
import WireSchema.Proofs.Lexical
import WireSchema.Proofs.Tape

/-!
# Reading by index does what reading a list does

A parser over a list leaves a suffix of it (`Parser.Keeps`), and a suffix of a list of tokens is a
place in it. `Follows p q` says that reading by index (`p`) does what reading a list does (`q`), at
every place. It holds of single tokens, goes through `do`, and so holds of declarations, of the
skips after a failure and of the whole run (`Tape.declarationsFrom_eq`).
-/

namespace WireSchema

namespace Tape

variable {α β : Type} {tokens : List Token} {i : Nat}

/-! ## Places -/

/-- A tape has one entry behind its last token, which is its end. -/
theorem length_ofTokens (tokens : List Token) : (ofTokens tokens).length = tokens.length + 1 := by
  simp [ofTokens]

/-- A place is the number of tokens before a suffix. -/
def place (tokens rest : List Token) : Nat :=
  tokens.length - rest.length

/-- A place is on the tape. -/
theorem place_le (tokens rest : List Token) : place tokens rest ≤ tokens.length :=
  Nat.sub_le _ _

/-- The tokens from the place of a rest on are the rest. -/
theorem drop_place {rest : List Token} (h : rest <:+ tokens) :
    tokens.drop (place tokens rest) = rest :=
  (List.suffix_iff_eq_drop.mp h).symm

/-- The place of the tokens from an index on is the index. -/
theorem place_drop (h : i ≤ tokens.length) : place tokens (tokens.drop i) = i := by
  rw [place, List.length_drop]
  omega

/-- The place behind the first token of a suffix. -/
theorem place_of_drop_eq_cons {t : Token} {ts : List Token} (h : tokens.drop i = t :: ts) :
    place tokens ts = i + 1 ∧ i < tokens.length ∧ tokens.drop (i + 1) = ts := by
  have hlength := congrArg List.length h
  rw [List.length_drop, List.length_cons] at hlength
  have htail := congrArg List.tail h
  rw [List.tail_drop, List.tail_cons] at htail
  rw [place]
  exact ⟨by omega, by omega, htail⟩

/-- An index of a tape holds the next token, or its end. -/
theorem getElem?_ofTokens (h : i ≤ tokens.length) :
    (ofTokens tokens)[i]? = some (tokens.drop i).head? := by
  rw [ofTokens, List.head?_drop]
  rcases Nat.lt_or_eq_of_le h with hlt | rfl
  · rw [List.getElem?_append_left (by simpa using hlt), List.getElem?_map,
      List.getElem?_eq_getElem hlt]
    rfl
  · simp

/-- What is at a place is the first token of the suffix. -/
theorem get_ofTokens (h : i ≤ tokens.length) :
    (ofTokens tokens).get i = .ok (tokens.drop i).head? := by
  rw [get, getElem?_ofTokens h]
  rfl

/-- In front of a token the tape can be moved on. -/
theorem advance_of_drop_eq_cons {t : Token} {ts : List Token} (h : tokens.drop i = t :: ts) :
    (ofTokens tokens).advance i = .ok (i + 1) := by
  rw [advance, get_ofTokens (Nat.le_of_lt (place_of_drop_eq_cons h).2.1), h]
  rfl

/-! ## Following a parser of lists -/

/-- A result with places in the place of suffixes. -/
def placed (tokens : List Token) : Except Failure (α × List Token) → Except Stop (α × Nat)
  | .ok (a, rest) => .ok (a, place tokens rest)
  | .error f => .error (.failure f.fault (place tokens f.rest))

theorem placed_ok {a : α} {rest : List Token} {j : Nat} (h : place tokens rest = j) :
    placed tokens (.ok (a, rest)) = .ok (a, j) := by
  rw [placed, h]

theorem placed_error {fault : SyntaxFault} {rest : List Token} {j : Nat}
    (h : place tokens rest = j) :
    placed tokens (.error ⟨fault, rest⟩ : Except Failure (α × List Token)) =
      .error (.failure fault j) := by
  rw [placed, h]

/-- Reading by index does what reading a list does, at every place of the tokens. -/
structure Follows (tokens : List Token) (p : Cursor α) (q : Parser α) : Prop where
  keeps : q.Keeps
  run_eq : ∀ i ≤ tokens.length, p.run i = placed tokens (q.run (tokens.drop i))

/-- A cursor that follows a parser does at the place of a rest what the parser does to the rest. -/
theorem Follows.run_of_suffix {p : Cursor α} {q : Parser α} (h : Follows tokens p q)
    {rest : List Token} (hrest : rest <:+ tokens) :
    p.run (place tokens rest) = placed tokens (q.run rest) := by
  rw [h.run_eq _ (place_le _ _), drop_place hrest]

theorem Follows.pure (a : α) : Follows tokens (Pure.pure a) (Pure.pure a) :=
  ⟨Parser.keeps_pure a, fun _ hi => (placed_ok (place_drop hi)).symm⟩

/-- Cursors that follow parsers can be put together. -/
theorem Follows.bind {p : Cursor α} {q : Parser α} {p' : α → Cursor β} {q' : α → Parser β}
    (h : Follows tokens p q) (h' : ∀ a, Follows tokens (p' a) (q' a)) :
    Follows tokens (p >>= p') (q >>= q') := by
  refine ⟨h.keeps.bind fun a => (h' a).keeps, fun i hi => ?_⟩
  have hkept := h.keeps (tokens.drop i)
  rw [StateT.run_bind, StateT.run_bind, h.run_eq i hi]
  cases hr : q.run (tokens.drop i) with
  | error f => rfl
  | ok r =>
    obtain ⟨a, rest⟩ := r
    rw [hr] at hkept
    exact (h' a).run_of_suffix (hkept.trans (List.drop_suffix _ _))

/-- Taking one token. -/
theorem follows_token {expected : Expected} {read : Token → Except SyntaxFault α}
    {read' : Token → Option (Except SyntaxFault α)} (h : ∀ t ∈ tokens, read' t = some (read t)) :
    Follows tokens ((ofTokens tokens).token expected read') (Parser.token expected read) := by
  refine ⟨(Parser.token_advances _ _).keeps, fun i hi => ?_⟩
  rw [StateT.run, StateT.run, token, get_ofTokens hi]
  cases hts : tokens.drop i with
  | nil =>
    have hplace : place tokens [] = i := by rw [← hts, place_drop hi]
    exact (placed_error hplace).symm
  | cons t ts =>
    obtain ⟨hplace, -, -⟩ := place_of_drop_eq_cons hts
    have hstart : place tokens (t :: ts) = i := by rw [← hts, place_drop hi]
    have ht : t ∈ tokens := List.mem_of_mem_drop (hts ▸ List.mem_cons_self)
    simp only [List.head?_cons, bind, Except.bind, h t ht, Parser.token]
    cases read t with
    | error fault => exact (placed_error hstart).symm
    | ok a =>
      rw [advance_of_drop_eq_cons hts]
      exact (placed_ok hplace).symm

theorem follows_symbol (spelling : String) :
    Follows tokens ((ofTokens tokens).symbol spelling) (Parser.symbol spelling) :=
  follows_token fun _ _ => rfl

theorem follows_identifier : Follows tokens (ofTokens tokens).identifier Parser.identifier :=
  follows_token fun _ _ => rfl

theorem follows_integer : Follows tokens (ofTokens tokens).integer Parser.integer :=
  follows_token fun _ _ => rfl

theorem follows_keyword : Follows tokens (ofTokens tokens).keyword Parser.keyword := by
  refine follows_token fun t _ => ?_
  cases Keyword.ofToken? t <;> rfl

/-- Every string among the tokens has its two quotes. -/
def Quoted (tokens : List Token) : Prop :=
  ∀ t ∈ tokens, t.kind = .string → isQuoted t.text = true

/-- A cursor takes the literals that the parser takes, if all string tokens are quoted. -/
theorem follows_literal (h : Quoted tokens) :
    Follows tokens (ofTokens tokens).literal Parser.literal := by
  refine follows_token fun t ht => if_neg ?_
  by_cases hkind : t.kind = .string
  · simp [h t ht hkind]
  · simp [hkind]

/-- A symbol that may be missing. -/
theorem passSymbol_eq (spelling : String) (hi : i ≤ tokens.length) :
    (ofTokens tokens).optionalSymbol spelling i =
      placed tokens (Parser.optionalSymbol spelling (tokens.drop i)) := by
  rw [optionalSymbol, passSymbol, get_ofTokens hi]
  cases hts : tokens.drop i with
  | nil =>
    have hplace : place tokens [] = i := by rw [← hts, place_drop hi]
    exact (placed_ok hplace).symm
  | cons t ts =>
    obtain ⟨hplace, -, -⟩ := place_of_drop_eq_cons hts
    have hstart : place tokens (t :: ts) = i := by rw [← hts, place_drop hi]
    rw [Parser.optionalSymbol]
    by_cases ht : t.isSymbol spelling = true
    · simp only [List.head?_cons, Option.any_some, bind, Except.bind, ht, ↓reduceIte,
        advance_of_drop_eq_cons hts]
      exact (placed_ok hplace).symm
    · simp only [List.head?_cons, Option.any_some, bind, Except.bind, ht]
      exact (placed_ok hstart).symm

theorem follows_optionalSymbol (spelling : String) :
    Follows tokens ((ofTokens tokens).optionalSymbol spelling) (Parser.optionalSymbol spelling) :=
  ⟨Parser.optionalSymbol_keeps spelling, fun _ hi => passSymbol_eq spelling hi⟩

/-! ## Declarations -/

theorem follows_variant : Follows tokens (ofTokens tokens).variant Parser.variant :=
  follows_identifier.bind fun _ =>
    (follows_symbol _).bind fun _ =>
      follows_integer.bind fun _ =>
        (follows_symbol _).bind fun _ => .pure _

section

variable {tape : Tape} {t : Token}

/-- There is no modifier at the end of a tape. -/
theorem modifiersFrom_of_end (h : tape[i]? = some none) : tape.modifiersFrom i = .ok ([], i) := by
  rw [modifiersFrom]
  split <;> simp_all

/-- A token that is no modifier word ends the modifiers. -/
theorem modifiersFrom_of_other (h : tape[i]? = some (some t))
    (hword : Parser.modifierWord? t = none) :
    tape.modifiersFrom i = .ok ([], i) := by
  rw [modifiersFrom]
  split <;> simp_all

/-- A modifier word is a modifier if an identifier follows it. -/
theorem modifiersFrom_of_word (h : tape[i]? = some (some t)) {word : Written.ModifierWord}
    (hword : Parser.modifierWord? t = some word) {next : Option Token}
    (hnext : tape.get (i + 1) = .ok next) :
    tape.modifiersFrom i =
      if next.any (·.isIdentifier) then
        (tape.modifiersFrom (i + 1)).map fun r => (⟨word, t.location⟩ :: r.1, r.2)
      else .ok ([], i) := by
  rw [modifiersFrom]
  split
  · simp_all
  · simp_all
  · rename_i u hu
    obtain rfl : t = u := by simpa [h] using hu
    simp only [hword, hnext, bind, Except.bind]
    split
    · cases tape.modifiersFrom (i + 1) <;> rfl
    · rfl

end

/-- The modifiers on a tape are those that are split from its tokens. -/
theorem modifiersFrom_eq {ts : List Token} (hi : i ≤ tokens.length) (hts : tokens.drop i = ts) :
    (ofTokens tokens).modifiersFrom i =
      .ok ((Parser.splitModifiers ts).1, place tokens (Parser.splitModifiers ts).2) := by
  have hentry := getElem?_ofTokens hi
  have hstart : place tokens ts = i := by rw [← hts, place_drop hi]
  rw [hts] at hentry
  fun_induction Parser.splitModifiers ts generalizing i with
  | case1 => rw [modifiersFrom_of_end hentry, hstart]
  | case2 t =>
    cases hword : Parser.modifierWord? t with
    | none => rw [modifiersFrom_of_other hentry hword, hstart]
    | some word =>
      obtain ⟨-, hlt, hnil⟩ := place_of_drop_eq_cons hts
      have hnext := get_ofTokens hlt
      rw [modifiersFrom_of_word hentry hword hnext, hnil, hstart]
      rfl
  | case3 t u ts word hword hu ih =>
    obtain ⟨hplace, hlt, hdrop⟩ := place_of_drop_eq_cons hts
    have hnext := get_ofTokens hlt
    have hentry' := getElem?_ofTokens hlt
    rw [hdrop] at hnext hentry'
    rw [modifiersFrom_of_word hentry hword hnext, ih hlt hdrop hentry' hplace]
    simp [hu, Except.map]
  | case4 t u ts word hword hu =>
    obtain ⟨-, hlt, hdrop⟩ := place_of_drop_eq_cons hts
    have hnext := get_ofTokens hlt
    rw [modifiersFrom_of_word hentry hword hnext, hdrop, hstart]
    simp [hu]
  | case5 t u ts hword => rw [modifiersFrom_of_other hentry hword, hstart]

theorem follows_modifiers :
    Follows tokens (ofTokens tokens).modifiersFrom Parser.modifiers :=
  ⟨Parser.modifiers_keeps, fun _ hi => modifiersFrom_eq hi rfl⟩

theorem follows_field : Follows tokens (ofTokens tokens).field Parser.field :=
  follows_identifier.bind fun _ =>
    (follows_symbol _).bind fun _ =>
      follows_modifiers.bind fun _ =>
        follows_identifier.bind fun _ =>
          (follows_symbol _).bind fun _ =>
            follows_integer.bind fun _ =>
              (follows_symbol _).bind fun _ => .pure _

section

variable {tape : Tape} {item : Cursor α} {entry : Option Token}

/-- A closing brace ends the items. -/
theorem itemsFrom_of_close (h : tape.get i = .ok entry)
    (hclose : entry.any (·.isSymbol "\x7d") = true) :
    tape.itemsFrom item i = (tape.advance i).map ([], ·) := by
  rw [itemsFrom, h]
  simp only [bind, Except.bind, hclose, ↓reduceIte]
  cases tape.advance i <;> rfl

/-- An item that fails ends the items. -/
theorem itemsFrom_of_error (h : tape.get i = .ok entry)
    (hclose : ¬entry.any (·.isSymbol "\x7d") = true) {e : Stop} (hitem : item.run i = .error e) :
    tape.itemsFrom item i = .error e := by
  rw [itemsFrom, h]
  simp only [bind, Except.bind, hclose, hitem]
  rfl

/-- Behind an item the items go on, as it has moved the cursor. -/
theorem itemsFrom_of_ok (h : tape.get i = .ok entry)
    (hclose : ¬entry.any (·.isSymbol "\x7d") = true) {a : α} {j : Nat}
    (hitem : item.run i = .ok (a, j)) (hij : i < j) (hj : j < tape.length) :
    tape.itemsFrom item i = (tape.itemsFrom item j).map fun r => (a :: r.1, r.2) := by
  rw [itemsFrom, h]
  simp only [bind, Except.bind, hclose, hitem, hij, hj, and_self, ↓reduceIte]
  cases tape.itemsFrom item j <;> rfl

end

/-- A shorter suffix is at a later place on the tape. -/
theorem place_lt {rest : List Token} (hrest : rest <:+ tokens.drop i)
    (hlt : rest.length < (tokens.drop i).length) :
    i < place tokens rest ∧ place tokens rest < (ofTokens tokens).length := by
  have hle := hrest.length_le
  rw [List.length_drop] at hlt
  rw [place, length_ofTokens]
  omega

theorem atClose_eq (ts : List Token) : Parser.atClose ts = ts.head?.any (·.isSymbol "\x7d") := by
  cases ts <;> rfl

/-- **The items of a block are followed** if a single item is, by induction on the tokens that are
left. -/
theorem follows_items {p : Cursor α} {q : Parser α} (h : Follows tokens p q)
    (advances : q.Advances) :
    Follows tokens ((ofTokens tokens).itemsFrom p) (Parser.items q advances) := by
  refine ⟨Parser.items_keeps q advances, fun i hi => ?_⟩
  show (ofTokens tokens).itemsFrom p i =
    placed tokens (Parser.itemsUntilClose q advances (tokens.drop i))
  -- every item takes a token, so the number of tokens left is what goes down
  induction hn : tokens.length - i using Nat.strong_induction_on generalizing i with
  | _ n ih =>
    have hentry := get_ofTokens hi
    have hitem := h.run_eq i hi
    have hkept := advances (tokens.drop i)
    by_cases hclose : Parser.atClose (tokens.drop i) = true
    · rw [Parser.itemsUntilClose_of_atClose hclose]
      rw [atClose_eq] at hclose
      cases hts : tokens.drop i with
      | nil =>
        rw [hts] at hclose
        cases hclose
      | cons t ts =>
        rw [itemsFrom_of_close hentry hclose, advance_of_drop_eq_cons hts]
        exact (placed_ok (place_of_drop_eq_cons hts).1).symm
    · cases hrun : q.run (tokens.drop i) with
      | error f =>
        rw [Parser.itemsUntilClose_of_error hclose hrun]
        rw [atClose_eq] at hclose
        rw [hrun] at hitem
        exact itemsFrom_of_error hentry hclose hitem
      | ok r =>
        obtain ⟨a, rest⟩ := r
        rw [Parser.itemsUntilClose_of_ok hclose hrun]
        rw [atClose_eq] at hclose
        rw [hrun] at hitem hkept
        obtain ⟨hij, hj⟩ := place_lt hkept.1 hkept.2
        have hle := place_le tokens rest
        have hlater := ih (tokens.length - place tokens rest) (by omega) _ hle rfl
        rw [drop_place (hkept.1.trans (List.drop_suffix _ _))] at hlater
        rw [itemsFrom_of_ok hentry hclose hitem hij hj, hlater]
        cases Parser.itemsUntilClose q advances rest <;> rfl

theorem follows_protocolName (location : Location) :
    Follows tokens ((ofTokens tokens).protocolName location) (Parser.protocolName location) :=
  follows_identifier.bind fun _ =>
    (follows_symbol _).bind fun _ => .pure _

/-- A cursor takes a constant as the parser does. -/
theorem follows_constant (h : Quoted tokens) (location : Location) :
    Follows tokens ((ofTokens tokens).constant location) (Parser.constant location) :=
  follows_identifier.bind fun _ =>
    (follows_symbol _).bind fun _ =>
      follows_identifier.bind fun _ =>
        (follows_symbol _).bind fun _ =>
          (follows_literal h).bind fun _ =>
            (follows_symbol _).bind fun _ => .pure _

theorem follows_enumeration :
    Follows tokens (ofTokens tokens).enumeration Parser.enumeration :=
  follows_identifier.bind fun _ =>
    (follows_symbol _).bind fun _ =>
      (follows_items follows_variant _).bind fun _ =>
        (follows_optionalSymbol _).bind fun _ => .pure _

theorem follows_message : Follows tokens (ofTokens tokens).message Parser.message :=
  follows_identifier.bind fun _ =>
    (follows_symbol _).bind fun _ =>
      (follows_items follows_field _).bind fun _ =>
        (follows_optionalSymbol _).bind fun _ => .pure _

/-- What follows a keyword is followed, whichever keyword it is. -/
theorem follows_body (h : Quoted tokens) (word : Keyword) (location : Location) :
    Follows tokens ((ofTokens tokens).body word location) (Parser.body word location) := by
  cases word with
  | name => exact (follows_protocolName location).bind fun _ => .pure _
  | const => exact (follows_constant h location).bind fun _ => .pure _
  | enum => exact follows_enumeration.bind fun _ => .pure _
  | message => exact follows_message.bind fun _ => .pure _

/-- **A declaration is followed.** -/
theorem follows_declaration (h : Quoted tokens) :
    Follows tokens (ofTokens tokens).declaration Parser.declaration :=
  follows_keyword.bind fun _ => follows_body h _ _

/-! ## Resuming after a failure -/

/-- Outside of braces, the tape and the parser agree where a declaration starts. -/
theorem startsDeclaration_eq {t : Token} {ts : List Token} (hts : tokens.drop i = t :: ts)
    (depth : Int) :
    (ofTokens tokens).startsDeclaration depth t i =
      .ok (depth = 0 && Parser.startsDeclaration (t :: ts)) := by
  obtain ⟨-, hlt, hdrop⟩ := place_of_drop_eq_cons hts
  rw [startsDeclaration, get_ofTokens hlt, hdrop]
  by_cases hdepth : depth = 0
  · cases ts <;> cases hword : Keyword.ofToken? t <;>
      simp [hdepth, hword, Parser.startsDeclaration, Except.map]
  · simp [hdepth]

/-- Passing a semicolon on the tape is dropping it from the tokens. -/
theorem passSymbol_of_drop {ts : List Token} (hi : i ≤ tokens.length) (hts : tokens.drop i = ts) :
    (ofTokens tokens).passSymbol ";" i = .ok (place tokens (Parser.dropSemicolon ts)) := by
  rw [passSymbol, get_ofTokens hi, hts]
  have hstart : place tokens ts = i := by rw [← hts, place_drop hi]
  cases ts with
  | nil => exact congrArg Except.ok hstart.symm
  | cons t ts =>
    obtain ⟨hplace, -, -⟩ := place_of_drop_eq_cons hts
    by_cases ht : t.isSymbol ";" = true
    · simp [Parser.dropSemicolon, ht, hplace, advance_of_drop_eq_cons hts, bind, Except.bind]
    · simp [Parser.dropSemicolon, ht, hstart, bind, Except.bind, pure, Except.pure]

/-- Skipping ends at the end of a tape. -/
theorem skip_of_end {tape : Tape} (h : tape[i]? = some none) (depth : Int) :
    tape.skip depth i = .ok i := by
  rw [skip]
  split <;> simp_all

/-- One step of skipping, by the token at the cursor and the depth. -/
theorem skip_of_token {tape : Tape} {t : Token} (h : tape[i]? = some (some t)) {depth : Int}
    {next : Bool} (hnext : tape.startsDeclaration depth t i = .ok next) :
    tape.skip depth i =
      if depth = 0 && t.isSymbol ";" then tape.advance i
      else if next then .ok i
      else if t.isSymbol "\x7b" then tape.skip (depth + 1) (i + 1)
      else if t.isSymbol "\x7d" then
        if depth - 1 ≤ 0 then tape.passSymbol ";" (i + 1) else tape.skip (depth - 1) (i + 1)
      else tape.skip depth (i + 1) := by
  rw [skip]
  split
  · simp_all
  · simp_all
  · rename_i u hu
    obtain rfl : t = u := by simpa [h] using hu
    rw [hnext]
    rfl

/-- **Skipping on a tape** stops where the parser stops, by induction on the tokens that are
left. -/
theorem skip_eq {ts : List Token} (hi : i ≤ tokens.length) (hts : tokens.drop i = ts)
    (depth : Nat) :
    (ofTokens tokens).skip depth i = .ok (place tokens (Parser.skip depth ts)) := by
  induction ts generalizing i depth with
  | nil =>
    have hentry := getElem?_ofTokens hi
    have hstart : place tokens [] = i := by rw [← hts, place_drop hi]
    rw [hts] at hentry
    rw [skip_of_end hentry, Parser.skip, hstart]
  | cons t ts ih =>
    obtain ⟨hplace, hlt, hdrop⟩ := place_of_drop_eq_cons hts
    have hentry := getElem?_ofTokens hi
    have hstart : place tokens (t :: ts) = i := by rw [← hts, place_drop hi]
    rw [hts] at hentry
    -- the depth is an integer on the tape, but it never goes below zero
    have hzero : (depth : Int) = 0 ↔ depth = 0 := by omega
    have hone : (depth : Int) - 1 ≤ 0 ↔ depth ≤ 1 := by omega
    have hmore := ih hlt hdrop (depth + 1)
    rw [Int.natCast_add, Int.natCast_one] at hmore
    rw [skip_of_token hentry (startsDeclaration_eq hts depth), Parser.skip,
      advance_of_drop_eq_cons hts, passSymbol_of_drop hlt hdrop]
    simp only [hzero, hone, hmore, ih hlt hdrop depth]
    by_cases hsemicolon : (decide (depth = 0) && t.isSymbol ";") = true
    · rw [if_pos hsemicolon, if_pos hsemicolon, hplace]
    rw [if_neg hsemicolon, if_neg hsemicolon]
    by_cases hnext : (decide (depth = 0) && Parser.startsDeclaration (t :: ts)) = true
    · rw [if_pos hnext, if_pos hnext, hstart]
    rw [if_neg hnext, if_neg hnext]
    by_cases hopen : t.isSymbol "\x7b" = true
    · rw [if_pos hopen, if_pos hopen]
    rw [if_neg hopen, if_neg hopen]
    by_cases hclose : t.isSymbol "\x7d" = true
    · rw [if_pos hclose, if_pos hclose]
      by_cases hdepth : depth ≤ 1
      · rw [if_pos hdepth, if_pos hdepth]
      · have hless := ih hlt hdrop (depth - 1)
        rw [Int.natCast_sub (by omega), Int.natCast_one] at hless
        rw [if_neg hdepth, if_neg hdepth, hless]
    · rw [if_neg hclose, if_neg hclose]

/-- Moving on from the place of a rest leads to the place of its tail. -/
theorem advance_place {rest : List Token} (h : rest <:+ tokens) :
    (ofTokens tokens).advance (place tokens rest) = .ok (place tokens rest.tail) := by
  have hdrop := drop_place h
  cases rest with
  | nil =>
    rw [advance, get_ofTokens (place_le _ _), hdrop]
    rfl
  | cons t ts => rw [advance_of_drop_eq_cons hdrop, List.tail_cons, (place_of_drop_eq_cons hdrop).1]

/-- The tokens between two places of the tape. -/
theorem slice_ofTokens {start rest : List Token} (hstart : start <:+ tokens)
    (hrest : rest <:+ start) :
    (ofTokens tokens).slice (place tokens start) (place tokens rest) =
      .ok ((start.take (start.length - rest.length)).map some) := by
  have hle := hstart.length_le
  have hle' := hrest.length_le
  have hdiff : place tokens rest - place tokens start = start.length - rest.length := by
    rw [place, place]
    omega
  rw [slice, if_pos (by rw [length_ofTokens, place, place]; omega), ofTokens,
    List.take_append_of_le_length (by rw [List.length_map]; exact place_le _ _), ← List.map_take,
    ← List.map_drop, List.drop_take, drop_place hstart, hdiff]

/-- Passing a token leaves a rest. -/
theorem passOne_suffix {start stop : List Token} (h : stop <:+ start) :
    Parser.passOne start stop <:+ start := by
  rw [Parser.passOne]
  split
  · exact (List.tail_suffix _).trans h
  · exact h

/-- Both pass one token if nothing was taken. -/
theorem passOne_eq {start stop : List Token} (hstart : start <:+ tokens) (hstop : stop <:+ start) :
    (ofTokens tokens).passOne (place tokens start) (place tokens stop) =
      .ok (place tokens (Parser.passOne start stop)) := by
  have hle := hstart.length_le
  have hle' := hstop.length_le
  have hsame : place tokens stop = place tokens start ↔ stop.length = start.length := by
    rw [place, place]
    omega
  simp only [passOne, Parser.passOne, hsame]
  split
  · exact advance_place (hstop.trans hstart)
  · rfl

/-- Resuming after a failure: the slice that is looked at lies on the tape. -/
theorem recover_eq {start stop : List Token} (hstart : start <:+ tokens) (hstop : stop <:+ start) :
    (ofTokens tokens).recover (place tokens start) (place tokens stop) =
      .ok (place tokens (Parser.resume start stop)) := by
  have hrest := passOne_suffix hstop
  rw [recover, passOne_eq hstart hstop, Parser.resume]
  simp only [bind, Except.bind, slice_ofTokens hstart hrest, List.filterMap_map, Function.id_comp,
    List.filterMap_some, Parser.skipFrom]
  split
  · rfl
  · rename_i hbalance
    rw [← skip_eq (place_le _ _) (drop_place (hrest.trans hstart)), Int.toNat_of_nonneg (by omega)]

/-! ## All declarations -/

/-- The failures of a run with their places. -/
def placedFailures (tokens : List Token) (fs : List Failure) : List (SyntaxFault × Nat) :=
  fs.map fun f => (f.fault, place tokens f.rest)

section

variable {tape : Tape} {t : Token} {mode : ErrorMode} {fault : SyntaxFault} {index j : Nat}

/-- Behind a declaration the declarations go on. -/
theorem declarationsFrom_of_ok (h : tape.get i = .ok (some t)) {d : Written.Declaration}
    (hrun : tape.declaration.run i = .ok (d, j)) (hij : i < j) (hj : j < tape.length) :
    tape.declarationsFrom mode i = (tape.declarationsFrom mode j).map fun r => (d :: r.1, r.2) := by
  rw [declarationsFrom, h]
  simp only [bind, Except.bind, hrun, hij, hj, and_self, ↓reduceIte]
  cases tape.declarationsFrom mode j <;> rfl

/-- The first failure ends a run that stops early. -/
theorem declarationsFrom_failFast (h : tape.get i = .ok (some t))
    (hrun : tape.declaration.run i = .error (.failure fault index)) :
    tape.declarationsFrom .failFast i = .ok ([], [(fault, index)]) := by
  rw [declarationsFrom, h]
  simp only [bind, Except.bind, hrun]
  rfl

/-- A run that collects notes a failure and goes on where it recovers. -/
theorem declarationsFrom_collect (h : tape.get i = .ok (some t))
    (hrun : tape.declaration.run i = .error (.failure fault index))
    (hrecover : tape.recover i index = .ok j) (hij : i < j) (hj : j < tape.length) :
    tape.declarationsFrom .collect i =
      (tape.declarationsFrom .collect j).map fun r => (r.1, (fault, index) :: r.2) := by
  rw [declarationsFrom, h]
  simp only [bind, Except.bind, hrun, hrecover, hij, hj, and_self, ↓reduceIte]
  cases tape.declarationsFrom .collect j <;> rfl

end

/-- Reading goes on at a rest. -/
theorem resume_suffix {start stop : List Token} (h : stop <:+ start) :
    Parser.resume start stop <:+ start :=
  (Parser.skipFrom_suffix _ _).trans (passOne_suffix h)

/-- **A run by index never leaves the tape, and it finds what a run over the list finds.** -/
theorem declarationsFrom_eq (h : Quoted tokens) (mode : ErrorMode) (hi : i ≤ tokens.length) :
    (ofTokens tokens).declarationsFrom mode i =
      .ok ((Parser.declarations mode (tokens.drop i)).1,
        placedFailures tokens (Parser.declarations mode (tokens.drop i)).2) := by
  induction hn : tokens.length - i using Nat.strong_induction_on generalizing i with
  | _ n ih =>
    have hentry := get_ofTokens hi
    have hrun := (follows_declaration h).run_eq i hi
    have hkept := Parser.declaration_advances (tokens.drop i)
    have hsuffix : tokens.drop i <:+ tokens := List.drop_suffix _ _
    -- the run goes on at a later place, where what is left is known
    have hlater : ∀ {rest : List Token}, rest <:+ tokens.drop i → i < place tokens rest →
        (ofTokens tokens).declarationsFrom mode (place tokens rest) =
          .ok ((Parser.declarations mode rest).1,
            placedFailures tokens (Parser.declarations mode rest).2) := by
      intro rest hrest hlt
      have hle := place_le tokens rest
      have := ih (tokens.length - place tokens rest) (by omega) hle rfl
      rwa [drop_place (hrest.trans hsuffix)] at this
    cases hts : tokens.drop i with
    | nil =>
      rw [hts] at hentry
      rw [declarationsFrom, hentry, Parser.declarations_nil]
      rfl
    | cons t ts =>
      have hstart : place tokens (t :: ts) = i := by rw [← hts, place_drop hi]
      rw [hts] at hentry
      cases hdeclaration : Parser.declaration.run (tokens.drop i) with
      | ok r =>
        obtain ⟨d, rest⟩ := r
        rw [hdeclaration] at hrun hkept
        obtain ⟨hij, hj⟩ := place_lt hkept.1 hkept.2
        rw [hts] at hdeclaration
        rw [declarationsFrom_of_ok hentry hrun hij hj, hlater hkept.1 hij,
          Parser.declarations_of_ok hdeclaration]
        rfl
      | error f =>
        rw [hdeclaration] at hrun hkept
        rw [hts] at hdeclaration
        cases mode with
        | failFast =>
          rw [declarationsFrom_failFast hentry hrun,
            Parser.declarations_failFast_of_error hdeclaration]
          rfl
        | collect =>
          have hrecover := recover_eq hsuffix hkept
          have hresume := resume_suffix hkept
          have hshort := Parser.resume_length hkept (by rw [hts]; exact List.cons_ne_nil t ts)
          obtain ⟨hij, hj⟩ := place_lt hresume hshort
          rw [place_drop hi] at hrecover
          rw [declarationsFrom_collect hentry hrun hrecover hij hj, hlater hresume hij,
            Parser.declarations_collect_of_error hdeclaration, hts]
          rfl

/-- The string tokens of a text are quoted. -/
theorem quoted_of_lexical (h : ∀ t ∈ tokens, t.Lexical) : Quoted tokens := by
  intro t ht hkind
  obtain ⟨inner, htext⟩ := (h t ht).quoted hkind
  have hlength : 2 ≤ t.text.length := by
    rw [← String.length_toList, htext]
    simp
  have hlast : t.text.toList.getLast? = some '"' := by
    rw [htext, ← List.cons_append, List.getLast?_concat]
  have hfirst : t.text.toList.head? = some '"' := by
    rw [htext, List.head?_cons]
  simp [isQuoted, hlength, hlast, hfirst]

end Tape

end WireSchema
