import WireSchema.Proofs.ParserCorrect

/-!
# What a parser looks at

No parser of declarations looks further than one token ahead. `Predictive Next p` says what follows
from that for a run of `p`:

* what it takes does not change if other tokens follow, as long as the next token stays the same or
  what follows satisfies `Next` (`stable`);
* a failure depends on nothing behind the blamed token (`blames`);
* whatever was taken before a failure can be completed to something that is read (`completes`).

Most parsers end with a token that nothing can extend, and for them `Next` is `Free`. The two that
look ahead are the type word with its modifiers and the optional semicolon.
-/

namespace WireSchema.Parser

open Grammar (NoSemicolon isIdentifier_of_isSymbol)

variable {α β : Type} {ts rest : List Token}

/-- Anything may follow. -/
def Free (_ : List Token) : Prop :=
  True

/-- The first token, if there is one, is no identifier. -/
def NoIdentifier (ts : List Token) : Prop :=
  ∀ t ∈ ts.head?, ¬ t.isIdentifier = true

/-- All tokens are spelled like those of a text. -/
def AllLexical (ts : List Token) : Prop :=
  ∀ t ∈ ts, t.Lexical

theorem AllLexical.append {ts us : List Token} (hts : AllLexical ts) (hus : AllLexical us) :
    AllLexical (ts ++ us) :=
  List.forall_mem_append.mpr ⟨hts, hus⟩

/-- `p` looks no further than one token ahead, and sees there only whether `Next` holds. -/
structure Predictive (Next : List Token → Prop) (p : Parser α) : Prop where
  keeps : Keeps p
  stable {used rest rest' : List Token} {a : α} : p.run (used ++ rest) = .ok (a, rest) →
    rest'.head? = rest.head? ∨ Next rest' → p.run (used ++ rest') = .ok (a, rest')
  blames {used r : List Token} {t : Token} {fault : SyntaxFault} (r' : List Token) :
    p.run (used ++ t :: r) = .error ⟨fault, t :: r⟩ →
      p.run (used ++ t :: r') = .error ⟨fault, t :: r'⟩
  starts : ∃ more a, AllLexical more ∧ p.run more = .ok (a, [])
  completes {used rest : List Token} {fault : SyntaxFault} :
    p.run (used ++ rest) = .error ⟨fault, rest⟩ →
      ∃ more a, AllLexical more ∧ p.run (used ++ more) = .ok (a, [])

/-- If anything may follow, what is taken does not depend on it. -/
theorem Predictive.stable_free {p : Parser α} (hp : Predictive Free p) {used : List Token} {a : α}
    (h : p.run (used ++ rest) = .ok (a, rest)) (rest' : List Token) :
    p.run (used ++ rest') = .ok (a, rest') :=
  hp.stable h (.inr trivial)

/-! ## Sequencing -/

/-- Inversion of a failing sequence: the first parser fails, or the second one does. -/
theorem run_bind_eq_error_iff {p : Parser α} {f : α → Parser β} {e : Failure} :
    (p >>= f).run ts = .error e ↔
      p.run ts = .error e ∨ ∃ a rest, p.run ts = .ok (a, rest) ∧ (f a).run rest = .error e := by
  rw [StateT.run_bind]
  cases hp : p.run ts with
  | error e' =>
    change Except.error e' = Except.error e ↔ _
    refine ⟨fun h => .inl (congrArg _ (Except.error.inj h)), ?_⟩
    rintro (h | ⟨a, rest, h, -⟩)
    · exact congrArg _ (Except.error.inj h)
    · cases h
  | ok q =>
    obtain ⟨a, rest⟩ := q
    change (f a).run rest = .error e ↔ _
    refine ⟨fun h => .inr ⟨a, rest, rfl, h⟩, ?_⟩
    rintro (h | ⟨a', rest', h, hf⟩)
    · cases h
    · cases h
      exact hf

/-- What a parser that succeeds has taken. -/
theorem Keeps.exists_used {p : Parser α} (h : Keeps p) {a : α} (hok : p.run ts = .ok (a, rest)) :
    ∃ used, ts = used ++ rest := by
  have hkept := h ts
  rw [hok] at hkept
  obtain ⟨used, hused⟩ := hkept
  exact ⟨used, hused.symm⟩

/-- What a parser that fails has taken. -/
theorem Keeps.exists_used_of_error {p : Parser α} (h : Keeps p) {f : Failure}
    (herr : p.run ts = .error f) : ∃ used, ts = used ++ f.rest := by
  have hkept := h ts
  rw [herr] at hkept
  obtain ⟨used, hused⟩ := hkept
  exact ⟨used, hused.symm⟩

section

variable {p : Parser α} {f : α → Parser β} (hp : Keeps p) (hf : ∀ a, Keeps (f a))
  {used : List Token}

include hp hf

/-- The tokens of a sequence that succeeds are those of its two parts. -/
theorem split_of_bind_ok {b : β} (h : (p >>= f).run (used ++ rest) = .ok (b, rest)) :
    ∃ first second a, used = first ++ second ∧
      p.run (first ++ (second ++ rest)) = .ok (a, second ++ rest) ∧
        (f a).run (second ++ rest) = .ok (b, rest) := by
  obtain ⟨a, mid, hpa, hfa⟩ := run_bind_eq_ok_iff.mp h
  obtain ⟨second, rfl⟩ := (hf a).exists_used hfa
  obtain ⟨first, hfirst⟩ := hp.exists_used hpa
  rw [hfirst] at hpa
  rw [← List.append_assoc] at hfirst
  exact ⟨first, second, a, List.append_cancel_right hfirst, hpa, hfa⟩

/-- The tokens before a failure are taken by the first parser, which fails, or by both. -/
theorem split_of_bind_error {fault : SyntaxFault}
    (h : (p >>= f).run (used ++ rest) = .error ⟨fault, rest⟩) :
    p.run (used ++ rest) = .error ⟨fault, rest⟩ ∨
      ∃ first second a, used = first ++ second ∧
        p.run (first ++ (second ++ rest)) = .ok (a, second ++ rest) ∧
          (f a).run (second ++ rest) = .error ⟨fault, rest⟩ := by
  refine (run_bind_eq_error_iff.mp h).imp_right ?_
  rintro ⟨a, mid, hpa, hfa⟩
  obtain ⟨second, rfl⟩ := (hf a).exists_used_of_error hfa
  obtain ⟨first, hfirst⟩ := hp.exists_used hpa
  rw [hfirst] at hpa
  rw [← List.append_assoc] at hfirst
  exact ⟨first, second, a, List.append_cancel_right hfirst, hpa, hfa⟩

end

/-- A sequence, if what the second parser reads may always follow the first. -/
theorem Predictive.bind {Next Next' : List Token → Prop} {p : Parser α} {f : α → Parser β}
    (hp : Predictive Next p) (hf : ∀ a, Predictive Next' (f a))
    (hnext : ∀ {a ts b rest}, (f a).run ts = .ok (b, rest) → Next ts) :
    Predictive Next' (p >>= f) where
  keeps := hp.keeps.bind fun a => (hf a).keeps
  stable {used rest rest' b} h hrest := by
    obtain ⟨first, second, a, rfl, hpa, hfa⟩ := split_of_bind_ok hp.keeps (fun a => (hf a).keeps) h
    have hfa := (hf a).stable hfa hrest
    rw [List.append_assoc]
    exact run_bind_eq_ok_iff.mpr ⟨a, _, hp.stable hpa (.inr (hnext hfa)), hfa⟩
  blames {used r t fault} r' h := by
    rcases split_of_bind_error hp.keeps (fun a => (hf a).keeps) h with
      hfail | ⟨first, second, a, rfl, hpa, hfa⟩
    · exact run_bind_eq_error_iff.mpr (.inl (hp.blames r' hfail))
    · rw [List.append_assoc]
      refine run_bind_eq_error_iff.mpr (.inr ⟨a, _, hp.stable hpa (.inl ?_), (hf a).blames r' hfa⟩)
      cases second <;> rfl
  starts := by
    obtain ⟨first, a, hfirst, hpa⟩ := hp.starts
    obtain ⟨second, b, hsecond, hfa⟩ := (hf a).starts
    refine ⟨first ++ second, b, hfirst.append hsecond, ?_⟩
    rw [← List.append_nil first] at hpa
    exact run_bind_eq_ok_iff.mpr ⟨a, _, hp.stable hpa (.inr (hnext hfa)), hfa⟩
  completes {used rest fault} h := by
    rcases split_of_bind_error hp.keeps (fun a => (hf a).keeps) h with
      hfail | ⟨first, second, a, rfl, hpa, hfa⟩
    · -- the first parser is completed, and then the second one starts
      obtain ⟨more, a, hmore, hpa⟩ := hp.completes hfail
      obtain ⟨second, b, hsecond, hfa⟩ := (hf a).starts
      refine ⟨more ++ second, b, hmore.append hsecond, ?_⟩
      rw [← List.append_nil (used ++ more)] at hpa
      rw [← List.append_assoc]
      exact run_bind_eq_ok_iff.mpr ⟨a, _, hp.stable hpa (.inr (hnext hfa)), hfa⟩
    · obtain ⟨more, b, hmore, hfa⟩ := (hf a).completes hfa
      refine ⟨more, b, hmore, ?_⟩
      rw [List.append_assoc]
      exact run_bind_eq_ok_iff.mpr ⟨a, _, hp.stable hpa (.inr (hnext hfa)), hfa⟩

/-- A sequence whose first parser nothing can extend. -/
theorem Predictive.andThen {Next : List Token → Prop} {p : Parser α} {f : α → Parser β}
    (hp : Predictive Free p) (hf : ∀ a, Predictive Next (f a)) : Predictive Next (p >>= f) :=
  hp.bind hf fun _ => trivial

/-- Changing the result changes neither what is taken nor what is left. -/
theorem run_map_eq_ok_iff {p : Parser α} {g : α → β} {b : β} :
    (do return g (← p) : Parser β).run ts = .ok (b, rest) ↔
      ∃ a, p.run ts = .ok (a, rest) ∧ g a = b := by
  simp only [run_bind_eq_ok_iff, run_pure_eq_ok_iff, Prod.mk.injEq]
  refine ⟨?_, ?_⟩
  · rintro ⟨a, _, h, hg, rfl⟩
    exact ⟨a, h, hg⟩
  · rintro ⟨a, h, hg⟩
    exact ⟨a, rest, h, hg, rfl⟩

/-- Changing the result does not change a failure. -/
theorem run_map_eq_error_iff {p : Parser α} {g : α → β} {e : Failure} :
    (do return g (← p) : Parser β).run ts = .error e ↔ p.run ts = .error e := by
  rw [run_bind_eq_error_iff]
  refine ⟨?_, .inl⟩
  rintro (h | ⟨a, rest, -, h⟩)
  · exact h
  · cases h

/-- The result may be put into a larger one. -/
theorem Predictive.map {Next : List Token → Prop} {p : Parser α} (hp : Predictive Next p)
    (g : α → β) : Predictive Next (do return g (← p)) where
  keeps := hp.keeps.bind fun _ => keeps_pure _
  stable h hrest := by
    obtain ⟨a, ha, rfl⟩ := run_map_eq_ok_iff.mp h
    exact run_map_eq_ok_iff.mpr ⟨a, hp.stable ha hrest, rfl⟩
  blames r' h := run_map_eq_error_iff.mpr (hp.blames r' (run_map_eq_error_iff.mp h))
  starts := by
    obtain ⟨more, a, hmore, ha⟩ := hp.starts
    exact ⟨more, g a, hmore, run_map_eq_ok_iff.mpr ⟨a, ha, rfl⟩⟩
  completes h := by
    obtain ⟨more, a, hmore, ha⟩ := hp.completes (run_map_eq_error_iff.mp h)
    exact ⟨more, g a, hmore, run_map_eq_ok_iff.mpr ⟨a, ha, rfl⟩⟩

/-! ## Single tokens -/

/-- A failing reader of one token has taken nothing. -/
theorem run_token_eq_error {expected : Expected} {read : Token → Except SyntaxFault α}
    {used : List Token} {fault : SyntaxFault}
    (h : (token expected read).run (used ++ rest) = .error ⟨fault, rest⟩) : used = [] := by
  cases used with
  | nil => rfl
  | cons u used =>
    simp only [token, StateT.run, List.cons_append] at h
    cases hread : read u with
    | ok a => simp [hread] at h
    | error fault' =>
      rw [hread] at h
      have hlength := congrArg (List.length ∘ Failure.rest) (Except.error.inj h)
      simp only [Function.comp_apply, List.length_cons, List.length_append] at hlength
      omega

/-- A parser for one token is predictive if there is a token that it takes. -/
theorem token_predictive {expected : Expected} {read : Token → Except SyntaxFault α} {u : Token}
    {b : α} (hu : u.Lexical) (hread : read u = .ok b) : Predictive Free (token expected read) where
  keeps := (token_advances expected read).keeps
  stable {used rest rest' a} h _ := by
    obtain ⟨t, ht, hta⟩ := run_token_eq_ok_iff.mp h
    rw [← List.singleton_append] at ht
    rw [List.append_cancel_right ht]
    exact run_token_eq_ok_iff.mpr ⟨t, rfl, hta⟩
  blames {used r t fault} r' h := by
    obtain rfl := run_token_eq_error h
    simp only [token, StateT.run, List.nil_append] at h ⊢
    cases ht : read t with
    | ok a => simp [ht] at h
    | error fault' =>
      rw [ht] at h
      rw [(Failure.mk.inj (Except.error.inj h)).1]
  starts := ⟨[u], b, List.forall_mem_singleton.mpr hu, run_token_eq_ok_iff.mpr ⟨u, rfl, hread⟩⟩
  completes {used rest fault} h := by
    obtain rfl := run_token_eq_error h
    exact ⟨[u], b, List.forall_mem_singleton.mpr hu, run_token_eq_ok_iff.mpr ⟨u, rfl, hread⟩⟩

/-- A token of a kind that has no rule for its spelling. -/
theorem lexical_symbol (text : String) (location : Location) :
    (⟨.symbol, text, location⟩ : Token).Lexical :=
  ⟨nofun, nofun, nofun, nofun⟩

/-- A word is the text of an identifier. -/
theorem lexical_identifier (text : String) (h : Text.isWord text = true) (location : Location) :
    (⟨.identifier, text, location⟩ : Token).Lexical :=
  ⟨fun _ => h, nofun, nofun, nofun⟩

theorem lexical_integer (text : String) (h : '+' ∉ text.toList) (location : Location) :
    (⟨.integer, text, location⟩ : Token).Lexical :=
  ⟨nofun, fun _ => h, nofun, nofun⟩

/-- A symbol is predictive, since the symbol itself can follow. -/
theorem symbol_predictive (spelling : String) : Predictive Free (symbol spelling) :=
  token_predictive (lexical_symbol spelling ⟨1, 1⟩)
    (accept_eq_ok_iff.mpr ⟨by simp [Token.isSymbol], rfl⟩)

/-- So is an identifier. -/
theorem identifier_predictive : Predictive Free identifier :=
  token_predictive (lexical_identifier "x" (by decide) ⟨1, 1⟩)
    (accept_eq_ok_iff.mpr ⟨rfl, rfl⟩)

/-- So is an integer. -/
theorem integer_predictive : Predictive Free integer :=
  token_predictive (b := (1, ⟨1, 1⟩)) (lexical_integer "1" (by decide) ⟨1, 1⟩) rfl

/-- So is a literal. -/
theorem literal_predictive : Predictive Free literal :=
  token_predictive (b := .integer 1) (lexical_integer "1" (by decide) ⟨1, 1⟩) rfl

/-- So is a keyword. -/
theorem keyword_predictive : Predictive Free keyword :=
  token_predictive (b := (.name, ⟨1, 1⟩)) (lexical_identifier "name" (by decide) ⟨1, 1⟩)
    rfl

/-- An optional semicolon is predictive where none follows. -/
theorem optionalSymbol_predictive : Predictive NoSemicolon (optionalSymbol ";") where
  keeps := optionalSymbol_keeps ";"
  stable {used rest rest' a} h hrest := by
    cases used with
    | nil =>
      -- no semicolon was there to be taken, and none is there now
      have hnone : NoSemicolon rest' := by
        refine hrest.elim (fun hhead t ht => ?_) id
        rw [hhead] at ht
        obtain ⟨tail, rfl⟩ := List.head?_eq_some_iff.mp ht
        intro hsymbol
        have h : Except.ok ((), tail) = Except.ok (a, t :: tail) :=
          (if_pos hsymbol).symm.trans h
        exact List.cons_ne_self t tail (Prod.mk.inj (Except.ok.inj h)).2.symm
      cases rest' with
      | nil => rfl
      | cons t tail => exact if_neg (hnone t rfl)
    | cons u used =>
      change (if u.isSymbol ";" then Except.ok ((), used ++ rest)
        else .ok ((), u :: (used ++ rest))) = .ok (a, rest) at h
      split_ifs at h with hu
      · obtain rfl : used = [] :=
          List.append_left_eq_self.mp (Prod.mk.inj (Except.ok.inj h)).2
        exact if_pos hu
      · have hlength := congrArg List.length (Prod.mk.inj (Except.ok.inj h)).2
        simp only [List.length_cons, List.length_append] at hlength
        omega
  blames {used r t fault} r' h := by
    cases used with
    | nil =>
      change (if t.isSymbol ";" then Except.ok ((), r) else .ok ((), t :: r)) = .error _ at h
      split_ifs at h
    | cons u used =>
      change (if u.isSymbol ";" then Except.ok ((), used ++ t :: r)
        else .ok ((), u :: (used ++ t :: r))) = .error _ at h
      split_ifs at h
  starts := ⟨[], (), nofun, rfl⟩
  completes {used rest fault} h := by
    cases hts : used ++ rest with
    | nil =>
      rw [hts] at h
      cases h
    | cons u ts =>
      rw [hts] at h
      change (if u.isSymbol ";" then Except.ok ((), ts) else .ok ((), u :: ts)) = .error _ at h
      split_ifs at h

/-! ## Items -/

theorem variant_predictive : Predictive Free variant :=
  identifier_predictive.andThen fun _ => (symbol_predictive "=").andThen fun _ =>
    integer_predictive.andThen fun _ => (symbol_predictive ";").map _

/-- A word is no modifier if its spelling is another one or no identifier follows. -/
theorem splitModifiers_of_stop {t : Token} {ts : List Token}
    (h : modifierWord? t = none ∨ NoIdentifier ts) : splitModifiers (t :: ts) = ([], t :: ts) := by
  cases ts with
  | nil => rfl
  | cons u ts =>
    rw [splitModifiers]
    cases hword : modifierWord? t with
    | none => rfl
    | some word => exact if_neg (h.resolve_left (by simp [hword]) u rfl)

/-- A modifier word in front of an identifier is a modifier. -/
theorem splitModifiers_of_word {t : Token} {word : Written.ModifierWord} {ts : List Token}
    (hword : modifierWord? t = some word) (hnext : ¬ NoIdentifier ts) :
    splitModifiers (t :: ts) =
      (⟨word, t.location⟩ :: (splitModifiers ts).1, (splitModifiers ts).2) := by
  cases ts with
  | nil => exact absurd nofun hnext
  | cons u ts =>
    have hu : u.isIdentifier = true := by
      by_contra hu
      exact hnext fun v hv => Option.some.inj hv ▸ hu
    rw [splitModifiers]
    simp only [hword, if_pos hu]

/-- One of the two rules applies to every word. -/
theorem stop_or_word (t : Token) (ts : List Token) :
    (modifierWord? t = none ∨ NoIdentifier ts) ∨
      ∃ word, modifierWord? t = some word ∧ ¬ NoIdentifier ts := by
  cases hword : modifierWord? t with
  | none => exact .inl (.inl rfl)
  | some word =>
    by_cases hnext : NoIdentifier ts
    · exact .inl (.inr hnext)
    · exact .inr ⟨word, rfl, hnext⟩

/-- Before something else than an identifier there are no modifiers. -/
theorem splitModifiers_of_noIdentifier (h : NoIdentifier ts) : splitModifiers ts = ([], ts) := by
  cases ts with
  | nil => rfl
  | cons t ts =>
    refine splitModifiers_of_stop (.inl ?_)
    rw [modifierWord?, if_neg (h t rfl)]

/-- Behind modifiers there is an identifier. -/
theorem noIdentifier_of_splitModifiers (h : NoIdentifier (splitModifiers ts).2) :
    NoIdentifier ts := by
  induction ts with
  | nil => exact h
  | cons t ts ih =>
    rcases stop_or_word t ts with hstop | ⟨word, hword, hnext⟩
    · rwa [splitModifiers_of_stop hstop] at h
    · rw [splitModifiers_of_word hword hnext] at h
      exact absurd (ih h) hnext

/-- The modifiers end for a reason that can be seen in the next token. -/
theorem stop_of_splitModifiers {ms : List Written.Modifier} {y : Token}
    (h : splitModifiers ts = (ms, y :: rest)) : modifierWord? y = none ∨ NoIdentifier rest := by
  induction ts generalizing ms with
  | nil => cases h
  | cons t ts ih =>
    rcases stop_or_word t ts with hstop | ⟨word, hword, hnext⟩
    · rw [splitModifiers_of_stop hstop] at h
      cases h
      exact hstop
    · rw [splitModifiers_of_word hword hnext] at h
      exact ih (Prod.ext rfl (Prod.mk.inj h).2)

theorem noIdentifier_append_cons {used : List Token} {y : Token} (rest' : List Token)
    (h : NoIdentifier (used ++ y :: rest)) : NoIdentifier (used ++ y :: rest') := by
  cases used <;> exact h

/-- What follows the type word may be replaced if it still ends the modifiers. -/
theorem splitModifiers_replace {used rest' : List Token} {ms : List Written.Modifier} {y : Token}
    (h : splitModifiers (used ++ y :: rest) = (ms, y :: rest))
    (hstop : modifierWord? y = none ∨ NoIdentifier rest') :
    splitModifiers (used ++ y :: rest') = (ms, y :: rest') := by
  induction used generalizing ms with
  | nil =>
    have hnone := splitModifiers_of_stop (stop_of_splitModifiers h)
    obtain ⟨rfl, -⟩ := Prod.mk.inj (h.symm.trans hnone)
    exact splitModifiers_of_stop hstop
  | cons u used ih =>
    rw [List.cons_append] at h ⊢
    rcases stop_or_word u (used ++ y :: rest) with hu | ⟨word, hword, hnext⟩
    · rw [splitModifiers_of_stop hu] at h
      have hlength := congrArg (List.length ∘ Prod.snd) h
      simp only [Function.comp_apply, List.length_cons, List.length_append] at hlength
      omega
    · rw [splitModifiers_of_word hword hnext] at h
      obtain ⟨rfl, hrest⟩ := Prod.mk.inj h
      rw [splitModifiers_of_word hword (mt (noIdentifier_append_cons rest) hnext),
        ih (Prod.ext rfl hrest)]

/-- The modifiers and the type word of a field. -/
def modifiedType : Parser (List Written.Modifier × Token) := do
  let modifiers ← modifiers
  let type ← identifier
  return (modifiers, type)

/-- What is taken as a type with modifiers: the identifier behind them is the type. -/
theorem run_modifiedType_eq_ok_iff {ms : List Written.Modifier} {y : Token} :
    modifiedType.run ts = .ok ((ms, y), rest) ↔
      splitModifiers ts = (ms, y :: rest) ∧ y.isIdentifier = true := by
  simp only [modifiedType, run_bind_eq_ok_iff, run_identifier_eq_ok_iff, run_pure_eq_ok_iff]
  refine ⟨?_, ?_⟩
  · rintro ⟨ms', _, hms, y', rest', ⟨rfl, hy⟩, ⟨⟩⟩
    exact ⟨Except.ok.inj hms, hy⟩
  · rintro ⟨hms, hy⟩
    exact ⟨ms, _, congrArg Except.ok hms, y, rest, ⟨rfl, hy⟩, rfl⟩

/-- An identifier fails where none is, and blames the token there. -/
theorem run_identifier_eq_error_iff {e : Failure} :
    identifier.run ts = .error e ↔ NoIdentifier ts ∧ e = unexpected .identifier ts := by
  cases ts with
  | nil => exact ⟨fun h => ⟨nofun, (Except.error.inj h).symm⟩, fun h => congrArg _ h.2.symm⟩
  | cons t ts =>
    by_cases ht : t.isIdentifier = true
    · have hok : identifier.run (t :: ts) = .ok (t, ts) := run_identifier_eq_ok_iff.mpr ⟨rfl, ht⟩
      rw [hok]
      exact ⟨nofun, fun h => absurd ht (h.1 t rfl)⟩
    · have hfail : identifier.run (t :: ts) = .error (unexpected .identifier (t :: ts)) := by
        simp [identifier, token, accept, StateT.run, ht, unexpected]
      rw [hfail]
      refine ⟨fun h => ⟨fun u hu => Option.some.inj hu ▸ ht, (Except.error.inj h).symm⟩,
        fun h => ?_⟩
      rw [h.2]

/-- A type is missing exactly where no identifier stands. -/
theorem run_modifiedType_eq_error_iff {e : Failure} :
    modifiedType.run ts = .error e ↔ NoIdentifier ts ∧ e = unexpected .identifier ts := by
  have hrun : modifiedType.run ts = (do
      let y ← identifier
      return ((splitModifiers ts).1, y) : Parser _).run (splitModifiers ts).2 := rfl
  rw [hrun, run_map_eq_error_iff, run_identifier_eq_error_iff]
  refine ⟨fun h => ?_, fun h => ?_⟩
  · have hts := noIdentifier_of_splitModifiers h.1
    rw [splitModifiers_of_noIdentifier hts] at h
    exact h
  · rw [splitModifiers_of_noIdentifier h.1]
    exact h

/-- A type with modifiers is predictive where no identifier follows it. -/
theorem modifiedType_predictive : Predictive NoIdentifier modifiedType where
  keeps := modifiers_keeps.bind fun _ => (token_advances _ _).keeps.bind fun _ => keeps_pure _
  stable {used rest rest' a} h hrest := by
    obtain ⟨ms, y⟩ := a
    obtain ⟨hsplit, hy⟩ := run_modifiedType_eq_ok_iff.mp h
    have hsuffix := splitModifiers_suffix (used ++ rest)
    rw [hsplit] at hsuffix
    obtain ⟨words, hwords⟩ := hsuffix
    obtain rfl : used = words ++ [y] :=
      List.append_cancel_right (hwords.symm.trans (List.append_cons words y rest))
    rw [List.append_assoc, List.singleton_append] at hsplit
    rw [List.append_assoc, List.singleton_append]
    refine run_modifiedType_eq_ok_iff.mpr ⟨splitModifiers_replace hsplit ?_, hy⟩
    refine (stop_of_splitModifiers hsplit).imp_right fun hnone => ?_
    refine hrest.elim (fun hhead t ht => hnone t (hhead ▸ ht)) id
  blames {used r t fault} r' h := by
    obtain ⟨hnone, hfail⟩ := run_modifiedType_eq_error_iff.mp h
    obtain ⟨hfault, hrest⟩ := Failure.mk.inj hfail
    obtain rfl : used = [] := List.append_left_eq_self.mp hrest.symm
    exact run_modifiedType_eq_error_iff.mpr ⟨hnone, Failure.mk.injEq .. ▸ ⟨hfault, rfl⟩⟩
  starts := ⟨[⟨.identifier, "x", ⟨1, 1⟩⟩], ([], _),
    List.forall_mem_singleton.mpr (lexical_identifier _ (by decide) _), rfl⟩
  completes {used rest fault} h := by
    obtain ⟨-, hfail⟩ := run_modifiedType_eq_error_iff.mp h
    obtain rfl : used = [] := List.append_left_eq_self.mp (Failure.mk.inj hfail).2.symm
    exact ⟨[⟨.identifier, "x", ⟨1, 1⟩⟩], ([], _),
      List.forall_mem_singleton.mpr (lexical_identifier _ (by decide) _), rfl⟩

/-- A field in terms of its type with modifiers. -/
theorem field_eq : field = (do
    let name ← identifier
    let _ ← symbol ":"
    let (modifiers, type) ← modifiedType
    let _ ← symbol "="
    let (tag, tagLocation) ← integer
    let _ ← symbol ";"
    return {
      name := name.text, modifiers, type := type.text, typeLocation := type.location,
      tag, tagLocation, location := name.location }) := by
  simp only [field, modifiedType, bind_assoc, pure_bind]

/-- **A field is predictive**, although its modifiers look one token ahead. -/
theorem field_predictive : Predictive Free field := by
  rw [field_eq]
  refine identifier_predictive.andThen fun _ => (symbol_predictive ":").andThen fun _ =>
    modifiedType_predictive.bind (fun _ => (symbol_predictive "=").andThen fun _ =>
      integer_predictive.andThen fun _ => (symbol_predictive ";").map _) fun {a ts b rest} h => ?_
  obtain ⟨e, r, he, -⟩ := run_bind_eq_ok_iff.mp h
  obtain ⟨rfl, hsymbol⟩ := run_symbol_eq_ok_iff.mp he
  exact fun t ht => Option.some.inj ht ▸ isIdentifier_of_isSymbol hsymbol

/-- What starts with an identifier is not at the closing brace. -/
theorem not_atClose_of_identifier {f : Token → Parser β} {b : β}
    (h : (identifier >>= f).run ts = .ok (b, rest)) : ¬ atClose ts = true := by
  obtain ⟨t, r, ht, -⟩ := run_bind_eq_ok_iff.mp h
  obtain ⟨rfl, hid⟩ := run_identifier_eq_ok_iff.mp ht
  exact fun hclose => isIdentifier_of_isSymbol hclose hid

theorem atClose_congr {ts' : List Token} (h : ts.head? = ts'.head?) :
    atClose ts = atClose ts' := by
  cases ts <;> cases ts' <;> cases h <;> rfl

theorem head?_append_of_ne_nil {used : List Token} (hne : used ≠ []) (rest rest' : List Token) :
    (used ++ rest).head? = (used ++ rest').head? := by
  cases used with
  | nil => exact absurd rfl hne
  | cons u used => rfl

theorem head?_append_cons (used : List Token) (t : Token) (r r' : List Token) :
    (used ++ t :: r).head? = (used ++ t :: r').head? := by
  cases used <;> rfl

section Items

variable {item : Parser α} {advances : Advances item} (hitem : Predictive Free item)
  (hopen : ∀ {ts a rest}, item.run ts = .ok (a, rest) → ¬ atClose ts = true)

include hitem in
/-- Items that end at a closing brace do not look behind it. -/
theorem itemsUntilClose_stable {used rest' : List Token} {as : List α}
    (h : itemsUntilClose item advances (used ++ rest) = .ok (as, rest)) :
    itemsUntilClose item advances (used ++ rest') = .ok (as, rest') := by
  generalize hts : used ++ rest = ts at h
  fun_induction itemsUntilClose item advances ts generalizing used as with
  | case1 ts hclose =>
    obtain ⟨rfl, rfl⟩ := Prod.mk.inj (Except.ok.inj h)
    obtain ⟨c, r, rfl⟩ := atClose_iff.mp hclose
    obtain rfl : used = [c.val] := List.append_cancel_right hts
    exact itemsUntilClose_of_atClose hclose
  | case2 => cases h
  | case3 => cases h
  | case4 ts hclose a mid hok hlt as' rest'' hrec ih =>
    obtain ⟨rfl, rfl⟩ := Prod.mk.inj (Except.ok.inj h)
    obtain ⟨second, rfl⟩ := (items_keeps item advances).exists_used hrec
    obtain ⟨first, rfl⟩ := advances.keeps.exists_used hok
    rw [← List.append_assoc] at hts
    obtain rfl := List.append_cancel_right hts
    have hne : first ≠ [] := by
      rintro rfl
      exact absurd hlt (by simp)
    rw [atClose_congr (head?_append_of_ne_nil hne _ (second ++ rest'))] at hclose
    have hnext := hitem.stable_free hok (second ++ rest')
    rw [List.append_assoc, itemsUntilClose_of_ok hclose hnext, ih rfl hrec]
    rfl

include hitem in
/-- Where items fail at a token, nothing behind the token matters. -/
theorem itemsUntilClose_blames {used r : List Token} {t : Token} {fault : SyntaxFault}
    (r' : List Token)
    (h : itemsUntilClose item advances (used ++ t :: r) = .error ⟨fault, t :: r⟩) :
    itemsUntilClose item advances (used ++ t :: r') = .error ⟨fault, t :: r'⟩ := by
  generalize hts : used ++ t :: r = ts at h
  fun_induction itemsUntilClose item advances ts generalizing used with
  | case1 => cases h
  | case2 ts hclose f herr =>
    obtain rfl := Except.error.inj h
    subst hts
    rw [atClose_congr (head?_append_cons used t r r')] at hclose
    exact itemsUntilClose_of_error hclose (hitem.blames r' herr)
  | case3 ts hclose a mid hok hlt f hrec ih =>
    obtain rfl := Except.error.inj h
    obtain ⟨second, rfl⟩ := (items_keeps item advances).exists_used_of_error hrec
    obtain ⟨first, rfl⟩ := advances.keeps.exists_used hok
    rw [← List.append_assoc] at hts
    obtain rfl := List.append_cancel_right hts
    rw [← List.append_assoc, atClose_congr (head?_append_cons _ t r r')] at hclose
    have hnext := hitem.stable_free hok (second ++ t :: r')
    rw [← List.append_assoc] at hnext
    rw [itemsUntilClose_of_ok hclose hnext, ih rfl hrec]
    rfl
  | case4 => cases h

include hitem hopen in
/-- Items that fail at the end of what was taken can be completed. -/
theorem itemsUntilClose_completes {used : List Token} {fault : SyntaxFault}
    (h : itemsUntilClose item advances (used ++ rest) = .error ⟨fault, rest⟩) :
    ∃ more as, AllLexical more ∧ itemsUntilClose item advances (used ++ more) = .ok (as, []) := by
  generalize hts : used ++ rest = ts at h
  fun_induction itemsUntilClose item advances ts generalizing used with
  | case1 => cases h
  | case2 ts hclose f herr =>
    -- the item is completed, and then the brace is closed
    obtain rfl := Except.error.inj h
    subst hts
    obtain ⟨more, a, hmore, hok⟩ := hitem.completes herr
    let close : Token := ⟨.symbol, "\x7d", ⟨1, 1⟩⟩
    rw [← List.append_nil (used ++ more)] at hok
    have hok := hitem.stable_free hok [close]
    refine ⟨more ++ [close], [a], hmore.append ?_, ?_⟩
    · exact List.forall_mem_singleton.mpr (lexical_symbol _ _)
    · rw [← List.append_assoc, itemsUntilClose_of_ok (hopen hok) hok,
        itemsUntilClose_of_atClose rfl]
      rfl
  | case3 ts hclose a mid hok hlt f hrec ih =>
    obtain rfl := Except.error.inj h
    obtain ⟨second, rfl⟩ := (items_keeps item advances).exists_used_of_error hrec
    obtain ⟨first, rfl⟩ := advances.keeps.exists_used hok
    rw [← List.append_assoc] at hts
    obtain rfl := List.append_cancel_right hts
    obtain ⟨more, as, hmore, hitems⟩ := ih rfl hrec
    have hok := hitem.stable_free hok (second ++ more)
    refine ⟨more, a :: as, hmore, ?_⟩
    rw [List.append_assoc, itemsUntilClose_of_ok (hopen hok) hok, hitems]
    rfl
  | case4 => cases h

include hitem hopen in
/-- **The items of a block are predictive** if one item is. -/
theorem items_predictive : Predictive Free (items item advances) where
  keeps := items_keeps item advances
  stable h _ := itemsUntilClose_stable hitem h
  blames r' h := itemsUntilClose_blames hitem r' h
  starts := ⟨[⟨.symbol, "\x7d", ⟨1, 1⟩⟩], [],
    List.forall_mem_singleton.mpr (lexical_symbol _ _), itemsUntilClose_of_atClose rfl⟩
  completes h := itemsUntilClose_completes hitem hopen h

end Items

/-! ## Declarations -/

theorem enumeration_predictive : Predictive NoSemicolon enumeration :=
  identifier_predictive.andThen fun _ => (symbol_predictive "\x7b").andThen fun _ =>
    (items_predictive variant_predictive not_atClose_of_identifier).andThen fun _ =>
      optionalSymbol_predictive.map _

theorem message_predictive : Predictive NoSemicolon message :=
  identifier_predictive.andThen fun _ => (symbol_predictive "\x7b").andThen fun _ =>
    (items_predictive field_predictive not_atClose_of_identifier).andThen fun _ =>
      optionalSymbol_predictive.map _

/-- What nothing can extend may also be asked to be followed by something. -/
theorem Predictive.restrict {p : Parser α} (h : Predictive Free p) (Next : List Token → Prop) :
    Predictive Next p :=
  { h with stable := fun hok hrest => h.stable hok (hrest.imp_right fun _ => trivial) }

/-- What follows a keyword is predictive, whichever keyword it is. -/
theorem body_predictive (word : Keyword) (location : Location) :
    Predictive NoSemicolon (body word location) := by
  cases word with
  | name =>
    exact (identifier_predictive.andThen fun _ => (symbol_predictive ";").map _).restrict _ |>.map _
  | const =>
    exact (identifier_predictive.andThen fun _ => (symbol_predictive ":").andThen fun _ =>
      identifier_predictive.andThen fun _ => (symbol_predictive "=").andThen fun _ =>
      literal_predictive.andThen fun _ => (symbol_predictive ";").map _).restrict _ |>.map _
  | enum => exact enumeration_predictive.map _
  | message => exact message_predictive.map _

/-- **A declaration is read with one token of lookahead.** -/
theorem declaration_predictive : Predictive NoSemicolon declaration :=
  keyword_predictive.andThen fun _ => body_predictive _ _

end WireSchema.Parser
