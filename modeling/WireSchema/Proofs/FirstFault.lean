import WireSchema.Proofs.ErrorModes
import WireSchema.Proofs.Predictive

/-!
# A syntax error is at the first impossible token

What was read before the first failure of a run can be continued to a text that is accepted, and
with the blamed token behind it no continuation is accepted any more. So the blamed token is the
first that cannot stand in its place, and where the end of the text is blamed it only came too early
(`ofTokens_blames_first_impossible`).

One declaration has both properties because it is read with one token of lookahead. They pass
through the declarations before it: those are read again in the same way, since what follows them
starts with the same token, or with the keyword of a declaration.
-/

namespace WireSchema

namespace Parser

variable {mode : ErrorMode} {ts rest : List Token}

/-! ## Runs by their first declaration -/

theorem declarations_of_run_ok {d : Written.Declaration} (h : declaration.run ts = .ok (d, rest)) :
    declarations mode ts = (d :: (declarations mode rest).1, (declarations mode rest).2) := by
  cases ts with
  | nil => cases h
  | cons t ts => exact declarations_of_ok h

theorem declarations_of_run_error (mode : ErrorMode) {t : Token} {f : Failure}
    (h : declaration.run (t :: ts) = .error f) :
    ∃ fs, (declarations mode (t :: ts)).2 = f :: fs := by
  cases mode with
  | failFast => exact ⟨[], by rw [declarations_failFast_of_error h]⟩
  | collect => exact ⟨_, by rw [declarations_collect_of_error h]⟩

/-- A declaration starts with a keyword, so nothing that is read starts with a semicolon. -/
theorem noSemicolon_of_run {d : Written.Declaration} (h : declaration.run ts = .ok (d, rest)) :
    Grammar.NoSemicolon ts := by
  obtain ⟨⟨word, location⟩, r, hkeyword, -⟩ := run_bind_eq_ok_iff.mp h
  obtain ⟨t, rfl, hread⟩ := run_token_eq_ok_iff.mp hkeyword
  rintro u ⟨⟩ hsymbol
  have hnone : Keyword.ofToken? t = none := if_neg (Grammar.isIdentifier_of_isSymbol hsymbol)
  rw [hnone] at hread
  cases hread

theorem noSemicolon_of_declarations {ds : List Written.Declaration}
    (h : declarations mode ts = (ds, [])) : Grammar.NoSemicolon ts := by
  cases ts with
  | nil => exact nofun
  | cons t ts =>
    cases hrun : declaration.run (t :: ts) with
    | ok r => exact noSemicolon_of_run hrun
    | error f =>
      obtain ⟨fs, hfs⟩ := declarations_of_run_error mode hrun
      rw [h] at hfs
      cases hfs

/-- What a failing declaration takes. -/
theorem exists_used_of_failure {f : Failure} {fs : List Failure}
    (h : (declarations mode ts).2 = f :: fs) : ∃ used, ts = used ++ f.rest := by
  fun_induction declarations mode ts with
  | case1 => cases h
  | case2 mode t tail d rest hok _ ds fs' hrec ih =>
    rw [hrec] at ih
    obtain ⟨second, rfl⟩ := ih h
    obtain ⟨first, hfirst⟩ := declaration_predictive.keeps.exists_used hok
    exact ⟨first ++ second, by rw [hfirst, List.append_assoc]⟩
  | case3 t tail f' herr =>
    obtain ⟨rfl, -⟩ := List.cons.inj h
    exact declaration_predictive.keeps.exists_used_of_error herr
  | case4 t tail f' herr =>
    obtain ⟨rfl, -⟩ := List.cons.inj h
    exact declaration_predictive.keeps.exists_used_of_error herr

/-! ## Before and behind the first failure -/

/-- A declaration that fails can be completed from what it has taken. -/
theorem completes_of_run_error {used : List Token} {f : Failure}
    (h : declaration.run (used ++ f.rest) = .error f) :
    ∃ more ds, AllLexical more ∧ declarations mode (used ++ more) = (ds, []) := by
  obtain ⟨more, d, hmore, hread⟩ := declaration_predictive.completes h
  refine ⟨more, [d], hmore, ?_⟩
  rw [declarations_of_run_ok hread, declarations_nil]

/-- **What stands before the first failure can be continued** to something that is read. -/
theorem declarations_completes {used : List Token} {f : Failure} {fs : List Failure}
    (h : (declarations mode (used ++ f.rest)).2 = f :: fs) :
    ∃ more ds, AllLexical more ∧ declarations mode (used ++ more) = (ds, []) := by
  generalize hts : used ++ f.rest = ts at h
  fun_induction declarations mode ts generalizing used with
  | case1 => cases h
  | case2 mode t tail d rest hok _ ds fs' hrec ih =>
    have hfs : (declarations mode rest).2 = f :: fs := by rw [hrec]; exact h
    obtain ⟨second, rfl⟩ := exists_used_of_failure hfs
    obtain ⟨first, hfirst⟩ := declaration_predictive.keeps.exists_used hok
    rw [hfirst] at hts hok
    rw [← List.append_assoc] at hts
    obtain rfl := List.append_cancel_right hts
    obtain ⟨more, ds', hmore, hread⟩ := ih rfl (by rw [← hfs, hrec])
    refine ⟨more, d :: ds', hmore, ?_⟩
    -- a declaration or the end follows, so no semicolon can be drawn into this one
    have hok := declaration_predictive.stable hok (.inr (noSemicolon_of_declarations hread))
    rw [List.append_assoc, declarations_of_run_ok hok, hread]
  | case3 t tail f' herr =>
    obtain ⟨rfl, -⟩ := List.cons.inj h
    rw [← hts] at herr
    exact completes_of_run_error herr
  | case4 t tail f' herr =>
    obtain ⟨rfl, -⟩ := List.cons.inj h
    rw [← hts] at herr
    exact completes_of_run_error herr

/-- A failing declaration fails whatever follows the blamed token. -/
theorem fails_of_run_error {used r : List Token} {t : Token} {fault : SyntaxFault}
    (r' : List Token) (h : declaration.run (used ++ t :: r) = .error ⟨fault, t :: r⟩) :
    (declarations mode (used ++ t :: r')).2 ≠ [] := by
  have hfail := declaration_predictive.blames r' h
  obtain ⟨u, us, hus⟩ := List.exists_cons_of_ne_nil (List.append_ne_nil_of_right_ne_nil used
    (List.cons_ne_nil t r'))
  rw [hus] at hfail ⊢
  obtain ⟨fs, hfs⟩ := declarations_of_run_error mode hfail
  rw [hfs]
  exact List.cons_ne_nil _ _

/-- **Nothing that starts like a run up to its first failure is read**, the blamed token included.
-/
theorem declarations_fails {used r : List Token} {t : Token} {fault : SyntaxFault}
    {fs : List Failure} (h : (declarations mode (used ++ t :: r)).2 = ⟨fault, t :: r⟩ :: fs)
    (r' : List Token) : (declarations mode (used ++ t :: r')).2 ≠ [] := by
  generalize hts : used ++ t :: r = ts at h
  fun_induction declarations mode ts generalizing used with
  | case1 => cases h
  | case2 mode u tail d rest hok _ ds fs' hrec ih =>
    have hfs : (declarations mode rest).2 = ⟨fault, t :: r⟩ :: fs := by rw [hrec]; exact h
    obtain ⟨second, hsecond⟩ := exists_used_of_failure hfs
    obtain rfl : rest = second ++ t :: r := hsecond
    obtain ⟨first, hfirst⟩ := declaration_predictive.keeps.exists_used hok
    rw [hfirst] at hts hok
    rw [← List.append_assoc] at hts
    obtain rfl := List.append_cancel_right hts
    have hok := declaration_predictive.stable hok (.inl (head?_append_cons second t r' r))
    rw [List.append_assoc, declarations_of_run_ok hok]
    exact ih rfl (by rw [← hfs, hrec])
  | case3 u tail f' herr =>
    obtain ⟨rfl, -⟩ := List.cons.inj h
    rw [← hts] at herr
    exact fails_of_run_error r' herr
  | case4 u tail f' herr =>
    obtain ⟨rfl, -⟩ := List.cons.inj h
    rw [← hts] at herr
    exact fails_of_run_error r' herr

/-- A run without failures is the same in every mode. -/
theorem declarations_eq_of_failFast {ds : List Written.Declaration}
    (h : declarations .failFast ts = (ds, [])) (mode : ErrorMode) :
    declarations mode ts = (ds, []) := by
  obtain ⟨hfs, hsame⟩ := declarations_failFast mode ts
  rw [h] at hfs hsame
  have hnone : (declarations mode ts).2 = [] := by
    cases hall : (declarations mode ts).2 with
    | nil => rfl
    | cons f fs => simp [hall] at hfs
  exact (hsame hnone).symm

end Parser

open WireSchema.Parser

/-! ## Texts -/

/-- The tokens can be continued to those of a text that is accepted. -/
def Viable (ts : List Token) : Prop :=
  ∃ more ds, AllLexical more ∧
    ∀ mode finish, Written.ofTokens mode ⟨ts ++ more, finish⟩ = .ok ds

/-- Nothing that starts with the tokens is accepted. -/
def Impossible (ts : List Token) : Prop :=
  ∀ more mode finish ds, Written.ofTokens mode ⟨ts ++ more, finish⟩ ≠ .ok ds

/-- The location of the token at an index, and the end of the text behind the last token. -/
def TokenStream.locationAt (stream : TokenStream) (index : Nat) : Location :=
  (stream.tokens[index]?.map Token.location).getD stream.finish

/-- A viable list stays so if it is cut off. -/
theorem Viable.of_append {ts us : List Token} (h : Viable (ts ++ us)) (hus : AllLexical us) :
    Viable ts := by
  obtain ⟨more, ds, hmore, hok⟩ := h
  refine ⟨us ++ more, ds, hus.append hmore, fun mode finish => ?_⟩
  rw [← List.append_assoc]
  exact hok mode finish

/-- An impossible list stays so if it is made longer. -/
theorem Impossible.append {ts : List Token} (h : Impossible ts) (us : List Token) :
    Impossible (ts ++ us) := by
  intro more mode finish ds hok
  rw [List.append_assoc] at hok
  exact h _ mode finish ds hok

section

variable {used r : List Token} {t : Token} {f : Failure} {fs : List Failure}

theorem viable_of_failure (h : (declarations .failFast (used ++ f.rest)).2 = f :: fs) :
    Viable used := by
  obtain ⟨more, ds, hmore, hread⟩ := declarations_completes h
  exact ⟨more, ds, hmore, fun mode finish =>
    Written.ofTokens_eq_ok_iff.mpr (declarations_eq_of_failFast hread mode)⟩

theorem impossible_of_failure {fault : SyntaxFault}
    (h : (declarations .failFast (used ++ t :: r)).2 = ⟨fault, t :: r⟩ :: fs) :
    Impossible (used ++ [t]) := by
  intro more mode finish ds hok
  rw [← List.append_cons] at hok
  have hread := Written.ofTokens_eq_ok_iff.mp hok
  have hsame := (declarations_failFast mode (used ++ t :: more)).2 (congrArg Prod.snd hread)
  exact declarations_fails h more (by rw [hsame, hread])

end

/-- The failure behind the report of a run that stops at its first one. -/
theorem exists_failure_of_ofTokens {stream : TokenStream} {report : Report}
    (h : Written.ofTokens .failFast stream = .error report) :
    ∃ f, (declarations .failFast stream.tokens).2 = [f] ∧
      report = ⟨f.diagnostic stream.finish, []⟩ := by
  have hone := (declarations_failFast .failFast stream.tokens).1
  unfold Written.ofTokens at h
  generalize declarations .failFast stream.tokens = result at h hone ⊢
  obtain ⟨ds, fs⟩ := result
  cases fs with
  | nil => cases h
  | cons f fs =>
    obtain rfl : fs = [] := by simpa using hone
    exact ⟨f, rfl, (Except.error.inj h).symm⟩

/-- **A syntax error is at the first impossible token.** If a run over the tokens of a text stops at
a failure, its only diagnostic has the location of an index `k`. The tokens before `k`, and as few
of them as one likes, can be continued to the tokens of an accepted text. With the token at `k` they
cannot be continued in any way, and neither can any longer part of the text. -/
theorem ofTokens_blames_first_impossible {text : String} {stream : TokenStream}
    (htext : TokenStream.ofText text = .ok stream) {report : Report}
    (h : Written.ofTokens .failFast stream = .error report) :
    report.others = [] ∧ ∃ k ≤ stream.tokens.length,
      report.first.location = stream.locationAt k ∧
        (∀ j ≤ k, Viable (stream.tokens.take j)) ∧
          ∀ j ≤ stream.tokens.length, k < j → Impossible (stream.tokens.take j) := by
  obtain ⟨f, hf, rfl⟩ := exists_failure_of_ofTokens h
  have hlexical := TokenStream.ofText_lexical htext
  obtain ⟨used, hused⟩ := exists_used_of_failure hf
  rw [hused] at hf hlexical
  refine ⟨rfl, used.length, by simp [hused], ?_, fun j hj => ?_, fun j hj hlt => ?_⟩
  · simp only [Failure.diagnostic, TokenStream.locationAt, hused, List.getElem?_append_right le_rfl,
      Nat.sub_self, List.head?_eq_getElem?]
  · have hviable := viable_of_failure hf
    rw [← List.take_append_drop j used] at hviable
    rw [hused, List.take_append_of_le_length hj]
    exact hviable.of_append fun t ht =>
      hlexical t (List.mem_append_left _ (List.mem_of_mem_drop ht))
  · obtain ⟨fault, rest⟩ := f
    cases rest with
    | nil =>
      rw [hused, List.append_nil] at hj
      omega
    | cons t r =>
      obtain ⟨n, rfl⟩ := Nat.exists_eq_add_of_lt hlt
      have hcut : (used ++ t :: r).take (used.length + n + 1) = (used ++ [t]) ++ r.take n := by
        rw [List.take_append, List.take_of_length_le (by omega), List.append_assoc,
          Nat.add_assoc, Nat.add_sub_cancel_left]
        rfl
      rw [hused, hcut]
      exact (impossible_of_failure hf).append _

/-- A field whose type is missing: `repeated` could be the type, and is a modifier only if another
word follows. -/
def untypedText : String :=
  "enum E \x7b \x7d message M \x7b x: repeated; \x7d"

def untypedReport : Report :=
  ⟨⟨.syntactic (.unexpectedToken (.symbol "=") (some ⟨.symbol, ";", ⟨1, 35⟩⟩)), ⟨1, 35⟩⟩, []⟩

theorem untypedText_blames_semicolon :
    ∃ stream, TokenStream.ofText untypedText = .ok stream ∧
      Written.ofTokens .failFast stream = .error untypedReport ∧
        untypedReport.others = [] ∧ ∃ k ≤ stream.tokens.length,
          untypedReport.first.location = stream.locationAt k ∧
            (∀ j ≤ k, Viable (stream.tokens.take j)) ∧
              ∀ j ≤ stream.tokens.length, k < j → Impossible (stream.tokens.take j) := by
  have hrun : ∃ stream ∈ (TokenStream.ofText untypedText).toOption,
      Written.ofTokens .failFast stream = .error untypedReport := by decide +kernel
  obtain ⟨stream, hstream, hreport⟩ := hrun
  have htext := eq_ok_of_mem_toOption hstream
  exact ⟨stream, htext, hreport, ofTokens_blames_first_impossible htext hreport⟩

end WireSchema
