import WireSchema.Proofs.BrokenBlocks

/-!
# A run that collects moves on

A run that collects its failures makes turns: it reads a declaration, or it blames a token and skips
to a place where another declaration may start. Every turn ends behind its start and not behind the
end of the text, so there are at most as many turns as tokens. No token is blamed twice
(`ofTokens_collect_moves_on`).

For the second part it is not enough that turns move on, because skipping may stop at the very token
that was blamed. It does so in two cases only: there is no token left, or a keyword and an
identifier stand there, and then the next turn takes both before it can fail. `Settled` says this of
an index that was blamed, and every turn keeps it.
-/

namespace WireSchema

open Grammar (Symbol)

namespace Parser

variable {α β : Type} {ts used rest : List Token}

/-! ## Braces before a failure -/

theorem braceBalance_of_plain (h : Plain ts) : braceBalance ts = 0 :=
  braceBalance_foldl_plain h 0

theorem literal_braceless : Braceless literal := by
  refine token_braceless fun {t a} h => ?_
  have hkind : t.kind ≠ .symbol := by
    intro hkind
    simp [literalOf, hkind] at h
  simp [Token.isBrace, Token.isSymbol, hkind]

theorem protocolName_braceless (location : Location) : Braceless (protocolName location) :=
  identifier_braceless.bind fun _ => (symbol_braceless (by decide) (by decide)).bind fun _ =>
    braceless_pure _

theorem constant_braceless (location : Location) : Braceless (constant location) :=
  identifier_braceless.bind fun _ => (symbol_braceless (by decide) (by decide)).bind fun _ =>
    identifier_braceless.bind fun _ => (symbol_braceless (by decide) (by decide)).bind fun _ =>
      literal_braceless.bind fun _ => (symbol_braceless (by decide) (by decide)).bind fun _ =>
        braceless_pure _

/-- Before a failure, `p` takes no brace, or one that opens a block and no other. -/
structure Opens (p : Parser α) : Prop where
  keeps : Keeps p
  error {used rest : List Token} {fault : SyntaxFault} :
    p.run (used ++ rest) = .error ⟨fault, rest⟩ →
      Plain used ∨ ∃ before after, ∃ o : Symbol "\x7b",
        used = before ++ o.val :: after ∧ Plain before ∧ Plain after

theorem Braceless.opens {p : Parser α} (h : Braceless p) : Opens p where
  keeps := h.keeps
  error herr := .inl (h.error herr)

/-- What is taken before by a parser without braces does not count. -/
theorem Opens.after {p : Parser α} {f : α → Parser β} (hp : Braceless p) (hf : ∀ a, Opens (f a)) :
    Opens (p >>= f) where
  keeps := hp.keeps.bind fun a => (hf a).keeps
  error h := by
    rcases split_of_bind_error hp.keeps (fun a => (hf a).keeps) h with
      hfail | ⟨first, second, a, rfl, hpa, hfa⟩
    · exact .inl (hp.error hfail)
    · have hfirst := hp.ok hpa
      rcases (hf a).error hfa with hplain | ⟨before, after, o, rfl, hbefore, hafter⟩
      · exact .inl (hfirst.append hplain)
      · refine .inr ⟨first ++ before, after, o, ?_, hfirst.append hbefore, hafter⟩
        rw [List.append_assoc]

theorem Opens.map {p : Parser α} (h : Opens p) (g : α → β) : Opens (do return g (← p)) where
  keeps := h.keeps.bind fun _ => keeps_pure _
  error herr := h.error (run_map_eq_error_iff.mp herr)

theorem run_optionalSymbol_ne_error {spelling : String} {e : Failure} :
    (optionalSymbol spelling).run ts ≠ .error e := by
  intro h
  cases ts with
  | nil => cases h
  | cons t ts =>
    simp only [optionalSymbol, StateT.run] at h
    split at h <;> cases h

/-- Items behind an opening brace, and what may follow them. -/
theorem braces_opens {item : Parser α} {advances : Advances item} (hitem : Braceless item)
    {tree : List α → β} :
    Opens (do
      let _ ← symbol "\x7b"
      let as ← items item advances
      optionalSymbol ";"
      return tree as : Parser β) := by
  have hitems : Keeps (do
      let as ← items item advances
      optionalSymbol ";"
      return tree as : Parser β) :=
    (items_keeps item advances).bind fun _ => (optionalSymbol_keeps _).bind fun _ => keeps_pure _
  refine ⟨(token_advances _ _).keeps.bind fun _ => hitems, fun h => ?_⟩
  rcases split_of_bind_error (token_advances _ _).keeps (fun _ => hitems) h with
    hfail | ⟨first, second, o, rfl, ho, herr⟩
  · rw [run_token_eq_error hfail]
    exact .inl (List.forall_mem_nil _)
  · obtain ⟨t, ht, hsymbol⟩ := run_token_eq_ok_iff.mp ho
    rw [← List.singleton_append] at ht
    rw [List.append_cancel_right ht]
    refine .inr ⟨[], second, ⟨t, (accept_eq_ok_iff.mp hsymbol).1⟩, rfl, List.forall_mem_nil _, ?_⟩
    -- only the items can fail: nothing behind them does
    rcases run_bind_eq_error_iff.mp herr with hfail | ⟨_, _, -, hfinish⟩
    · exact plain_of_items_error hitem hfail
    · rcases run_bind_eq_error_iff.mp hfinish with hfail | ⟨_, _, -, hpure⟩
      · exact absurd hfail run_optionalSymbol_ne_error
      · cases hpure

theorem body_opens (word : Keyword) (location : Location) : Opens (body word location) := by
  cases word with
  | name => exact (protocolName_braceless location).opens.map _
  | const => exact (constant_braceless location).opens.map _
  | enum => exact (Opens.after identifier_braceless fun _ => braces_opens variant_braceless).map _
  | message => exact (Opens.after identifier_braceless fun _ => braces_opens field_braceless).map _

theorem keyword_braceless : Braceless keyword := by
  refine token_braceless fun {t a} h => isBrace_eq_false_of_isIdentifier ?_
  by_contra hidentifier
  have hnone : Keyword.ofToken? t = none := if_neg hidentifier
  rw [hnone] at h
  cases h

/-- **A declaration that fails has not closed more braces than it has opened.** -/
theorem braceBalance_of_run_error {fault : SyntaxFault}
    (h : declaration.run (used ++ rest) = .error ⟨fault, rest⟩) : 0 ≤ braceBalance used := by
  have hopens : Opens declaration := Opens.after keyword_braceless fun _ => body_opens _ _
  rcases hopens.error h with hplain | ⟨before, after, o, rfl, hbefore, hafter⟩
  · exact Int.le_of_eq (braceBalance_of_plain hplain).symm
  · rw [braceBalance_opened hbefore o hafter]
    decide

/-! ## Where skipping stops -/

/-- Skipping stops at its first token only if no token is left, or a declaration seems to start
there. -/
theorem skip_stays (depth : Nat) (ts : List Token) :
    (skip depth ts).length < ts.length ∨
      skip depth ts = ts ∧ (ts = [] ∨ startsDeclaration ts = true) := by
  cases ts with
  | nil => exact .inr ⟨rfl, .inl rfl⟩
  | cons t ts =>
    have hshorter {us : List Token} (h : us <:+ ts) : us.length < (t :: ts).length :=
      Nat.lt_succ_of_le h.length_le
    rw [skip]
    split_ifs with _ hstarts
    · exact .inl (hshorter (List.suffix_refl _))
    · rw [Bool.and_eq_true] at hstarts
      exact .inr ⟨rfl, .inr hstarts.2⟩
    · exact .inl (hshorter (skip_suffix _ _))
    · exact .inl (hshorter (dropSemicolon_suffix _))
    · exact .inl (hshorter (skip_suffix _ _))
    · exact .inl (hshorter (skip_suffix _ _))

/-- **After a failure, reading goes on behind the blamed token**, unless that is where the tokens
end or where a declaration seems to start. -/
theorem resume_stays {f : Failure} (h : declaration.run ts = .error f) (hne : ts ≠ []) :
    (resume ts f.rest).length < f.rest.length ∨
      resume ts f.rest = f.rest ∧ (f.rest = [] ∨ startsDeclaration f.rest = true) := by
  obtain ⟨fault, rest⟩ := f
  obtain ⟨used, rfl⟩ := declaration_predictive.keeps.exists_used_of_error h
  cases used with
  | nil =>
    -- the failure is at the first token, which is passed whatever it is
    left
    exact resume_length (List.suffix_refl _) hne
  | cons u used =>
    have hstop : passOne (u :: used ++ rest) rest = rest := by
      refine if_neg ?_
      rw [List.length_append, List.length_cons]
      omega
    have htaken : (u :: used ++ rest).take ((u :: used ++ rest).length - rest.length) =
        u :: used := by
      rw [List.length_append, Nat.add_sub_cancel, List.take_left]
    have hbalance := braceBalance_of_run_error h
    have hresume :
        resume (u :: used ++ rest) rest = skip (braceBalance (u :: used)).toNat rest := by
      rw [resume, hstop, skipFrom, htaken]
      exact if_neg (Int.not_lt.mpr hbalance)
    rw [hresume]
    exact skip_stays _ rest

/-- A declaration that seems to start does not fail at its first token. -/
theorem rest_length_of_startsDeclaration {f : Failure} (hstarts : startsDeclaration ts = true)
    (h : declaration.run ts = .error f) : f.rest.length < ts.length := by
  cases ts with
  | nil => cases hstarts
  | cons t ts =>
    cases ts with
    | nil => cases hstarts
    | cons u ts =>
      have hword := (Bool.and_eq_true_iff.mp hstarts).1
      obtain ⟨word, hword⟩ := Option.isSome_iff_exists.mp hword
      rcases run_bind_eq_error_iff.mp h with hfail | ⟨k, rest, hkeyword, hbody⟩
      · simp only [keyword, token, StateT.run, hword] at hfail
        cases hfail
      · obtain ⟨_, heq, -⟩ := run_token_eq_ok_iff.mp hkeyword
        obtain ⟨-, rfl⟩ := List.cons.inj heq
        have hkept := body_keeps k.1 k.2 (u :: ts)
        rw [hbody] at hkept
        exact Nat.lt_succ_of_le (List.IsSuffix.length_le hkept)

/-! ## Turns -/

/-- How a turn ends. -/
inductive Turn.Outcome where
  | read (d : Written.Declaration)
  /-- a failure that blames the token at an index -/
  | failed (fault : SyntaxFault) (blamed : Nat)

/-- One turn of a run, by the indices of tokens: where it starts and where the next one goes on. -/
structure Turn where
  start : Nat
  outcome : Turn.Outcome
  stop : Nat

namespace Turn

/-- The turn is what a run that collects does with the tokens from the start of the turn on: it
reads a declaration, or resumes after a failure. -/
def Happens (ts : List Token) (turn : Turn) : Prop :=
  match turn.outcome with
  | .read d => declaration.run (ts.drop turn.start) = .ok (d, ts.drop turn.stop)
  | .failed fault blamed =>
    declaration.run (ts.drop turn.start) = .error ⟨fault, ts.drop blamed⟩ ∧
      resume (ts.drop turn.start) (ts.drop blamed) = ts.drop turn.stop

/-- The indices of the turn are in order, and none is behind the end of the tokens. -/
structure Advancing (ts : List Token) (turn : Turn) : Prop where
  start_lt_stop : turn.start < turn.stop
  stop_le : turn.stop ≤ ts.length
  blamed {fault : SyntaxFault} {k : Nat} : turn.outcome = .failed fault k →
    turn.start ≤ k ∧ k ≤ turn.stop

def declaration? (turn : Turn) : Option Written.Declaration :=
  match turn.outcome with
  | .read d => some d
  | .failed _ _ => none

def blamed? (turn : Turn) : Option Nat :=
  match turn.outcome with
  | .read _ => none
  | .failed _ blamed => some blamed

def failure? (ts : List Token) (turn : Turn) : Option Failure :=
  match turn.outcome with
  | .read _ => none
  | .failed fault blamed => some ⟨fault, ts.drop blamed⟩

/-- The diagnostic of a failing turn, at the location of the blamed index. -/
def diagnostic? (stream : TokenStream) (turn : Turn) : Option Diagnostic :=
  match turn.outcome with
  | .read _ => none
  | .failed fault blamed => some ⟨.syntactic fault, stream.locationAt blamed⟩

end Turn

/-- The turns of a run from an index on: none if no token is left there, else the turn that happens
there and the turns from its stop on. -/
inductive Turns (ts : List Token) : Nat → List Turn → Prop
  | done : Turns ts ts.length []
  | next {turn : Turn} {turns : List Turn} : turn.start < ts.length → turn.Happens ts →
      Turns ts turn.stop turns → Turns ts turn.start (turn :: turns)

/-! ## One turn -/

/-- The index of what is left of the tokens. -/
theorem exists_index_of_suffix {start : Nat} (h : rest <:+ ts.drop start)
    (hstart : start ≤ ts.length) :
    ∃ k, start ≤ k ∧ k ≤ ts.length ∧ rest = ts.drop k := by
  have hle := h.length_le
  rw [List.length_drop] at hle
  refine ⟨ts.length - rest.length, by omega, Nat.sub_le _ _, ?_⟩
  exact List.suffix_iff_eq_drop.mp (h.trans (List.drop_suffix _ _))

/-- **Every turn moves on.** -/
theorem exists_turn {start : Nat} (h : start < ts.length) :
    ∃ turn : Turn, turn.start = start ∧ turn.Happens ts ∧ turn.Advancing ts := by
  have hne : ts.drop start ≠ [] := by
    rw [Ne, List.drop_eq_nil_iff]
    omega
  have hlength : (ts.drop start).length = ts.length - start := List.length_drop
  have hadvanced := declaration_advances (ts.drop start)
  cases hrun : declaration.run (ts.drop start) with
  | ok r =>
    obtain ⟨d, rest⟩ := r
    rw [hrun] at hadvanced
    obtain ⟨hsuffix, hlt⟩ := hadvanced
    obtain ⟨stop, hle, hstop, rfl⟩ := exists_index_of_suffix hsuffix h.le
    refine ⟨⟨start, .read d, stop⟩, rfl, hrun, ⟨?_, hstop, nofun⟩⟩
    rw [List.length_drop, hlength] at hlt
    change start < stop
    omega
  | error f =>
    obtain ⟨fault, rest⟩ := f
    rw [hrun] at hadvanced
    have hresume := resume_length hadvanced hne
    obtain ⟨blamed, hblamed, hend, rfl⟩ := exists_index_of_suffix hadvanced h.le
    have hskipped : resume (ts.drop start) (ts.drop blamed) <:+ ts.drop blamed := by
      refine (skipFrom_suffix _ _).trans ?_
      unfold passOne
      split
      · exact List.tail_suffix _
      · exact List.suffix_refl _
    obtain ⟨stop, hle, hstop, heq⟩ := exists_index_of_suffix hskipped hend
    refine ⟨⟨start, .failed fault blamed, stop⟩, rfl, ⟨hrun, heq⟩, ⟨?_, hstop, ?_⟩⟩
    · rw [heq, List.length_drop, hlength] at hresume
      change start < stop
      omega
    · rintro _ _ ⟨⟩
      exact ⟨hblamed, hle⟩

/-- What holds of an index that was blamed when the run has come to the index `i`: it is passed, or
the run is at the end, or the turn at `i` does not blame its first token. -/
def Settled (ts : List Token) (k i : Nat) : Prop :=
  k < i ∨ k = i ∧ (ts.drop i = [] ∨ startsDeclaration (ts.drop i) = true)

theorem Settled.le {k i : Nat} (h : Settled ts k i) : k ≤ i := by
  rcases h with hlt | ⟨rfl, -⟩
  · exact hlt.le
  · exact le_rfl

namespace Turn

variable {turn : Turn} {fault : SyntaxFault} {k blamed : Nat}

theorem Advancing.drop_ne_nil (h : turn.Advancing ts) : ts.drop turn.start ≠ [] := by
  have hlt := h.start_lt_stop
  have hle := h.stop_le
  rw [Ne, List.drop_eq_nil_iff]
  omega

theorem Happens.failed (h : turn.Happens ts) (hfailed : turn.outcome = .failed fault blamed) :
    declaration.run (ts.drop turn.start) = .error ⟨fault, ts.drop blamed⟩ ∧
      resume (ts.drop turn.start) (ts.drop blamed) = ts.drop turn.stop := by
  rwa [Happens, hfailed] at h

/-- A failing turn settles the index that it blames. -/
theorem Happens.settled (h : turn.Happens ts) (hadvancing : turn.Advancing ts)
    (hfailed : turn.outcome = .failed fault blamed) : Settled ts blamed turn.stop := by
  obtain ⟨hrun, hresume⟩ := h.failed hfailed
  have hle := (hadvancing.blamed hfailed).2
  have hstop := hadvancing.stop_le
  have hstays := resume_stays hrun hadvancing.drop_ne_nil
  rw [hresume] at hstays
  rcases hstays with hshorter | ⟨hsame, hplace⟩
  · rw [List.length_drop, List.length_drop] at hshorter
    exact .inl (by omega)
  · rcases hle.lt_or_eq with hlt | heq
    · exact .inl hlt
    · rw [← hsame] at hplace
      exact .inr ⟨heq, hplace⟩

/-- A settled index is not blamed again. -/
theorem Happens.lt_blamed (h : turn.Happens ts) (hadvancing : turn.Advancing ts)
    (hfailed : turn.outcome = .failed fault blamed) (hk : Settled ts k turn.start) :
    k < blamed := by
  have hle := (hadvancing.blamed hfailed).1
  rcases hk with hlt | ⟨rfl, hend | hstarts⟩
  · exact lt_of_lt_of_le hlt hle
  · exact absurd hend hadvancing.drop_ne_nil
  · have hlength := rest_length_of_startsDeclaration hstarts (h.failed hfailed).1
    rw [List.length_drop, List.length_drop] at hlength
    omega

/-- Every turn keeps settled indices settled. -/
theorem Advancing.settled (h : turn.Advancing ts) (hk : Settled ts k turn.start) :
    Settled ts k turn.stop :=
  .inl (lt_of_le_of_lt hk.le h.start_lt_stop)

end Turn

/-! ## Whole runs -/

/-- **A run comes to the end of the tokens.** -/
theorem exists_turns {start : Nat} (h : start ≤ ts.length) :
    ∃ turns, Turns ts start turns ∧ ∀ turn ∈ turns, turn.Advancing ts := by
  -- on the number of tokens that are left
  induction hn : ts.length - start using Nat.strong_induction_on generalizing start with
  | _ n ih =>
    rcases h.eq_or_lt with rfl | hlt
    · exact ⟨[], .done, List.forall_mem_nil _⟩
    · obtain ⟨turn, rfl, hhappens, hadvancing⟩ := exists_turn hlt
      have hmoves := hadvancing.start_lt_stop
      obtain ⟨turns, hturns, hall⟩ := ih (ts.length - turn.stop) (by omega) hadvancing.stop_le rfl
      exact ⟨turn :: turns, .next hlt hhappens hturns, List.forall_mem_cons.mpr ⟨hadvancing, hall⟩⟩

variable {start : Nat} {turns : List Turn}

/-- Every turn is spent on a token of its own. -/
theorem Turns.length_le (h : Turns ts start turns) (hall : ∀ turn ∈ turns, turn.Advancing ts) :
    start + turns.length ≤ ts.length := by
  induction h with
  | done => exact Nat.le_refl _
  | next _ _ _ ih =>
    obtain ⟨hadvancing, hall⟩ := List.forall_mem_cons.mp hall
    have hmoves := hadvancing.start_lt_stop
    have hle := ih hall
    rw [List.length_cons]
    omega

/-- The turns of a run blame nothing that is settled when it starts. -/
theorem Turns.lt_blamed (h : Turns ts start turns) (hall : ∀ turn ∈ turns, turn.Advancing ts)
    {k : Nat} (hk : Settled ts k start) : ∀ blamed ∈ turns.filterMap Turn.blamed?, k < blamed := by
  induction h with
  | done => exact List.forall_mem_nil _
  | @next turn turns _ hhappens _ ih =>
    obtain ⟨hadvancing, hall⟩ := List.forall_mem_cons.mp hall
    have hrest := ih hall (hadvancing.settled hk)
    cases houtcome : turn.outcome with
    | read d => rwa [List.filterMap_cons_none (by rw [Turn.blamed?, houtcome])]
    | failed fault blamed =>
      rw [List.filterMap_cons_some (b := blamed) (by rw [Turn.blamed?, houtcome])]
      exact List.forall_mem_cons.mpr ⟨hhappens.lt_blamed hadvancing houtcome hk, hrest⟩

/-- **Tokens are blamed in their order, and none of them twice.** -/
theorem Turns.pairwise_blamed (h : Turns ts start turns)
    (hall : ∀ turn ∈ turns, turn.Advancing ts) :
    (turns.filterMap Turn.blamed?).Pairwise (· < ·) := by
  induction h with
  | done => exact .nil
  | @next turn turns _ hhappens hturns ih =>
    obtain ⟨hadvancing, hall⟩ := List.forall_mem_cons.mp hall
    cases houtcome : turn.outcome with
    | read d =>
      rw [List.filterMap_cons_none (by rw [Turn.blamed?, houtcome])]
      exact ih hall
    | failed fault blamed =>
      rw [List.filterMap_cons_some (b := blamed) (by rw [Turn.blamed?, houtcome])]
      exact (ih hall).cons (hturns.lt_blamed hall (hhappens.settled hadvancing houtcome))

/-- What a run collects is what its turns give. -/
theorem Turns.declarations_eq (h : Turns ts start turns) :
    declarations .collect (ts.drop start) =
      (turns.filterMap Turn.declaration?, turns.filterMap (Turn.failure? ts)) := by
  induction h with
  | done => rw [List.drop_length, declarations_nil]; rfl
  | @next turn turns hlt hhappens _ ih =>
    cases houtcome : turn.outcome with
    | read d =>
      rw [Turn.Happens, houtcome] at hhappens
      rw [declarations_of_run_ok hhappens, ih,
        List.filterMap_cons_some (b := d) (by rw [Turn.declaration?, houtcome]),
        List.filterMap_cons_none (by rw [Turn.failure?, houtcome])]
    | failed fault blamed =>
      obtain ⟨hrun, hresume⟩ := hhappens.failed houtcome
      obtain ⟨t, tail, hcons⟩ : ∃ t tail, ts.drop turn.start = t :: tail :=
        List.exists_cons_of_ne_nil (List.drop_eq_nil_iff.not.mpr (Nat.not_le.mpr hlt))
      rw [hcons] at hrun hresume ⊢
      rw [declarations_collect_of_error hrun, hresume, ih,
        List.filterMap_cons_none (by rw [Turn.declaration?, houtcome]),
        List.filterMap_cons_some (b := ⟨fault, ts.drop blamed⟩) (by rw [Turn.failure?, houtcome])]

end Parser

open WireSchema.Parser

theorem Parser.Turn.diagnostic?_eq (stream : TokenStream) (turn : Turn) :
    turn.diagnostic? stream =
      (turn.failure? stream.tokens).map (Failure.diagnostic stream.finish) := by
  cases houtcome : turn.outcome with
  | read d => rw [diagnostic?, failure?, houtcome]; rfl
  | failed fault blamed =>
    rw [diagnostic?, failure?, houtcome]
    change some _ = some (Failure.diagnostic _ _)
    rw [Failure.diagnostic, List.head?_drop, TokenStream.locationAt]

/-- **A run that collects always moves on, and blames no token twice.** Its turns follow each other
from the first token to the end of the tokens. Each reads a declaration, or fails and is resumed; it
goes on behind its start, and not behind the end, so there are no more turns than tokens. The blamed
indices become greater from failure to failure. The outcome of the run is what its turns give: all
declarations if none of them fails, else one diagnostic for each blamed index, at its location. -/
theorem ofTokens_collect_moves_on (stream : TokenStream) :
    ∃ turns : List Turn, Turns stream.tokens 0 turns ∧
      (∀ turn ∈ turns, turn.Advancing stream.tokens) ∧
      turns.length ≤ stream.tokens.length ∧
      (turns.filterMap Turn.blamed?).Pairwise (· < ·) ∧
      Written.ofTokens .collect stream = Report.guard (turns.filterMap Turn.declaration?)
        (turns.filterMap (Turn.diagnostic? stream)) := by
  obtain ⟨turns, hturns, hall⟩ := exists_turns (Nat.zero_le stream.tokens.length)
  have hlength := hturns.length_le hall
  rw [Nat.zero_add] at hlength
  refine ⟨turns, hturns, hall, hlength, hturns.pairwise_blamed hall, ?_⟩
  have hread := hturns.declarations_eq
  rw [List.drop_zero] at hread
  have hdiagnostics : turns.filterMap (Turn.diagnostic? stream) =
      (turns.filterMap (Turn.failure? stream.tokens)).map (Failure.diagnostic stream.finish) := by
    rw [List.map_filterMap]
    exact List.filterMap_congr fun turn _ => turn.diagnostic?_eq stream
  rw [Written.ofTokens, hread, hdiagnostics]

-- the keyword `enum` is blamed, and the next turn starts at it and blames what follows its name
example : ∃ stream ∈ (TokenStream.ofText "const a enum B x").toOption,
    Written.ofTokens .collect stream = .error
      ⟨⟨.syntactic (.unexpectedToken (.symbol ":") (some ⟨.identifier, "enum", ⟨1, 9⟩⟩)), ⟨1, 9⟩⟩,
        [⟨.syntactic (.unexpectedToken (.symbol "\x7b") (some ⟨.identifier, "x", ⟨1, 16⟩⟩)),
          ⟨1, 16⟩⟩]⟩ := by
  decide +kernel

end WireSchema
