import WireSchema.Proofs.ClaimedNames

/-!
# Generation fails exactly on name problems

The check before generation takes identifiers one by one, in nested namespaces, and stops at the
first that cannot be taken. Two things are said about it here:

* it passes exactly if all identifiers are words, those of one namespace differ, and none is
  reserved (`Scope.exists_check_iff`), and then nothing else but a 64-bit integer can stop the
  generation of a schema that comes from a text (`Go.exists_generate_iff`,
  `JavaScript.exists_generate_iff`);
* if it fails, it blames the first entry that repeats another one, or is no word, in the **order of
  claims**: that of the declarations, where every namespace starts with what generated code reserves
  for itself (`Scope.check_blames`).
-/

namespace WireSchema

open Text (isWord)

namespace Naming

/-! ## Entries -/

/-- A namespace of generated source: the package or module, or that of the members of the group at
an index. -/
inductive Space where
  | outer
  | members (index : Nat)
  deriving DecidableEq

/-- An identifier that is taken in a namespace, and who takes it. -/
structure Entry where
  space : Space
  owner : String
  identifier : String

/-- A declaration takes an identifier. -/
def Entry.claimed (space : Space) (c : Claim) : Entry :=
  ⟨space, c.declaration, c.identifier⟩

/-- Generated code takes an identifier for itself. -/
def Entry.generated (space : Space) (identifier : String) : Entry :=
  ⟨space, "generated " ++ identifier, identifier⟩

/-- The two entries take the same identifier in the same namespace. -/
def Entry.Clashes (a b : Entry) : Prop :=
  a.space = b.space ∧ a.identifier = b.identifier

/-- All identifiers are words, and no two entries clash. -/
structure Clear (entries : List Entry) : Prop where
  words : ∀ a ∈ entries, isWord a.identifier = true
  apart : entries.Pairwise fun a b => ¬ a.Clashes b

/-- The names of one namespace: all are words, no two are the same, and none is reserved. -/
structure Free (reserved names : List String) : Prop where
  words : ∀ w ∈ names, isWord w = true
  distinct : names.Nodup
  unreserved : ∀ w ∈ names, w ∉ reserved

/-- The first entry that clashes with an earlier one is the entry of `second`, which takes the
`identifier` that the entry of `first` has taken. -/
def FirstClash (entries : List Entry) (first second identifier : String) : Prop :=
  ∃ before a between b after, entries = before ++ a :: (between ++ b :: after) ∧
    Clear (before ++ a :: between) ∧ a.Clashes b ∧
    a.owner = first ∧ b.owner = second ∧ b.identifier = identifier

/-- A failure blames the first entry that is no word or clashes with an earlier one. -/
inductive Blames (language : Language) (entries : List Entry) : GenerationError → Prop where
  | invalid {before after : List Entry} {b : Entry} :
    entries = before ++ b :: after → Clear before → isWord b.identifier = false →
      Blames language entries ⟨language, b.owner, .invalidIdentifier b.owner⟩
  | collision {first second identifier : String} :
    FirstClash entries first second identifier →
      Blames language entries ⟨language, second, .nameCollision first second identifier⟩

/-- The first clash is the same whatever comes later. -/
theorem FirstClash.append {entries : List Entry} {first second identifier : String}
    (h : FirstClash entries first second identifier) (more : List Entry) :
    FirstClash (entries ++ more) first second identifier := by
  obtain ⟨before, a, between, b, after, rfl, hclash⟩ := h
  exact ⟨before, a, between, b, after ++ more, by simp, hclash⟩

/-- So is what is blamed. -/
theorem Blames.append {language : Language} {entries : List Entry} {e : GenerationError}
    (h : Blames language entries e) (more : List Entry) : Blames language (entries ++ more) e := by
  cases h with
  | @invalid before after b heq hclear hword =>
    have hsplit : entries ++ more = before ++ b :: (after ++ more) := by
      rw [heq, List.append_assoc, List.cons_append]
    exact .invalid hsplit hclear hword
  | collision hclash => exact .collision (hclash.append more)

/-- A collision is blamed on the first clash. -/
theorem Blames.firstClash {language : Language} {entries : List Entry} {e : GenerationError}
    (h : Blames language entries e) {first second identifier : String}
    (hcause : e.cause = .nameCollision first second identifier) :
    FirstClash entries first second identifier := by
  cases h with
  | invalid _ _ _ => cases hcause
  | collision hclash =>
    cases hcause
    exact hclash

namespace Scope

/-- What is taken in a scope, the earliest first. -/
def entries (scope : Scope) (space : Space) : List Entry :=
  scope.taken.reverse.map fun p => ⟨space, p.2, p.1⟩

/-- The entries of a scope are the names that are taken in it. -/
theorem mem_entries {scope : Scope} {space : Space} {a : Entry} :
    a ∈ scope.entries space ↔ a.space = space ∧ (a.identifier, a.owner) ∈ scope.taken := by
  rw [entries, List.mem_map]
  refine ⟨?_, ?_⟩
  · rintro ⟨p, hp, rfl⟩
    exact ⟨rfl, List.mem_reverse.mp hp⟩
  · rintro ⟨rfl, hp⟩
    exact ⟨_, List.mem_reverse.mpr hp, rfl⟩

/-- A new scope has the reserved names. -/
theorem entries_reserving (language : Language) (identifiers : List String) (space : Space) :
    (reserving language identifiers).entries space = identifiers.map (.generated space) := by
  have hfold : ∀ scope : Scope, (identifiers.foldl reserve scope).entries space =
      scope.entries space ++ identifiers.map (.generated space) := by
    induction identifiers with
    | nil => exact fun scope => (List.append_nil _).symm
    | cons identifier identifiers ih =>
      intro scope
      rw [List.foldl_cons, ih, entries, entries, reserve, List.reverse_cons, List.map_append,
        List.append_assoc]
      rfl
  exact hfold (empty language)

theorem mem_names_reserving_iff {language : Language} {identifiers : List String} {w : String} :
    w ∈ (reserving language identifiers).names ↔ w ∈ identifiers := by
  have hentries := congrArg (List.map Entry.identifier)
    (entries_reserving language identifiers .outer)
  rw [entries, List.map_map, List.map_map, List.map_reverse] at hentries
  change ((reserving language identifiers).names).reverse = identifiers.map id at hentries
  rw [← List.mem_reverse, hentries, List.map_id]

/-! ## One claim -/

/-- **What a claim does**: it fails on what is no word and on what is taken, and takes the
identifier otherwise. -/
theorem claim_cases (scope : Scope) (c : Claim) :
    (isWord c.identifier = false ∧
        scope.claim c = .error ⟨scope.language, c.declaration, .invalidIdentifier c.declaration⟩) ∨
      (isWord c.identifier = true ∧ ∃ first, (c.identifier, first) ∈ scope.taken ∧
        scope.claim c = .error
          ⟨scope.language, c.declaration, .nameCollision first c.declaration c.identifier⟩) ∨
      (isWord c.identifier = true ∧ c.identifier ∉ scope.names ∧
        scope.claim c =
          .ok { scope with taken := (c.identifier, c.declaration) :: scope.taken }) := by
  cases hword : isWord c.identifier with
  | false =>
    refine .inl ⟨rfl, ?_⟩
    rw [claim, if_pos (by simp [hword])]
  | true =>
    refine .inr ?_
    rw [claim, if_neg (by simp [hword])]
    cases hlookup : scope.taken.lookup c.identifier with
    | some first =>
      obtain ⟨earlier, later, htaken, -⟩ := List.lookup_eq_some_iff.mp hlookup
      refine .inl ⟨rfl, first, ?_, rfl⟩
      rw [htaken]
      exact List.mem_append_right _ List.mem_cons_self
    | none => exact .inr ⟨rfl, Resolve.lookup_eq_none_iff_notMem_keys.mp hlookup, rfl⟩

/-- An identifier can be claimed if it is a word and free. -/
theorem exists_claim_iff {scope : Scope} {c : Claim} :
    (∃ scope', scope.claim c = .ok scope') ↔
      isWord c.identifier = true ∧ c.identifier ∉ scope.names := by
  rcases claim_cases scope c with
    ⟨hword, hrun⟩ | ⟨hword, first, hfirst, hrun⟩ | ⟨hword, hfree, hrun⟩
  · simp [hrun, hword]
  · have htaken : c.identifier ∈ scope.names := List.mem_map_of_mem (f := Prod.fst) hfirst
    simp [hrun, htaken]
  · exact iff_of_true ⟨_, hrun⟩ ⟨hword, hfree⟩

/-! ## When a check passes -/

/-- After a claim its identifiers are taken, and nothing else is new. -/
theorem names_of_claimAll {scope scope' : Scope} {claims : List Claim}
    (h : scope.claimAll claims = .ok scope') :
    ∀ w, w ∈ scope'.names ↔ w ∈ claims.map Claim.identifier ∨ w ∈ scope.names := by
  induction claims generalizing scope with
  | nil =>
    cases h
    simp
  | cons c claims ih =>
    rw [claimAll] at h
    cases hc : scope.claim c with
    | error e => simp [hc] at h
    | ok next =>
      rw [hc] at h
      intro w
      rw [ih h, (names_of_claim hc).2, List.map_cons, List.mem_cons, List.mem_cons, or_left_comm,
        or_assoc]

/-- **Claims are taken** exactly if they are words that differ and are free. -/
theorem exists_claimAll_iff {scope : Scope} {claims : List Claim} :
    (∃ scope', scope.claimAll claims = .ok scope') ↔
      (∀ c ∈ claims, isWord c.identifier = true ∧ c.identifier ∉ scope.names) ∧
        (claims.map Claim.identifier).Nodup := by
  induction claims generalizing scope with
  | nil => exact iff_of_true ⟨scope, rfl⟩ ⟨List.forall_mem_nil _, List.nodup_nil⟩
  | cons c claims ih =>
    rw [List.forall_mem_cons, List.map_cons, List.nodup_cons, claimAll]
    cases hc : scope.claim c with
    | error e =>
      have hno : ¬ (isWord c.identifier = true ∧ c.identifier ∉ scope.names) := by
        rw [← exists_claim_iff, hc]
        simp
      simp [hno]
    | ok next =>
      have hok := exists_claim_iff.mp ⟨next, hc⟩
      have hnames := (names_of_claim hc).2
      simp only [ih, hnames, List.mem_cons, not_or]
      refine ⟨?_, ?_⟩
      · rintro ⟨hfree, hnodup⟩
        refine ⟨⟨hok, fun d hd => ⟨(hfree d hd).1, (hfree d hd).2.2⟩⟩, fun hmem => ?_, hnodup⟩
        obtain ⟨d, hd, heq⟩ := List.mem_map.mp hmem
        exact (hfree d hd).2.1 heq
      · rintro ⟨⟨-, hfree⟩, hfresh, hnodup⟩
        refine ⟨fun d hd => ⟨(hfree d hd).1, fun heq => hfresh ?_, (hfree d hd).2⟩, hnodup⟩
        exact heq ▸ List.mem_map_of_mem hd

/-- **Groups can be claimed** if their heads are free and distinct and each has room for its
members. -/
theorem exists_claimGroups_iff {scope : Scope} {groups : List Group} :
    (∃ scope', scope.claimGroups groups = .ok scope') ↔
      ((∀ g ∈ groups, isWord g.head.identifier = true ∧ g.head.identifier ∉ scope.names) ∧
        (groups.map (·.head.identifier)).Nodup) ∧
      ∀ g ∈ groups, ∃ inner, g.inner.claimAll g.members = .ok inner := by
  -- the heads alone are claimed like any other list
  have hheads : (∃ scope', scope.claimGroups groups = .ok scope') ↔
      (∃ scope', scope.claimAll (groups.map Group.head) = .ok scope') ∧
        ∀ g ∈ groups, ∃ inner, g.inner.claimAll g.members = .ok inner := by
    induction groups generalizing scope with
    | nil => exact iff_of_true ⟨scope, rfl⟩ ⟨⟨scope, rfl⟩, List.forall_mem_nil _⟩
    | cons g groups ih =>
      rw [claimGroups, List.map_cons, claimAll, List.forall_mem_cons]
      cases scope.claim g.head with
      | error e => simp
      | ok next =>
        cases hmembers : g.inner.claimAll g.members with
        | error e => simp
        | ok inner => simp [ih]
  rw [hheads, exists_claimAll_iff, List.map_map, List.forall_mem_map]
  rfl

/-- Claims succeed in a new scope if their identifiers are words, distinct and not reserved. -/
theorem exists_claimAll_reserving_iff {language : Language} {reserved : List String}
    {claims : List Claim} :
    (∃ scope, (reserving language reserved).claimAll claims = .ok scope) ↔
      Free reserved (claims.map Claim.identifier) := by
  rw [exists_claimAll_iff]
  simp only [mem_names_reserving_iff]
  refine ⟨?_, ?_⟩
  · rintro ⟨hfree, hnodup⟩
    exact ⟨List.forall_mem_map.mpr fun c hc => (hfree c hc).1, hnodup,
      List.forall_mem_map.mpr fun c hc => (hfree c hc).2⟩
  · rintro ⟨hwords, hnodup, hfree⟩
    refine ⟨fun c hc => ?_, hnodup⟩
    have hmem := List.mem_map_of_mem (f := Claim.identifier) hc
    exact ⟨hwords _ hmem, hfree _ hmem⟩

/-- **A check passes** exactly if the outer identifiers are free, and the members of every group can
be claimed among themselves. -/
theorem exists_check_iff {language : Language} {reserved : List String} {claims : List Claim}
    {groups : List Group} {names : List String}
    (hnames : names = claims.map Claim.identifier ++ groups.map (·.head.identifier)) :
    (∃ scope, ((reserving language reserved).claimAll claims >>=
        fun outer => outer.claimGroups groups) = .ok scope) ↔
      Free reserved names ∧ ∀ g ∈ groups, ∃ inner, g.inner.claimAll g.members = .ok inner := by
  subst hnames
  refine ⟨?_, ?_⟩
  · rintro ⟨scope, hrun⟩
    obtain ⟨outer, hclaims, hgroups⟩ := bind_eq_ok_iff.mp hrun
    obtain ⟨hwords, hnodup, hunreserved⟩ := exists_claimAll_reserving_iff.mp ⟨outer, hclaims⟩
    obtain ⟨⟨hheads, hnodup'⟩, hmembers⟩ := exists_claimGroups_iff.mp ⟨scope, hgroups⟩
    have hnames := names_of_claimAll hclaims
    simp only [hnames, not_or, mem_names_reserving_iff] at hheads
    refine ⟨⟨List.forall_mem_append.mpr ⟨hwords, ?_⟩, List.nodup_append'.mpr ⟨hnodup, hnodup', ?_⟩,
      List.forall_mem_append.mpr ⟨hunreserved, ?_⟩⟩, hmembers⟩
    · exact List.forall_mem_map.mpr fun g hg => (hheads g hg).1
    · intro w hw hw'
      obtain ⟨g, hg, rfl⟩ := List.mem_map.mp hw'
      exact (hheads g hg).2.1 hw
    · exact List.forall_mem_map.mpr fun g hg => (hheads g hg).2.2
  · rintro ⟨⟨hwords, hnodup, hunreserved⟩, hmembers⟩
    rw [List.forall_mem_append] at hwords hunreserved
    obtain ⟨hnodup, hnodup', hdisjoint⟩ := List.nodup_append'.mp hnodup
    obtain ⟨outer, hclaims⟩ : ∃ outer, (reserving language reserved).claimAll claims = .ok outer :=
      exists_claimAll_reserving_iff.mpr ⟨hwords.1, hnodup, hunreserved.1⟩
    have hfree : ∀ g ∈ groups, g.head.identifier ∉ outer.names := by
      intro g hg
      have hmem := List.mem_map_of_mem (f := (·.head.identifier)) hg
      rw [names_of_claimAll hclaims, not_or, mem_names_reserving_iff]
      exact ⟨fun hclaimed => hdisjoint hclaimed hmem, hunreserved.2 _ hmem⟩
    obtain ⟨scope, hgroups⟩ := exists_claimGroups_iff.mpr
      ⟨⟨fun g hg => ⟨hwords.2 _ (List.mem_map_of_mem hg), hfree g hg⟩, hnodup'⟩, hmembers⟩
    exact ⟨scope, bind_eq_ok_iff.mpr ⟨outer, hclaims, hgroups⟩⟩

/-! ## What a failed check blames -/

/-- The entries of a namespace among `before` are those that a scope has taken. -/
def Holds (scope : Scope) (space : Space) (before : List Entry) : Prop :=
  before.filter (·.space = space) = scope.entries space

/-- What a run over `entries` may end with: a scope that has taken them, since they are clear, or a
failure that blames one of them. -/
inductive Settled (language : Language) (space : Space) (entries : List Entry) :
    Except GenerationError Scope → Prop where
  | ok {scope : Scope} : scope.language = language → Clear entries → scope.Holds space entries →
    Settled language space entries (.ok scope)
  | error {e : GenerationError} : Blames language entries e →
    Settled language space entries (.error e)

/-- Claims that succeed are clear, and their names are taken. -/
theorem Settled.taken {language : Language} {space : Space} {entries : List Entry} {scope : Scope}
    (h : Settled language space entries (.ok scope)) :
    scope.language = language ∧ Clear entries ∧ scope.Holds space entries := by
  cases h with
  | ok hlanguage hclear hholds => exact ⟨hlanguage, hclear, hholds⟩

/-- Claims that fail blame the first problem. -/
theorem Settled.blames {language : Language} {space : Space} {entries : List Entry}
    {e : GenerationError} (h : Settled language space entries (.error e)) :
    Blames language entries e := by
  cases h with
  | error hblames => exact hblames

section

variable {scope : Scope} {space : Space} {before : List Entry}

theorem mem_before_iff (hholds : scope.Holds space before) {a : Entry} (ha : a.space = space) :
    a ∈ before ↔ (a.identifier, a.owner) ∈ scope.taken := by
  have hmem : a ∈ before.filter (·.space = space) ↔ a ∈ scope.entries space := by rw [hholds]
  simpa [mem_entries, ha] using hmem

/-- One claim is settled in front of all that come later. -/
theorem settled_claim (hclear : Clear before) (hholds : scope.Holds space before) (c : Claim) :
    Settled scope.language space (before ++ [.claimed space c]) (scope.claim c) := by
  rcases claim_cases scope c with
    ⟨hword, hrun⟩ | ⟨hword, first, hfirst, hrun⟩ | ⟨hword, hfree, hrun⟩
  · rw [hrun]
    exact .error (.invalid (b := .claimed space c) rfl hclear hword)
  · rw [hrun]
    have hmem : (⟨space, first, c.identifier⟩ : Entry) ∈ before :=
      (mem_before_iff hholds rfl).mpr hfirst
    obtain ⟨earlier, between, rfl⟩ := List.append_of_mem hmem
    refine .error (.collision ⟨earlier, _, between, .claimed space c, [], ?_, hclear, ⟨rfl, rfl⟩,
      rfl, rfl, rfl⟩)
    rw [List.append_assoc, List.cons_append]
  · rw [hrun]
    refine .ok rfl ⟨?_, ?_⟩ ?_
    · exact List.forall_mem_append.mpr ⟨hclear.words, List.forall_mem_singleton.mpr hword⟩
    · refine List.pairwise_append.mpr ⟨hclear.apart, List.pairwise_singleton _ _, ?_⟩
      rintro a ha b hb ⟨hspace, hidentifier⟩
      obtain rfl := List.mem_singleton.mp hb
      have htaken := List.mem_map_of_mem (f := Prod.fst) ((mem_before_iff hholds hspace).mp ha)
      rw [hidentifier] at htaken
      exact hfree htaken
    · rw [Holds, List.filter_append, hholds, entries, entries, List.reverse_cons, List.map_append]
      simp [Entry.claimed]

/-- **Claims are settled in their order**, by induction. -/
theorem settled_claimAll (hclear : Clear before) (hholds : scope.Holds space before)
    (claims : List Claim) :
    Settled scope.language space (before ++ claims.map (.claimed space))
      (scope.claimAll claims) := by
  induction claims generalizing scope before with
  | nil =>
    rw [claimAll, List.map_nil, List.append_nil]
    exact .ok rfl hclear hholds
  | cons c claims ih =>
    have hstep := settled_claim hclear hholds c
    rw [claimAll, List.map_cons, List.append_cons]
    cases hc : scope.claim c with
    | error e =>
      rw [hc] at hstep
      exact .error (hstep.blames.append _)
    | ok next =>
      rw [hc] at hstep
      obtain ⟨hlanguage, hclear', hholds'⟩ := hstep.taken
      rw [← hlanguage]
      exact ih hclear' hholds'

end

theorem holds_entries (scope : Scope) (space : Space) :
    scope.Holds space (scope.entries space) :=
  List.filter_eq_self.mpr fun _ ha => decide_eq_true (mem_entries.mp ha).1

/-- Reserved names do not clash with each other. -/
theorem clear_reserving {language : Language} {identifiers : List String}
    (hwords : identifiers.all isWord = true) (hnodup : identifiers.Nodup) (space : Space) :
    Clear ((reserving language identifiers).entries space) := by
  rw [entries_reserving]
  refine ⟨List.forall_mem_map.mpr (List.all_eq_true.mp hwords), List.pairwise_map.mpr ?_⟩
  exact hnodup.imp fun hne hclash => hne hclash.2

end Scope

/-- What a group takes, in order: its head in the outer namespace, then its members in their own,
behind what is reserved there. -/
def Group.order (index : Nat) (g : Group) : List Entry :=
  .claimed .outer g.head ::
    (g.inner.entries (.members index) ++ g.members.map (.claimed (.members index)))

/-- What claims and groups take, in order, behind what is reserved. -/
def claimOrder (reserved : Scope) (claims : List Claim) (groups : List Group) : List Entry :=
  reserved.entries .outer ++ claims.map (.claimed .outer) ++
    groups.zipIdx.flatMap fun p => p.1.order p.2

namespace Scope

/-- The members of a group are claimed in a namespace that nothing before has an entry in. -/
theorem settled_members (g : Group) (index : Nat) {before : List Entry} (hclear : Clear before)
    (hfresh : ∀ a ∈ before, a.space ≠ .members index)
    (hreserved : Clear (g.inner.entries (.members index))) :
    Settled g.inner.language (.members index)
      (before ++ (g.inner.entries (.members index) ++ g.members.map (.claimed (.members index))))
      (g.inner.claimAll g.members) := by
  rw [← List.append_assoc]
  refine settled_claimAll ⟨?_, ?_⟩ ?_ _
  · exact List.forall_mem_append.mpr ⟨hclear.words, hreserved.words⟩
  · refine List.pairwise_append.mpr ⟨hclear.apart, hreserved.apart, fun a ha b hb hclash => ?_⟩
    exact hfresh a ha (hclash.1.trans (mem_entries.mp hb).1)
  · have hnone : before.filter (·.space = .members index) = [] :=
      List.filter_eq_nil_iff.mpr fun a ha => by simpa using hfresh a ha
    rw [Holds, List.filter_append, hnone, List.nil_append]
    exact g.inner.holds_entries _

/-- Groups are settled in their order, the head of a group before its members. -/
theorem settled_claimGroups {scope : Scope} {groups : List Group} {index : Nat}
    {before : List Entry} (hclear : Clear before) (hholds : scope.Holds .outer before)
    (hfresh : ∀ a ∈ before, ∀ i, index ≤ i → a.space ≠ .members i)
    (hgroups : ∀ g ∈ groups, g.inner.language = scope.language ∧
      ∀ space, Clear (g.inner.entries space)) :
    Settled scope.language .outer (before ++ (groups.zipIdx index).flatMap fun p => p.1.order p.2)
      (scope.claimGroups groups) := by
  induction groups generalizing scope index before with
  | nil =>
    rw [claimGroups, List.zipIdx_nil, List.flatMap_nil, List.append_nil]
    exact .ok rfl hclear hholds
  | cons g groups ih =>
    obtain ⟨⟨hinner, hreserved⟩, hgroups⟩ := List.forall_mem_cons.mp hgroups
    have hhead := settled_claim hclear hholds g.head
    rw [claimGroups, List.zipIdx_cons, List.flatMap_cons, Group.order, ← List.append_assoc,
      List.append_cons]
    cases hc : scope.claim g.head with
    | error e =>
      rw [hc] at hhead
      exact .error ((hhead.blames.append _).append _)
    | ok next =>
      rw [hc] at hhead
      obtain ⟨hlanguage, hclear', hholds'⟩ := hhead.taken
      have hfresh' : ∀ a ∈ before ++ [.claimed .outer g.head], ∀ i, index ≤ i →
          a.space ≠ .members i :=
        List.forall_mem_append.mpr ⟨hfresh, List.forall_mem_singleton.mpr (by rintro _ _ ⟨⟩)⟩
      have hmembers := settled_members g index hclear'
        (fun a ha => hfresh' a ha index (Nat.le_refl _)) (hreserved _)
      rw [← hlanguage] at hinner hgroups ⊢
      cases hrun : g.inner.claimAll g.members with
      | error e =>
        rw [hrun, hinner] at hmembers
        exact .error (hmembers.blames.append _)
      | ok inner =>
        rw [hrun] at hmembers
        -- what the members take is in no other namespace
        have hspace : ∀ a ∈ g.inner.entries (.members index) ++
            g.members.map (.claimed (.members index)), a.space = .members index := by
          refine List.forall_mem_append.mpr ⟨fun a ha => (mem_entries.mp ha).1, ?_⟩
          exact List.forall_mem_map.mpr fun _ _ => rfl
        refine ih hmembers.taken.2.1 ?_ (List.forall_mem_append.mpr ⟨?_, ?_⟩) hgroups
        · rw [Holds, List.filter_append, hholds', List.append_right_eq_self,
            List.filter_eq_nil_iff]
          intro a ha hin
          rw [hspace a ha] at hin
          cases of_decide_eq_true hin
        · exact fun a ha i hi => hfresh' a ha i (by omega)
        · intro a ha i hi heq
          rw [hspace a ha] at heq
          cases heq
          omega

/-- **A check that fails blames the first problem in the order of claims.** -/
theorem check_blames {scope : Scope} {claims : List Claim} {groups : List Group}
    (hscope : Clear (scope.entries .outer))
    (hgroups : ∀ g ∈ groups, g.inner.language = scope.language ∧
      ∀ space, Clear (g.inner.entries space)) {e : GenerationError}
    (h : (scope.claimAll claims >>= fun outer => outer.claimGroups groups) = .error e) :
    Blames scope.language (claimOrder scope claims groups) e := by
  have hclaims := settled_claimAll hscope (scope.holds_entries .outer) claims
  cases hrun : scope.claimAll claims with
  | error e' =>
    rw [hrun] at h hclaims
    cases h
    exact hclaims.blames.append _
  | ok outer =>
    rw [hrun] at h hclaims
    obtain ⟨hlanguage, hclear, hholds⟩ := hclaims.taken
    have houter : ∀ a ∈ scope.entries .outer ++ claims.map (.claimed .outer), ∀ i, 0 ≤ i →
        a.space ≠ .members i := by
      refine List.forall_mem_append.mpr ⟨fun a ha i _ => ?_, List.forall_mem_map.mpr ?_⟩
      · rw [(mem_entries.mp ha).1]
        rintro ⟨⟩
      · rintro _ _ _ _ ⟨⟩
    rw [← hlanguage] at hgroups ⊢
    have hsettled := settled_claimGroups hclear hholds houter hgroups
    have hfail : outer.claimGroups groups = .error e := h
    rw [hfail] at hsettled
    exact hsettled.blames

end Scope

end Naming

open Naming

/-- Where nothing fails after a check, all failures are those of the check. -/
theorem bind_pure_eq_error_iff {ε α β : Type} {x : Except ε α} {f : α → β} {e : ε} :
    (x >>= fun a => pure (f a)) = .error e ↔ x = .error e := by
  cases x with
  | error e' =>
    refine ⟨?_, ?_⟩ <;>
    · rintro ⟨⟩
      rfl
  | ok a =>
    refine ⟨?_, ?_⟩ <;>
    · rintro ⟨⟩

/-! ## Go -/

namespace Go

/-- No name of the schema is a problem in Go. -/
structure Nameable (package : String) (s : Schema) : Prop where
  package : isWord package = true ∧ package ≠ "_" ∧ package ∉ keywords
  declared : Free [versionConstant] (packageNames s)
  fields : ∀ m ∈ s.messages, Free messageMethods (m.fields.map fieldName)

/-- What the names of a package and of its structs are taken by, in order. -/
def claimOrder (s : Schema) : List Naming.Entry :=
  Naming.claimOrder (.reserving .go [versionConstant])
    (constantClaims s ++ s.enums.flatMap enumClaims) (s.messages.map messageGroup)

/-- The names that a package can have. -/
theorem isPackageName_iff {package : String} :
    isPackageName package = true ↔ isWord package = true ∧ package ≠ "_" ∧ package ∉ keywords := by
  simp [isPackageName, and_assoc]

/-- The names of a package are accepted if they are free, and so are the members of its structs. -/
theorem exists_checkNames_iff {s : Schema} :
    (∃ scope, checkNames s = .ok scope) ↔
      Free [versionConstant] (packageNames s) ∧
        ∀ m ∈ s.messages, Free messageMethods (m.fields.map fieldName) := by
  rw [checkNames, Scope.exists_check_iff (packageNames_eq s), List.forall_mem_map]
  refine and_congr_right fun _ => forall₂_congr fun m _ => ?_
  rw [messageGroup, Scope.exists_claimAll_reserving_iff, List.map_map]
  rfl

/-- **Go sources are generated** exactly if no name is a problem. -/
theorem exists_generate_iff {package : String} {s : Schema} :
    (∃ files, generate package s = .ok files) ↔ Nameable package s := by
  refine ⟨?_, ?_⟩
  · rintro ⟨files, h⟩
    obtain ⟨hdeclared, hfields⟩ := exists_checkNames_iff.mp (generate_eq_ok h).2
    refine ⟨isPackageName_iff.mp ?_, hdeclared, hfields⟩
    cases hpackage : isPackageName package with
    | true => rfl
    | false =>
      rw [generate, if_pos (by simp [hpackage])] at h
      cases h
  · rintro ⟨hpackage, hdeclared, hfields⟩
    obtain ⟨scope, hscope⟩ := exists_checkNames_iff.mpr ⟨hdeclared, hfields⟩
    rw [generate, if_neg (by simp [isPackageName_iff.mpr hpackage]), hscope]
    exact ⟨_, rfl⟩

/-- A package that is refused blames its first problem in the order of claims. -/
theorem checkNames_blames {s : Schema} {e : GenerationError} (h : checkNames s = .error e) :
    Blames .go (claimOrder s) e := by
  refine Scope.check_blames (Scope.clear_reserving (by decide +kernel) (by decide +kernel) _) ?_ h
  refine List.forall_mem_map.mpr fun m _ => ⟨rfl, ?_⟩
  exact Scope.clear_reserving (by decide +kernel) (by decide +kernel)

/-- A collision that is reported is the first one. -/
theorem firstClash_of_generate {package : String} {s : Schema} {e : GenerationError}
    (h : generate package s = .error e) {first second identifier : String}
    (hcause : e.cause = .nameCollision first second identifier) :
    FirstClash (claimOrder s) first second identifier := by
  rw [generate] at h
  split at h
  · cases h
    cases hcause
  · exact (checkNames_blames (bind_pure_eq_error_iff.mp h)).firstClash hcause

end Go

/-! ## JavaScript -/

namespace JavaScript

/-- No name of the schema is a problem in JavaScript, and neither is a 64-bit integer. -/
structure Nameable (bigint : Bool) (s : Schema) : Prop where
  integers : bigint = false → (∀ c ∈ s.constants, c.type.is64Bit = false) ∧
    ∀ m ∈ s.messages, ∀ f ∈ m.fields, ∀ p, f.type = .primitive p → p.is64Bit = false
  declared : Free reservedNames (moduleNames s)
  labels : ∀ e ∈ s.enums, ∀ v ∈ e.variants, v.label ≠ prototypeKey
  properties : ∀ m ∈ s.messages, Free classMembers (m.fields.map property)

/-- What the names of a module, of its enums and of its classes are taken by, in order. -/
def claimOrder (s : Schema) : List Naming.Entry :=
  Naming.claimOrder (.reserving .javaScript reservedNames) (constantClaims s)
    (s.enums.map enumGroup ++ s.messages.map messageGroup)

theorem is64Bit_ofType_iff {type : TypeRef} :
    (Wire.Kind.ofType type).is64Bit = true ↔ ∃ p, type = .primitive p ∧ p.is64Bit = true := by
  cases type with
  | primitive p => cases p <;> simp [Wire.Kind.ofType, Wire.Kind.ofPrimitive, Wire.Kind.is64Bit,
      Primitive.is64Bit]
  | message index => simp [Wire.Kind.ofType, Wire.Kind.is64Bit]
  | enum index => simp [Wire.Kind.ofType, Wire.Kind.is64Bit]

/-- A schema without 64-bit integers needs no `BigInt`. -/
theorem check64_eq_ok_iff {s : Schema} :
    check64 s = .ok () ↔ (∀ c ∈ s.constants, c.type.is64Bit = false) ∧
      ∀ m ∈ s.messages, ∀ f ∈ m.fields, ∀ p, f.type = .primitive p → p.is64Bit = false := by
  have hnil : check64 s = .ok () ↔ declarations64 s = [] := by
    rw [check64]
    cases declarations64 s <;> simp
  rw [hnil, declarations64, List.append_eq_nil_iff, List.map_eq_nil_iff, List.filter_eq_nil_iff,
    List.flatMap_eq_nil_iff]
  refine and_congr (by simp) ⟨?_, ?_⟩
  · intro hplan m hm f hf p htype
    obtain ⟨index, hlt, rfl⟩ := List.getElem_of_mem hm
    have hplanned := hplan _ (Schema.mem_plan_iff.mpr ⟨index, _, List.getElem?_eq_getElem hlt, rfl⟩)
    rw [List.map_eq_nil_iff, List.filter_eq_nil_iff] at hplanned
    have hkind := hplanned (.ofField f) (List.mem_map_of_mem (Schema.mem_fieldsByTag_iff.mpr hf))
    rw [← Bool.not_eq_true]
    exact fun h64 => hkind (is64Bit_ofType_iff.mpr ⟨p, htype, h64⟩)
  · intro hfields m hm
    obtain ⟨index, message, hget, rfl⟩ := Schema.mem_plan_iff.mp hm
    rw [List.map_eq_nil_iff, List.filter_eq_nil_iff]
    intro f hf h64
    obtain ⟨field, hfield, rfl⟩ := List.mem_map.mp hf
    obtain ⟨p, htype, h64⟩ := is64Bit_ofType_iff.mp h64
    have hno := hfields message (List.mem_of_getElem? hget) field
      (Schema.mem_fieldsByTag_iff.mp hfield) p htype
    rw [hno] at h64
    cases h64

theorem exists_of_check64_eq_error {s : Schema} {e : GenerationError} (h : check64 s = .error e) :
    ∃ declaration, e = error64 declaration := by
  rw [check64] at h
  split at h
  · cases h
  · cases h
    exact ⟨_, rfl⟩

/-- The labels of an enum are words that differ. -/
theorem free_labels_iff {mode : ErrorMode} {text : String} {s : Schema}
    (h : Schema.ofText mode text = .ok s) {e : Enum} (he : e ∈ s.enums) {reserved : List String} :
    Free reserved (e.variants.map Variant.label) ↔ ∀ v ∈ e.variants, v.label ∉ reserved := by
  refine ⟨fun hfree v hv => hfree.unreserved _ (List.mem_map_of_mem hv),
    fun hlabels => ⟨?_, ?_, ?_⟩⟩
  · exact List.forall_mem_map.mpr (((Schema.ofText_worded h).enums e he).2)
  · obtain ⟨ds, -, hs⟩ := Schema.exists_resolves_of_ofText h
    obtain ⟨w, -, he⟩ := Resolve.exists_of_mem_forall₂ hs.enums he
    rw [Resolve.map_eq_of_forall₂ (f := fun v => v.label) (fun _ _ hv => by rw [hv.eq]) he.variants]
    exact (Resolve.pairwise_sum_keys_iff.mp he.distinct).1
  · exact List.forall_mem_map.mpr hlabels

/-- The names of a module are accepted if they are free, and so are the members of its classes; and
no label is the key of the prototype. -/
theorem exists_checkNames_iff {mode : ErrorMode} {text : String} {s : Schema}
    (h : Schema.ofText mode text = .ok s) :
    (∃ scope, checkNames s = .ok scope) ↔
      Free reservedNames (moduleNames s) ∧
        (∀ e ∈ s.enums, ∀ v ∈ e.variants, v.label ≠ prototypeKey) ∧
        ∀ m ∈ s.messages, Free classMembers (m.fields.map property) := by
  rw [checkNames, Scope.exists_check_iff (moduleNames_eq s), List.forall_mem_append,
    List.forall_mem_map, List.forall_mem_map]
  refine and_congr_right fun _ => and_congr ?_ ?_
  · refine forall₂_congr fun e he => ?_
    rw [enumGroup, Scope.exists_claimAll_reserving_iff, List.map_map]
    refine (free_labels_iff h he).trans (forall₂_congr fun v _ => ?_)
    exact not_congr List.mem_singleton
  · refine forall₂_congr fun m _ => ?_
    rw [messageGroup, Scope.exists_claimAll_reserving_iff, List.map_map]
    rfl

/-- **JavaScript sources are generated** exactly if no name and no 64-bit integer is a problem. -/
theorem exists_generate_iff {mode : ErrorMode} {text : String} {s : Schema}
    (h : Schema.ofText mode text = .ok s) {bigint : Bool} :
    (∃ files, generate bigint s = .ok files) ↔ Nameable bigint s := by
  refine ⟨?_, ?_⟩
  · rintro ⟨files, hgen⟩
    obtain ⟨hdeclared, hlabels, hproperties⟩ :=
      (exists_checkNames_iff h).mp (generate_eq_ok hgen).2
    refine ⟨?_, hdeclared, hlabels, hproperties⟩
    rintro rfl
    rw [generate, if_pos (by rfl)] at hgen
    obtain ⟨_, h64, -⟩ := bind_eq_ok_iff.mp hgen
    exact check64_eq_ok_iff.mp h64
  · rintro ⟨hintegers, hdeclared, hlabels, hproperties⟩
    obtain ⟨scope, hscope⟩ := (exists_checkNames_iff h).mpr ⟨hdeclared, hlabels, hproperties⟩
    cases bigint with
    | true =>
      rw [generate, if_neg (by simp), hscope]
      exact ⟨_, rfl⟩
    | false =>
      rw [generate, if_pos (by rfl), check64_eq_ok_iff.mpr (hintegers rfl), hscope]
      exact ⟨_, rfl⟩

/-- A module that is refused blames its first problem in the order of claims. -/
theorem checkNames_blames {s : Schema} {e : GenerationError} (h : checkNames s = .error e) :
    Blames .javaScript (claimOrder s) e := by
  refine Scope.check_blames (Scope.clear_reserving (by decide +kernel) (by decide +kernel) _) ?_ h
  refine List.forall_mem_append.mpr ⟨?_, ?_⟩
  · refine List.forall_mem_map.mpr fun e _ => ⟨rfl, ?_⟩
    exact Scope.clear_reserving (by decide +kernel) (by decide +kernel)
  · refine List.forall_mem_map.mpr fun m _ => ⟨rfl, ?_⟩
    exact Scope.clear_reserving (by decide +kernel) (by decide +kernel)

/-- A collision that is reported is the first one. -/
theorem firstClash_of_generate {bigint : Bool} {s : Schema} {e : GenerationError}
    (h : generate bigint s = .error e) {first second identifier : String}
    (hcause : e.cause = .nameCollision first second identifier) :
    FirstClash (claimOrder s) first second identifier := by
  -- the check for 64-bit integers fails with another cause
  have hcheck : checkNames s = .error e := by
    rw [generate] at h
    split at h
    · cases h64 : check64 s with
      | error e' =>
        rw [h64] at h
        cases h
        obtain ⟨declaration, rfl⟩ := exists_of_check64_eq_error h64
        cases hcause
      | ok _ =>
        rw [h64] at h
        exact bind_pure_eq_error_iff.mp h
    · exact bind_pure_eq_error_iff.mp h
  exact (checkNames_blames hcheck).firstClash hcause

end JavaScript

/-! ## Both -/

/-- **Generation fails exactly on name problems.** For a schema that comes from a text, Go and
JavaScript sources are generated exactly if its names, and without `BigInt` its integers, are no
problem; and a collision is reported of the first entry, in the order of claims, that repeats
another one, together with the one that it repeats. -/
theorem Schema.ofText_generates_iff_nameable {mode : ErrorMode} {text : String} {s : Schema}
    (h : Schema.ofText mode text = .ok s) :
    (∀ package, (∃ files, Go.generate package s = .ok files) ↔ Go.Nameable package s) ∧
      (∀ bigint,
        (∃ files, JavaScript.generate bigint s = .ok files) ↔ JavaScript.Nameable bigint s) ∧
      ∀ e first second identifier, e.cause = .nameCollision first second identifier →
        (∀ package, Go.generate package s = .error e →
          FirstClash (Go.claimOrder s) first second identifier) ∧
        ∀ bigint, JavaScript.generate bigint s = .error e →
          FirstClash (JavaScript.claimOrder s) first second identifier := by
  refine ⟨fun _ => Go.exists_generate_iff, fun _ => JavaScript.exists_generate_iff h, ?_⟩
  intro e first second identifier hcause
  exact ⟨fun _ hgo => Go.firstClash_of_generate hgo hcause,
    fun _ hjs => JavaScript.firstClash_of_generate hjs hcause⟩

/-- A value of an enum and a message have the same name in Go, but not in JavaScript. -/
theorem Schema.enum_value_clashes_with_message :
    ∃ s, Schema.ofText .collect
        "const n: int64 = 9; enum M \x7b on = 1; \x7d message MOn \x7b at: int32 = 1; \x7d" =
          .ok s ∧
      JavaScript.Nameable true s ∧ ¬ JavaScript.Nameable false s ∧ ¬ Go.Nameable "wire" s ∧
      FirstClash (Go.claimOrder s) "enum value M.on" "message MOn" "MOn" := by
  have hrun : ∃ s ∈ (Schema.ofText .collect
        "const n: int64 = 9; enum M \x7b on = 1; \x7d message MOn \x7b at: int32 = 1; \x7d").toOption,
      (JavaScript.generate true s).toOption.isSome ∧ (JavaScript.generate false s).toOption = none ∧
      Go.generate "wire" s = .error ⟨.go, "message MOn",
        .nameCollision "enum value M.on" "message MOn" "MOn"⟩ := by decide +kernel
  obtain ⟨s, hs, hjs, hjs', hgo⟩ := hrun
  have hs := eq_ok_of_mem_toOption hs
  obtain ⟨goIff, jsIff, hclash⟩ := Schema.ofText_generates_iff_nameable hs
  refine ⟨s, hs, (jsIff true).mp ?_, fun hnames => ?_, fun hnames => ?_,
    (hclash _ _ _ _ rfl).1 _ hgo⟩
  · obtain ⟨files, hfiles⟩ := Option.isSome_iff_exists.mp hjs
    exact ⟨files, eq_ok_of_mem_toOption hfiles⟩
  · obtain ⟨files, hfiles⟩ := (jsIff false).mpr hnames
    rw [hfiles] at hjs'
    cases hjs'
  · obtain ⟨files, hfiles⟩ := (goIff "wire").mpr hnames
    rw [hfiles] at hgo
    cases hgo

end WireSchema
