import WireSchema.Proofs.CaseShapes
import WireSchema.Proofs.TargetsAgree

/-!
# The names that declarations get

A name that is claimed in a scope is a word, and was not taken before; so it is none of the names
that generated code has reserved for itself. With the shapes of the spellings this gives what the
names of a checked schema look like, in Go (`Go.capital_packageNames`, `Go.capital_fieldNames`) and
in JavaScript (`JavaScript.startsCapital_moduleNames`, `JavaScript.small_properties`).
-/

namespace WireSchema

open Naming

/-! ## Scopes -/

namespace Naming.Scope

/-- The identifiers that are taken in a scope. -/
def names (scope : Scope) : List String :=
  scope.taken.map Prod.fst

theorem mem_names_reserving {language : Language} {identifiers : List String} {w : String}
    (h : w ∈ identifiers) : w ∈ (reserving language identifiers).names := by
  -- what is in the scope stays there while more is reserved
  have hfold : ∀ (scope : Scope), w ∈ identifiers ∨ w ∈ scope.names →
      w ∈ (identifiers.foldl reserve scope).names := by
    clear h
    induction identifiers with
    | nil => exact fun scope h => h.resolve_left List.not_mem_nil
    | cons identifier identifiers ih =>
      intro scope h
      apply ih
      rcases h with h | h
      · rcases List.mem_cons.mp h with rfl | h
        · exact .inr List.mem_cons_self
        · exact .inl h
      · exact .inr (List.mem_cons_of_mem _ h)
  exact hfold _ (.inl h)

/-- A claim takes a name that was free. -/
theorem names_of_claim {scope scope' : Scope} {c : Claim} (h : scope.claim c = .ok scope') :
    c.identifier ∉ scope.names ∧ scope'.names = c.identifier :: scope.names := by
  rw [claim] at h
  split at h
  · cases h
  · split at h
    · cases h
    · rename_i hlookup
      cases h
      refine ⟨fun hmem => ?_, rfl⟩
      obtain ⟨p, hp, hfst⟩ := List.mem_map.mp hmem
      have hne := List.lookup_eq_none_iff.mp hlookup p hp
      rw [hfst] at hne
      exact absurd hne (by simp)

/-- Claims take names that were free, and give none back. -/
theorem notMem_of_claimAll {scope scope' : Scope} {claims : List Claim}
    (h : scope.claimAll claims = .ok scope') :
    (∀ c ∈ claims, c.identifier ∉ scope.names) ∧ scope.names ⊆ scope'.names := by
  induction claims generalizing scope with
  | nil =>
    cases h
    exact ⟨nofun, List.Subset.refl _⟩
  | cons c claims ih =>
    rw [claimAll] at h
    cases hc : scope.claim c with
    | error e => simp [hc] at h
    | ok next =>
      rw [hc] at h
      obtain ⟨hfresh, hnames⟩ := names_of_claim hc
      obtain ⟨hclaims, hsubset⟩ := ih h
      rw [hnames] at hclaims hsubset
      refine ⟨List.forall_mem_cons.mpr ⟨hfresh, fun d hd hmem => ?_⟩, ?_⟩
      · exact hclaims d hd (List.mem_cons_of_mem _ hmem)
      · exact fun w hw => hsubset (List.mem_cons_of_mem _ hw)

/-- So do groups, outside and inside. -/
theorem notMem_of_claimGroups {scope scope' : Scope} {groups : List Group}
    (h : scope.claimGroups groups = .ok scope') :
    ∀ g ∈ groups, g.head.identifier ∉ scope.names ∧
      ∀ c ∈ g.members, c.identifier ∉ g.inner.names := by
  induction groups generalizing scope with
  | nil => exact nofun
  | cons g groups ih =>
    rw [claimGroups] at h
    cases hhead : scope.claim g.head with
    | error e => simp [hhead] at h
    | ok next =>
      rw [hhead] at h
      cases hmembers : g.inner.claimAll g.members with
      | error e => simp [hmembers] at h
      | ok inner =>
        simp only [hmembers] at h
        obtain ⟨hfresh, hnames⟩ := names_of_claim hhead
        refine List.forall_mem_cons.mpr ⟨⟨hfresh, (notMem_of_claimAll hmembers).1⟩, ?_⟩
        intro g' hg'
        obtain ⟨hhead', hmembers'⟩ := ih h g' hg'
        rw [hnames] at hhead'
        exact ⟨fun hmem => hhead' (List.mem_cons_of_mem _ hmem), hmembers'⟩

end Naming.Scope

/-! ## Names in Go -/

namespace Go

/-- What a schema declares in the package: constants, enum types with their values, and structs. -/
def packageNames (s : Schema) : List String :=
  s.constants.map constantName
    ++ s.enums.flatMap (fun e => enumType e :: e.variants.map (variantName e))
    ++ s.messages.map structName

/-- What a schema declares in its structs. -/
def fieldNames (s : Schema) : List String :=
  s.messages.flatMap (·.fields.map fieldName)

theorem packageNames_eq (s : Schema) :
    packageNames s = (constantClaims s ++ s.enums.flatMap enumClaims).map Claim.identifier
      ++ (s.messages.map messageGroup).map (·.head.identifier) := by
  simp [packageNames, constantClaims, enumClaims, messageGroup, Function.comp_def,
    List.map_flatMap]

section

variable {s : Schema} {scope : Scope} (h : checkNames s = .ok scope)

include h

/-- The names of a package are words, and none is that of the version. -/
theorem packageNames_checked :
    ∀ p ∈ packageNames s, Text.isWord p = true ∧ p ≠ versionConstant := by
  obtain ⟨package, hpackage, hmessages⟩ := bind_eq_ok_iff.mp h
  obtain ⟨hclaims, hsubset⟩ := Scope.notMem_of_claimAll hpackage
  have hversion : versionConstant ∈ (Scope.reserving .go [versionConstant]).names :=
    Scope.mem_names_reserving List.mem_cons_self
  rw [packageNames_eq]
  intro p hp
  rcases List.mem_append.mp hp with hp | hp
  · obtain ⟨c, hc, rfl⟩ := List.mem_map.mp hp
    refine ⟨Scope.isWord_of_claimAll hpackage c hc, fun heq => hclaims c hc ?_⟩
    rw [heq]
    exact hversion
  · obtain ⟨g, hg, rfl⟩ := List.mem_map.mp hp
    refine ⟨(Scope.isWord_of_claimGroups hmessages g hg).1, fun heq => ?_⟩
    apply (Scope.notMem_of_claimGroups hmessages g hg).1
    rw [heq]
    exact hsubset hversion

/-- The names of fields are words, and none is that of a method. -/
theorem fieldNames_checked : ∀ f ∈ fieldNames s, Text.isWord f = true ∧ f ∉ messageMethods := by
  obtain ⟨package, -, hmessages⟩ := bind_eq_ok_iff.mp h
  intro name hname
  obtain ⟨m, hm, hname⟩ := List.mem_flatMap.mp hname
  obtain ⟨f, hf, rfl⟩ := List.mem_map.mp hname
  have hgroup : messageGroup m ∈ s.messages.map messageGroup := List.mem_map_of_mem hm
  have hmember : (⟨m.fieldDeclared f, fieldName f⟩ : Claim) ∈ (messageGroup m).members :=
    List.mem_map_of_mem hf
  have hfresh := (Scope.notMem_of_claimGroups hmessages _ hgroup).2 _ hmember
  rw [show (messageGroup m).inner = .reserving .go messageMethods from rfl] at hfresh
  have hword := (Scope.isWord_of_claimGroups hmessages _ hgroup).2 _ hmember
  exact ⟨hword, fun hmethod => hfresh (Scope.mem_names_reserving hmethod)⟩

variable (hs : s.Worded)

include hs

/-- **Every name in the package** starts with a capital and has no underscore. -/
theorem capital_packageNames : ∀ p ∈ packageNames s, Capital p := by
  intro p hp
  have hword := (packageNames_checked h p hp).1
  rcases List.mem_append.mp hp with hp' | hp'
  · rcases List.mem_append.mp hp' with hp' | hp'
    · obtain ⟨c, hc, rfl⟩ := List.mem_map.mp hp'
      exact capital_pascal (hs.constants c hc) hword
    · obtain ⟨e, he, hp'⟩ := List.mem_flatMap.mp hp'
      have hname := (hs.enums e he).1
      have htype : Capital (enumType e) := capital_pascal hname ((isWord_of_checkNames h).1 e he)
      rcases List.mem_cons.mp hp' with rfl | hp'
      · exact htype
      · -- the label follows the type, so it does not matter how it starts
        obtain ⟨v, hv, rfl⟩ := List.mem_map.mp hp'
        obtain ⟨⟨c, hc, hupper⟩, hunderscore⟩ := htype
        have hlabel := underscore_notMem_pascal ((hs.enums e he).2 v hv)
        rw [Capital, variantName, String.toList_append]
        refine ⟨⟨c, ?_, hupper⟩, fun hmem => (List.mem_append.mp hmem).elim hunderscore hlabel⟩
        rw [List.head?_append, Option.mem_def.mp hc]
        rfl
  · obtain ⟨m, hm, rfl⟩ := List.mem_map.mp hp'
    exact capital_pascal (hs.messages m hm).1 hword

/-- **Every field** starts with a capital and has no underscore. -/
theorem capital_fieldNames : ∀ f ∈ fieldNames s, Capital f := by
  intro name hname
  have hword := (fieldNames_checked h name hname).1
  obtain ⟨m, hm, hname⟩ := List.mem_flatMap.mp hname
  obtain ⟨f, hf, rfl⟩ := List.mem_map.mp hname
  exact capital_pascal ((hs.messages m hm).2 f hf) hword

end

end Go

/-! ## Names in JavaScript -/

namespace JavaScript

/-- What a schema declares in the module: constants, enum objects and classes. -/
def moduleNames (s : Schema) : List String :=
  s.constants.map constantName ++ s.enums.map enumObject ++ s.messages.map className

/-- What a schema declares in its classes. -/
def properties (s : Schema) : List String :=
  s.messages.flatMap (·.fields.map property)

theorem moduleNames_eq (s : Schema) :
    moduleNames s = (constantClaims s).map Claim.identifier
      ++ (s.enums.map enumGroup ++ s.messages.map messageGroup).map (·.head.identifier) := by
  simp [moduleNames, constantClaims, enumGroup, messageGroup, Function.comp_def]

section

variable {s : Schema} {scope : Scope} (h : checkNames s = .ok scope)

include h

/-- The names of a module are words, and none is reserved. -/
theorem moduleNames_checked : ∀ p ∈ moduleNames s, Text.isWord p = true ∧ p ∉ reservedNames := by
  obtain ⟨module, hmodule, hgroups⟩ := bind_eq_ok_iff.mp h
  obtain ⟨hclaims, hsubset⟩ := Scope.notMem_of_claimAll hmodule
  rw [moduleNames_eq]
  intro p hp
  rcases List.mem_append.mp hp with hp | hp
  · obtain ⟨c, hc, rfl⟩ := List.mem_map.mp hp
    exact ⟨Scope.isWord_of_claimAll hmodule c hc, fun hreserved =>
      hclaims c hc (Scope.mem_names_reserving hreserved)⟩
  · obtain ⟨g, hg, rfl⟩ := List.mem_map.mp hp
    exact ⟨(Scope.isWord_of_claimGroups hgroups g hg).1, fun hreserved =>
      (Scope.notMem_of_claimGroups hgroups g hg).1 (hsubset (Scope.mem_names_reserving hreserved))⟩

/-- The properties of classes are words, and none is a member of every class. -/
theorem properties_checked : ∀ p ∈ properties s, Text.isWord p = true ∧ p ∉ classMembers := by
  obtain ⟨module, -, hgroups⟩ := bind_eq_ok_iff.mp h
  intro name hname
  obtain ⟨m, hm, hname⟩ := List.mem_flatMap.mp hname
  obtain ⟨f, hf, rfl⟩ := List.mem_map.mp hname
  have hgroup : messageGroup m ∈ s.enums.map enumGroup ++ s.messages.map messageGroup :=
    List.mem_append_right _ (List.mem_map_of_mem hm)
  have hmember : (⟨m.fieldDeclared f, property f⟩ : Claim) ∈ (messageGroup m).members :=
    List.mem_map_of_mem hf
  have hfresh := (Scope.notMem_of_claimGroups hgroups _ hgroup).2 _ hmember
  rw [show (messageGroup m).inner = .reserving .javaScript classMembers from rfl] at hfresh
  have hword := (Scope.isWord_of_claimGroups hgroups _ hgroup).2 _ hmember
  exact ⟨hword, fun hclass => hfresh (Scope.mem_names_reserving hclass)⟩

variable (hs : s.Worded)

include hs

/-- **Every name in the module** starts with a capital or an underscore, and has no small letter or
no underscore. -/
theorem startsCapital_moduleNames : ∀ p ∈ moduleNames s,
    StartsCapital p ∧ ((∀ c ∈ p.toList, c.isLower = false) ∨ '_' ∉ p.toList) := by
  intro p hp
  have hword := (moduleNames_checked h p hp).1
  have hpascal : ∀ {name}, Text.isWord name = true → p = pascal name →
      StartsCapital p ∧ ((∀ c ∈ p.toList, c.isLower = false) ∨ '_' ∉ p.toList) := by
    rintro name hname rfl
    obtain ⟨⟨c, hc, hupper⟩, hunderscore⟩ := capital_pascal hname hword
    exact ⟨⟨c, hc, .inl hupper⟩, .inr hunderscore⟩
  rcases List.mem_append.mp hp with hp' | hp'
  · rcases List.mem_append.mp hp' with hp' | hp'
    · obtain ⟨c, hc, rfl⟩ := List.mem_map.mp hp'
      have hname := hs.constants c hc
      exact ⟨startsCapital_screaming hname hword, .inl (isLower_screaming hname)⟩
    · obtain ⟨e, he, rfl⟩ := List.mem_map.mp hp'
      exact hpascal (hs.enums e he).1 rfl
  · obtain ⟨m, hm, rfl⟩ := List.mem_map.mp hp'
    exact hpascal (hs.messages m hm).1 rfl

/-- **Every property** starts with a small letter and has no underscore. -/
theorem small_properties : ∀ p ∈ properties s, Small p := by
  intro name hname
  have hword := (properties_checked h name hname).1
  obtain ⟨m, hm, hname⟩ := List.mem_flatMap.mp hname
  obtain ⟨f, hf, rfl⟩ := List.mem_map.mp hname
  exact small_camel ((hs.messages m hm).2 f hf) hword

end

end JavaScript

end WireSchema
