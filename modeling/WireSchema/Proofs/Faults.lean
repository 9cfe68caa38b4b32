import WireSchema.Proofs.Resolves

/-!
# What is reported of an item

A check that runs over items reports some of them. Said without the tables of the run, each
diagnostic is a **fault** of its item after the items before it (`DeclarationFault`, `VariantFault`,
`FieldFault`): it says what is wrong, and it is located at the item. In particular, the item that a
duplicate is blamed on is the earliest that took the name, the tag or the value.

This rests on what the tables record about the items before (`DeclarationState.Records`,
`VariantState.Records`, `FieldState.Records`), which every step keeps (`fault_of_judged`). All three
have a table that tells the first item with a key (`TellsFirst`).
-/

namespace WireSchema

/-- The location of a declaration. -/
def Written.Declaration.location : Written.Declaration → Location
  | .name n => n.location
  | .constant c => c.location
  | .enum e => e.location
  | .message m => m.location

/-- The locations that are recorded for a field. -/
def Written.Field.locations (f : Written.Field) : List Location :=
  f.location :: f.typeLocation :: f.tagLocation :: f.modifiers.map (·.location)

namespace Resolve

variable {σ α β κ : Type}

/-! ## Items and their diagnostics -/

/-- An item, and the diagnostic if it is reported. -/
structure Judged (α : Type) where
  item : α
  diagnostic? : Option Diagnostic

/-- The item, if it is kept. -/
def Judged.kept? (j : Judged α) : Option α :=
  if j.diagnostic?.isNone then some j.item else none

@[simp] theorem Judged.kept?_none (a : α) : Judged.kept? ⟨a, none⟩ = some a :=
  rfl

@[simp] theorem Judged.kept?_some (a : α) (d : Diagnostic) : Judged.kept? ⟨a, some d⟩ = none :=
  rfl

/-- Items with what happened to them. -/
def judged (as : List α) (rs : List (Outcome β)) : List (Judged α) :=
  List.zipWith (fun a r => ⟨a, r.diagnostic?⟩) as rs

section

variable {check : σ → α → σ × Outcome β}

/-- The first item is judged in the first state, and the others in the states behind it. -/
theorem judged_cons (st : σ) (a : α) (as : List α) :
    judged (a :: as) (outcomes check st (a :: as)) =
      ⟨a, (check st a).2.diagnostic?⟩ :: judged as (outcomes check (check st a).1 as) :=
  rfl

theorem map_item_judged (st : σ) (as : List α) :
    (judged as (outcomes check st as)).map Judged.item = as := by
  induction as generalizing st with
  | nil => rfl
  | cons a as ih => rw [judged_cons, List.map_cons, ih]

/-- The diagnostics of judged items are those that are reported. -/
theorem diagnostics_judged (st : σ) (as : List α) :
    (judged as (outcomes check st as)).filterMap Judged.diagnostic? =
      reported (outcomes check st as) := by
  induction as generalizing st with
  | nil => rfl
  | cons a as ih =>
    rw [judged_cons, outcomes, reported, List.filterMap_cons, List.filterMap_cons, ih]
    rfl

/-- **What is reported of an item is a fault**, if every step of a run keeps an invariant about the
items before it and reports faults only. -/
theorem fault_of_judged (Inv : List (Judged α) → σ → Prop)
    (Fault : List (Judged α) → α → Diagnostic → Prop)
    (hstep : ∀ before st a, Inv before st →
      Inv (before ++ [⟨a, (check st a).2.diagnostic?⟩]) (check st a).1 ∧
        ∀ d, (check st a).2 = .error d → Fault before a d)
    {st : σ} (hinv : Inv [] st) {as : List α} {before after : List (Judged α)} {a : α}
    {d : Diagnostic} (h : judged as (outcomes check st as) = before ++ ⟨a, some d⟩ :: after) :
    Fault before a d := by
  -- in the middle of a run, there are earlier items than those of the rest
  suffices hrun : ∀ earlier, Inv earlier st → Fault (earlier ++ before) a d from hrun [] hinv
  clear hinv
  intro earlier hinv
  induction as generalizing earlier st before with
  | nil => exact (List.append_ne_nil_of_right_ne_nil before (List.cons_ne_nil _ _) h.symm).elim
  | cons a' as ih =>
    obtain ⟨hnext, hfault⟩ := hstep earlier st a' hinv
    rw [judged_cons] at h
    cases before with
    | nil =>
      obtain ⟨hhead, -⟩ := List.cons.inj h
      obtain ⟨rfl, hd⟩ := Judged.mk.inj hhead
      rw [List.append_nil]
      refine hfault d ?_
      cases hr : (check st a').2 with
      | ok b => simp [hr, Outcome.diagnostic?] at hd
      | error d' =>
        rw [hr] at hd
        exact congrArg Except.error (Option.some.inj hd)
    | cons b before =>
      rw [List.cons_append] at h
      obtain ⟨rfl, htail⟩ := List.cons.inj h
      rw [List.append_cons]
      exact ih htail _ hnext

end

/-! ## Tables of the first items -/

section

variable {ν : Type} {Counts : κ → Prop} {first? : κ → Option ν} {Has : α → κ → Prop}
  [∀ a k, Decidable (Has a k)] {value : α → ν} {before : List α}

/-- For every key that counts, the table tells the value of the first item that has it. -/
def TellsFirst (Counts : κ → Prop) (first? : κ → Option ν) (Has : α → κ → Prop)
    [∀ a k, Decidable (Has a k)] (value : α → ν) (before : List α) : Prop :=
  ∀ k, Counts k → first? k = (before.find? (Has · k)).map value

/-- The earliest item with a key, when one more item has come. -/
theorem find?_concat (k : κ) (before : List α) (a : α) :
    (before ++ [a]).find? (Has · k) =
      (before.find? (Has · k)).or (if Has a k then some a else none) := by
  rw [List.find?_append, List.find?_singleton]
  simp

/-- A key in the table is that of an earlier item. -/
theorem TellsFirst.exists_first (h : TellsFirst Counts first? Has value before) {k : κ} {v : ν}
    (hk : Counts k) (hv : first? k = some v) :
    ∃ u, before.find? (Has · k) = some u ∧ value u = v := by
  rw [h k hk] at hv
  exact Option.map_eq_some_iff.mp hv

/-- One more item changes nothing, if its keys are in the table already. -/
theorem TellsFirst.keep (h : TellsFirst Counts first? Has value before) {a : α}
    (hold : ∀ k, Counts k → Has a k → (first? k).isSome) :
    TellsFirst Counts first? Has value (before ++ [a]) := by
  intro k hk
  rw [find?_concat]
  by_cases ha : Has a k
  · obtain ⟨v, hv⟩ := Option.isSome_iff_exists.mp (hold k hk ha)
    obtain ⟨u, hu, rfl⟩ := h.exists_first hk hv
    rw [hu, hv]
    rfl
  · rw [if_neg ha, Option.or_none, h k hk]

/-- One more item, whose key is entered in the table. -/
theorem TellsFirst.insert (h : TellsFirst Counts first? Has value before) {a : α} {k : κ}
    {next? : κ → Option ν} (hk : Counts k) (hnew : first? k = none)
    (hself : next? k = some (value a)) (hother : ∀ k', k' ≠ k → next? k' = first? k')
    (hkey : ∀ k', Counts k' → (Has a k' ↔ k' = k)) :
    TellsFirst Counts next? Has value (before ++ [a]) := by
  intro k' hk'
  rw [find?_concat]
  by_cases heq : k' = k
  · subst heq
    have hnone : before.find? (Has · k') = none := by
      rw [h k' hk] at hnew
      exact Option.map_eq_none_iff.mp hnew
    rw [hself, hnone, if_pos ((hkey k' hk).mpr rfl)]
    rfl
  · rw [hother k' heq, if_neg fun ha => heq ((hkey k' hk').mp ha), Option.or_none, h k' hk']

end

/-- The entries of a table after one more pair. -/
theorem lookup_cons_of_ne {ν : Type} [BEq κ] [LawfulBEq κ] {k k' : κ} (h : k' ≠ k) (v : ν)
    (table : List (κ × ν)) : ((k, v) :: table).lookup k' = table.lookup k' := by
  rw [List.lookup_cons, beq_false_of_ne h]

/-! ## Declarations -/

/-- Why a declaration is dropped, after those `before` it. -/
inductive DeclarationFault (before : List Written.Declaration) :
    Written.Declaration → Diagnostic → Prop where
  | protocolName {n n' : Written.ProtocolName} : .name n' ∈ before →
    DeclarationFault before (.name n) ⟨.semantic .duplicateProtocolName, n.location⟩
  | reserved {d : Written.Declaration} {name : String} : declares? d = some name →
    (Primitive.ofName? name).isSome →
    DeclarationFault before d ⟨.semantic (.reservedName name), d.location⟩
  | duplicate {d first : Written.Declaration} {name : String} : declares? d = some name →
    before.find? (declares? · = some name) = some first →
    DeclarationFault before d
      ⟨.semantic (.duplicateDeclaration name first.location), d.location⟩
  | value {c : Written.Constant} : (∀ constant, ¬ ConstantImage c constant) →
    DeclarationFault before (.constant c)
      ⟨.semantic (.invalidConstant c.name c.type (describeLiteral c.value)), c.location⟩

/-- A declaration is blamed where it stands. -/
theorem DeclarationFault.location_eq {before : List Written.Declaration} {d : Written.Declaration}
    {diagnostic : Diagnostic} (h : DeclarationFault before d diagnostic) :
    diagnostic.location = d.location := by
  cases h <;> rfl

/-- What the state of a run says about the declarations before: whether the protocol is named, and
who was the first to declare a name that is not reserved. -/
structure DeclarationState.Records (st : DeclarationState) (before : List Written.Declaration) :
    Prop where
  named : st.named = true → ∃ n, .name n ∈ before
  names : TellsFirst (Primitive.ofName? · = none)
    (fun name => (st.names.lookup name).map (·.location)) (declares? · = some ·) (·.location) before

theorem DeclarationState.records_nil : DeclarationState.Records {} [] :=
  ⟨nofun, fun _ _ => rfl⟩

/-- **Checking a name records it**, and blames an earlier one that is the same. -/
theorem checkName_records {st : DeclarationState} {before : List Written.Declaration}
    (h : st.Records before) {d : Written.Declaration} {name : String} {slot : Slot}
    (hd : declares? d = some name) :
    (checkName st name ⟨d.location, slot⟩ d).1.Records (before ++ [d]) ∧
      ∀ diagnostic, (checkName st name ⟨d.location, slot⟩ d).2 = .error diagnostic →
        DeclarationFault before d diagnostic := by
  have hnamed : st.named = true → ∃ n, .name n ∈ before ++ [d] := fun hst =>
    (h.named hst).imp fun _ hn => List.mem_append_left _ hn
  have hname : ∀ name', declares? d = some name' ↔ name' = name := fun name' => by
    rw [hd, Option.some.injEq, eq_comm]
  unfold checkName
  cases hp : Primitive.ofName? name with
  | some p =>
    refine ⟨⟨hnamed, h.names.keep fun name' hfree hdecl => ?_⟩, ?_⟩
    · -- only names that are not reserved count
      rw [(hname name').mp hdecl, hp] at hfree
      cases hfree
    · rintro _ ⟨⟩
      exact .reserved hd (by rw [hp]; rfl)
  | none =>
    cases hl : st.names.lookup name with
    | some first =>
      -- the table tells where the name was declared first
      have hfirst : (st.names.lookup name).map (·.location) = some first.location := by
        rw [hl]
        rfl
      refine ⟨⟨hnamed, h.names.keep fun name' _ hdecl => ?_⟩, ?_⟩
      · rw [(hname name').mp hdecl, hfirst]
        rfl
      · obtain ⟨d', hfind, hloc⟩ := h.names.exists_first hp hfirst
        rintro _ ⟨⟩
        rw [← hloc]
        exact .duplicate hd hfind
    | none =>
      refine ⟨⟨by simpa using hnamed, h.names.insert hp ?_ ?_ ?_ fun name' _ => hname name'⟩, ?_⟩
      · rw [hl]
        rfl
      · simp
      · intro name' hne
        simp [lookup_cons_of_ne hne]
      · rintro _ ⟨⟩

/-- **A step over declarations** keeps the record and reports faults only. -/
theorem checkDeclaration_records {st : DeclarationState} {before : List Written.Declaration}
    (h : st.Records before) (d : Written.Declaration) :
    (checkDeclaration st d).1.Records (before ++ [d]) ∧
      ∀ diagnostic, (checkDeclaration st d).2 = .error diagnostic →
        DeclarationFault before d diagnostic := by
  cases d with
  | constant c => exact checkName_records h (d := .constant c) rfl
  | enum e => exact checkName_records h (d := .enum e) rfl
  | message m => exact checkName_records h (d := .message m) rfl
  | name n =>
    have hnames := h.names.keep (a := .name n) fun name _ hdecl => by cases hdecl
    have hmem : ∃ n', Written.Declaration.name n' ∈ before ++ [.name n] :=
      ⟨n, List.mem_append_right _ List.mem_cons_self⟩
    unfold checkDeclaration
    cases hst : st.named with
    | true =>
      refine ⟨⟨fun _ => hmem, hnames⟩, ?_⟩
      obtain ⟨n', hn'⟩ := h.named hst
      rintro _ ⟨⟩
      exact .protocolName hn'
    | false =>
      refine ⟨⟨fun _ => hmem, hnames⟩, ?_⟩
      rintro _ ⟨⟩

/-- **Every declaration that is dropped has a fault**, in view of those before it. -/
theorem declarationFault_of_judged {ds : List Written.Declaration}
    {before after : List (Judged Written.Declaration)} {d : Written.Declaration}
    {diagnostic : Diagnostic}
    (h : judged ds (declarationOutcomes ds) = before ++ ⟨d, some diagnostic⟩ :: after) :
    DeclarationFault (before.map Judged.item) d diagnostic := by
  refine fault_of_judged (fun before st => st.Records (before.map Judged.item))
    (fun before => DeclarationFault (before.map Judged.item)) ?_ DeclarationState.records_nil h
  intro before st d hinv
  rw [List.map_append]
  exact checkDeclaration_records hinv d

/-! ## Variants -/

/-- Why a variant of an enum is dropped, after those `before` it. Only kept variants have values. -/
inductive VariantFault (enum : String) (before : List (Judged Written.Variant))
    (v : Written.Variant) : Diagnostic → Prop where
  | label {u : Judged Written.Variant} : u ∈ before → u.item.label = v.label →
    VariantFault enum before v ⟨.semantic (.duplicateEnumLabel enum v.label), v.location⟩
  | range : fitsEnum v.value = false →
    VariantFault enum before v ⟨.semantic (.enumValueOutOfRange enum v.label v.value), v.location⟩
  | value {first : Written.Variant} :
    (before.filterMap Judged.kept?).find? (·.value = v.value) = some first →
    VariantFault enum before v
      ⟨.semantic (.duplicateEnumValue enum v.label first.label v.value), v.location⟩

/-- A variant is blamed where it stands. -/
theorem VariantFault.location_eq {enum : String} {before : List (Judged Written.Variant)}
    {v : Written.Variant} {diagnostic : Diagnostic} (h : VariantFault enum before v diagnostic) :
    diagnostic.location = v.location := by
  cases h <;> rfl

/-- The table tells the label of the first variant with a value. -/
def TellsValues (table : List (Int × String)) (variants : List Written.Variant) : Prop :=
  TellsFirst (fun _ => True) (fun value => table.lookup value)
    (fun (v : Written.Variant) value => v.value = value) (·.label) variants

/-- What the state of a run says about the variants before: their labels, and the first that was
kept with a value. -/
structure VariantState.Records (st : VariantState) (before : List (Judged Written.Variant)) :
    Prop where
  labels : ∀ label ∈ st.labels, ∃ u ∈ before, u.item.label = label
  values : TellsValues st.values (before.filterMap Judged.kept?)

theorem VariantState.records_nil : VariantState.Records {} [] :=
  ⟨List.forall_mem_nil _, fun _ _ => rfl⟩

/-- The labels that are taken after one more variant, whatever happens to its value. -/
theorem VariantState.Records.labels_cons {st : VariantState}
    {before : List (Judged Written.Variant)} (h : st.Records before) (v : Written.Variant)
    (diagnostic? : Option Diagnostic) : ∀ label ∈ v.label :: st.labels,
      ∃ u ∈ before ++ [⟨v, diagnostic?⟩], u.item.label = label := by
  refine List.forall_mem_cons.mpr ⟨⟨_, List.mem_append_right _ List.mem_cons_self, rfl⟩, ?_⟩
  exact fun label hlabel => (h.labels label hlabel).imp fun _ hu =>
    ⟨List.mem_append_left _ hu.1, hu.2⟩

/-- A variant that is dropped has no value. -/
theorem VariantState.Records.values_dropped {st : VariantState}
    {before : List (Judged Written.Variant)} (h : st.Records before) (v : Written.Variant)
    (diagnostic : Diagnostic) :
    TellsValues st.values
      ((before ++ [(⟨v, some diagnostic⟩ : Judged _)]).filterMap Judged.kept?) := by
  rw [List.filterMap_append, List.filterMap_cons_none rfl, List.filterMap_nil, List.append_nil]
  exact h.values

/-- A variant that is kept enters its value. -/
theorem VariantState.Records.values_kept {st : VariantState}
    {before : List (Judged Written.Variant)} (h : st.Records before) {v : Written.Variant}
    (hnew : st.values.lookup v.value = none) :
    TellsValues ((v.value, v.label) :: st.values)
      ((before ++ [(⟨v, none⟩ : Judged _)]).filterMap Judged.kept?) := by
  rw [List.filterMap_append, List.filterMap_cons_some (Judged.kept?_none v), List.filterMap_nil]
  exact TellsFirst.insert h.values trivial hnew List.lookup_cons_self
    (fun value hne => lookup_cons_of_ne hne _ _) fun value _ => eq_comm

/-- **A step over variants** keeps the record and reports faults only. -/
theorem checkVariant_records {enum : String} {st : VariantState}
    {before : List (Judged Written.Variant)} (h : st.Records before) (v : Written.Variant) :
    (checkVariant enum st v).1.Records
        (before ++ [⟨v, (checkVariant enum st v).2.diagnostic?⟩]) ∧
      ∀ diagnostic, (checkVariant enum st v).2 = .error diagnostic →
        VariantFault enum before v diagnostic := by
  unfold checkVariant
  -- a label counts even if its variant is dropped, a value does not
  by_cases hl : v.label ∈ st.labels
  · rw [if_pos (by simpa using hl)]
    obtain ⟨u, hu, heq⟩ := h.labels v.label hl
    refine ⟨⟨fun label hlabel => h.labels_cons v _ label (List.mem_cons_of_mem _ hlabel),
      h.values_dropped v _⟩, ?_⟩
    rintro _ ⟨⟩
    exact .label hu heq
  · rw [if_neg (by simpa using hl)]
    cases hf : fitsEnum v.value with
    | false =>
      refine ⟨⟨h.labels_cons v _, h.values_dropped v _⟩, ?_⟩
      rintro _ ⟨⟩
      exact .range hf
    | true =>
      simp only [Bool.not_true, Bool.false_eq_true, if_false]
      cases hv : st.values.lookup v.value with
      | some other =>
        obtain ⟨u, hfind, rfl⟩ := TellsFirst.exists_first h.values trivial hv
        refine ⟨⟨h.labels_cons v _, h.values_dropped v _⟩, ?_⟩
        rintro _ ⟨⟩
        exact .value hfind
      | none =>
        refine ⟨⟨h.labels_cons v _, h.values_kept hv⟩, ?_⟩
        rintro _ ⟨⟩

/-- Every variant that is dropped has a fault, in view of how those before it were judged. -/
theorem variantFault_of_judged {e : Written.Enum} {before after : List (Judged Written.Variant)}
    {v : Written.Variant} {diagnostic : Diagnostic}
    (h : judged e.variants (variantOutcomes e) = before ++ ⟨v, some diagnostic⟩ :: after) :
    VariantFault e.name before v diagnostic :=
  fault_of_judged (fun before st => st.Records before) (VariantFault e.name)
    (fun _ _ v hinv => checkVariant_records hinv v) VariantState.records_nil h

/-! ## Fields -/

/-- Why a field of a message is dropped, after those `before` it. -/
inductive FieldFault (Names : String → TypeRef → Prop) (message : String)
    (before : List Written.Field)
    (f : Written.Field) : Diagnostic → Prop where
  | tag : tag? f.tag = none →
    FieldFault Names message before f
      ⟨.semantic (.invalidTag message f.name f.tag greatestTag), f.tagLocation⟩
  | duplicateTag {first : Written.Field} : before.find? (·.tag = f.tag) = some first →
    FieldFault Names message before f
      ⟨.semantic (.duplicateTag message f.name first.name f.tag), f.tagLocation⟩
  | name {u : Written.Field} : u ∈ before → u.name = f.name →
    FieldFault Names message before f ⟨.semantic (.duplicateField message f.name), f.location⟩
  | modifiers {first second : Written.Modifier} {others : List Written.Modifier} :
    f.modifiers = first :: second :: others →
    FieldFault Names message before f
      ⟨.semantic (.conflictingModifiers message f.name first.word.text second.word.text),
        second.location⟩
  | type : (∀ type, ¬ Names f.type type) →
    FieldFault Names message before f
      ⟨.semantic (.unresolvedType message f.name f.type), f.typeLocation⟩

/-- A field is blamed at one of its parts. -/
theorem FieldFault.location_mem {Names : String → TypeRef → Prop} {message : String}
    {before : List Written.Field} {f : Written.Field} {diagnostic : Diagnostic}
    (h : FieldFault Names message before f diagnostic) :
    diagnostic.location ∈ f.locations := by
  cases h with
  | modifiers hmods => simp [Written.Field.locations, hmods]
  | _ => simp [Written.Field.locations]

/-- A field whose modifiers or type are wrong has a fault. -/
theorem fieldFault_of_fieldOf {names : NameTable} {message : String} {before : List Written.Field}
    {f : Written.Field} {tag : Nat} {diagnostic : Diagnostic}
    (h : fieldOf names message f tag = .error diagnostic) :
    FieldFault (TypeNamed names) message before f diagnostic := by
  unfold fieldOf at h
  cases hmodifier : modifierOf message f with
  | error d =>
    rw [hmodifier] at h
    cases h
    unfold modifierOf at hmodifier
    split at hmodifier
    · cases hmodifier
    · split at hmodifier <;> cases hmodifier
    · rename_i first second others hmods
      cases hmodifier
      exact .modifiers hmods
  | ok modifier =>
    rw [hmodifier] at h
    cases htype : typeOf names message f with
    | error d =>
      rw [htype] at h
      cases h
      unfold typeOf at htype
      split at htype
      · cases htype
      · rename_i hnone
        cases htype
        exact .type fun type htype => by rw [htype] at hnone; cases hnone
    | ok type =>
      rw [htype] at h
      cases h

/-- The table tells the name of the first field with a tag that is one. -/
def TellsTags (table : List (Nat × String)) (fields : List Written.Field) : Prop :=
  TellsFirst (fun tag : Nat => tag? tag = some tag) (fun tag => table.lookup tag)
    (fun (f : Written.Field) tag => f.tag = (tag : Int)) (·.name) fields

/-- What the state of a run says about the fields before: names, and the first with a tag that is
one. -/
structure FieldState.Records (st : FieldState) (before : List Written.Field) : Prop where
  names : ∀ name ∈ st.names, ∃ u ∈ before, u.name = name
  tags : TellsTags st.tags before

theorem FieldState.records_nil : FieldState.Records {} [] :=
  ⟨List.forall_mem_nil _, fun _ _ => rfl⟩

/-- The names that are taken after one more field, whether it takes its own or not. -/
theorem FieldState.Records.names_cons {st : FieldState} {before : List Written.Field}
    (h : st.Records before) (f : Written.Field) :
    ∀ name ∈ f.name :: st.names, ∃ u ∈ before ++ [f], u.name = name := by
  refine List.forall_mem_cons.mpr ⟨⟨f, List.mem_append_right _ List.mem_cons_self, rfl⟩, ?_⟩
  exact fun name hname => (h.names name hname).imp fun _ hu => ⟨List.mem_append_left _ hu.1, hu.2⟩

/-- A field whose tag is free enters it. -/
theorem FieldState.Records.tags_cons {st : FieldState} {before : List Written.Field}
    (h : st.Records before) {f : Written.Field} {tag : Nat} (ht : tag? f.tag = some tag)
    (hnew : st.tags.lookup tag = none) :
    TellsTags ((tag, f.name) :: st.tags) (before ++ [f]) := by
  have htag : f.tag = tag := (tag?_eq_some_iff.mp ht).1
  refine TellsFirst.insert h.tags (htag ▸ ht) hnew List.lookup_cons_self
    (fun tag' hne => lookup_cons_of_ne hne _ _) fun tag' _ => ?_
  rw [htag, Int.natCast_inj, eq_comm]

/-- **A step over fields** keeps the record and reports faults only. -/
theorem checkField_records {names : NameTable} {message : String} {st : FieldState}
    {before : List Written.Field} (h : st.Records before) (f : Written.Field) :
    (checkField names message st f).1.Records (before ++ [f]) ∧
      ∀ diagnostic, (checkField names message st f).2 = .error diagnostic →
        FieldFault (TypeNamed names) message before f diagnostic := by
  have hnames : ∀ name ∈ st.names, ∃ u ∈ before ++ [f], u.name = name := fun name hname =>
    h.names_cons f name (List.mem_cons_of_mem _ hname)
  unfold checkField
  -- a tag within the bounds counts even if its field is dropped
  cases ht : tag? f.tag with
  | none =>
    refine ⟨⟨hnames, TellsFirst.keep h.tags fun tag htag heq => ?_⟩, ?_⟩
    · rw [heq, htag] at ht
      cases ht
    · rintro _ ⟨⟩
      exact .tag ht
  | some tag =>
    have htag : f.tag = tag := (tag?_eq_some_iff.mp ht).1
    cases hl : st.tags.lookup tag with
    | some other =>
      simp only [hl]
      refine ⟨⟨hnames, TellsFirst.keep h.tags fun tag' _ heq => ?_⟩, ?_⟩
      · obtain rfl : tag = tag' := Int.natCast_inj.mp (htag.symm.trans heq)
        exact Option.isSome_of_eq_some hl
      · obtain ⟨u, hfind, rfl⟩ := TellsFirst.exists_first h.tags (htag ▸ ht) hl
        rintro _ ⟨⟩
        exact .duplicateTag (htag ▸ hfind)
    | none =>
      simp only [hl]
      by_cases hn : f.name ∈ st.names
      · rw [if_pos (by simpa using hn)]
        refine ⟨⟨hnames, h.tags_cons ht hl⟩, ?_⟩
        obtain ⟨u, hu, heq⟩ := h.names f.name hn
        rintro _ ⟨⟩
        exact .name hu heq
      · rw [if_neg (by simpa using hn)]
        exact ⟨⟨h.names_cons f, h.tags_cons ht hl⟩, fun _ hd => fieldFault_of_fieldOf hd⟩

/-- Every field that is dropped has a fault, in view of those before it. -/
theorem fieldFault_of_judged {names : NameTable} {m : Written.Message}
    {before after : List (Judged Written.Field)} {f : Written.Field} {diagnostic : Diagnostic}
    (h : judged m.fields (fieldOutcomes names m) = before ++ ⟨f, some diagnostic⟩ :: after) :
    FieldFault (TypeNamed names) m.name (before.map Judged.item) f diagnostic := by
  refine fault_of_judged (fun before st => st.Records (before.map Judged.item))
    (fun before => FieldFault (TypeNamed names) m.name (before.map Judged.item)) ?_
    FieldState.records_nil h
  intro before st f hinv
  rw [List.map_append]
  exact checkField_records hinv f

end Resolve

end WireSchema
