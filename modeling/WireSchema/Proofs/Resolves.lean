import WireSchema.Proofs.NameTable

/-!
# Resolution as a relation

`Resolves ds s` says, without running any check, that the declarations `ds` may stand together and
that `s` is what they become. It has one clause for every table that a run of the checks builds:

* names — no two declarations claim the same name, and none claims the word for a primitive type;
* enums, messages, constants — each is fine in itself (`EnumImage`, `MessageImage`,
  `ConstantImage`), and the schema lists what they become in the order of the text; a type word
  names a type by the place of a declaration (`Written.Names`).

`Schema.ofDeclarations_eq_ok_iff` is the one place where the checks are opened up: in either mode a
run returns `s` exactly when `Resolves ds s`.
-/

namespace WireSchema

namespace Resolve

variable {α β : Type}

/-! ## Items and what they become -/

/-- An enum whose variants may stand together, and what it becomes. -/
structure EnumImage (w : Written.Enum) (e : Enum) : Prop where
  name : e.name = w.name
  location : e.location = w.location
  variants : List.Forall₂ VariantImage w.variants e.variants
  distinct : w.variants.Pairwise fun v v' => ∀ k ∈ variantKeys v', k ∉ variantKeys v

/-- A message whose fields may stand together, and what it becomes. -/
structure MessageImage (Names : String → TypeRef → Prop) (w : Written.Message) (m : Message) :
    Prop where
  name : m.name = w.name
  location : m.location = w.location
  fields : List.Forall₂ (FieldImage Names) w.fields m.fields
  distinct : w.fields.Pairwise fun f f' => ∀ k ∈ fieldKeys f', k ∉ fieldKeys f

/-- A constant whose literal fits its type, and what it becomes. -/
structure ConstantImage (w : Written.Constant) (c : Constant) : Prop where
  name : c.name = w.name
  type : c.type.name = w.type
  value : constantValue? c.type w.value = some c.value
  location : c.location = w.location

/-- Declarations that may stand together, and the schema they become. -/
structure Resolves (ds : List Written.Declaration) (s : Schema) : Prop where
  distinct : (ds.map declares?).Nodup
  free : ∀ d ∈ ds, ∀ name, declares? d = some name → Primitive.ofName? name = none
  name : s.name = ((Written.protocolNamesIn ds).head?.map (·.name)).getD Schema.defaultName
  enums : List.Forall₂ EnumImage (Written.enumsIn ds) s.enums
  messages : List.Forall₂ (MessageImage (Written.Names ds)) (Written.messagesIn ds) s.messages
  constants : List.Forall₂ ConstantImage (Written.constantsIn ds) s.constants

/-! ## The checks decide the relation -/

/-- Nothing is reported and `bs` is kept exactly when the outcomes are those of `bs`. -/
theorem reported_eq_nil_and_kept_eq_iff {rs : List (Outcome β)} {bs : List β} :
    reported rs = [] ∧ kept rs = bs ↔ rs = bs.map .ok := by
  rw [reported_eq_nil_iff]
  refine ⟨?_, ?_⟩
  · rintro ⟨⟨bs', rfl⟩, h⟩
    rw [kept_map_ok] at h
    rw [h]
  · rintro rfl
    exact ⟨⟨bs, rfl⟩, kept_map_ok bs⟩

/-- Items that all pass a test, each with its value. -/
theorem forall₂_and_eq_iff {P : α → Prop} {f : α → β} {as : List α} {bs : List β} :
    List.Forall₂ (fun a b => P a ∧ f a = b) as bs ↔ (∀ a ∈ as, P a) ∧ as.map f = bs := by
  rw [List.forall₂_and_left, ← List.forall₂_map_left_iff (R := fun b b' => b = b'),
    List.forall₂_eq_eq_eq]

theorem enumImage_iff {w : Written.Enum} {e : Enum} :
    EnumImage w e ↔ reported (variantOutcomes w) = [] ∧ resolveEnum w = e := by
  have hrun := (checkVariant_keyed w.name).outcomes_eq_map_ok_iff_of_fresh
    (rfl : VariantState.taken {} = []) w.variants e.variants
  obtain ⟨name, variants, location⟩ := e
  rw [resolveEnum, Enum.mk.injEq]
  refine ⟨?_, ?_⟩
  · rintro ⟨rfl, rfl, hv, hd⟩
    obtain ⟨hr, hk⟩ := reported_eq_nil_and_kept_eq_iff.mpr (hrun.mpr ⟨hv, hd⟩)
    exact ⟨hr, rfl, hk, rfl⟩
  · rintro ⟨hr, rfl, hk, rfl⟩
    obtain ⟨hv, hd⟩ := hrun.mp (reported_eq_nil_and_kept_eq_iff.mp ⟨hr, hk⟩)
    exact ⟨rfl, rfl, hv, hd⟩

theorem messageImage_iff {names : NameTable} {w : Written.Message} {m : Message} :
    MessageImage (TypeNamed names) w m ↔
      reported (fieldOutcomes names w) = [] ∧ resolveMessage names w = m := by
  have hrun := (checkField_keyed names w.name).outcomes_eq_map_ok_iff_of_fresh
    (rfl : FieldState.taken {} = []) w.fields m.fields
  obtain ⟨name, fields, location⟩ := m
  rw [resolveMessage, Message.mk.injEq]
  refine ⟨?_, ?_⟩
  · rintro ⟨rfl, rfl, hf, hd⟩
    obtain ⟨hr, hk⟩ := reported_eq_nil_and_kept_eq_iff.mpr (hrun.mpr ⟨hf, hd⟩)
    exact ⟨hr, rfl, hk, rfl⟩
  · rintro ⟨hr, rfl, hk, rfl⟩
    obtain ⟨hf, hd⟩ := hrun.mp (reported_eq_nil_and_kept_eq_iff.mp ⟨hr, hk⟩)
    exact ⟨rfl, rfl, hf, hd⟩

theorem constantImage_iff {w : Written.Constant} {c : Constant} :
    ConstantImage w c ↔ constantOutcome w = .ok c := by
  obtain ⟨name, type, value, location⟩ := c
  unfold constantOutcome
  refine ⟨?_, ?_⟩
  · rintro ⟨rfl, ht, hv, rfl⟩
    rw [Primitive.ofName?_eq_some_iff.mpr ht]
    simp [hv]
  · intro h
    cases ht : Primitive.ofName? w.type with
    | none => simp [ht, report] at h
    | some p =>
      cases hv : constantValue? p w.value with
      | none => simp [ht, hv, report] at h
      | some v =>
        simp [ht, hv] at h
        obtain ⟨rfl, rfl, rfl, rfl⟩ := h
        exact ⟨rfl, Primitive.ofName?_eq_some_iff.mp ht, hv, rfl⟩

theorem constantOutcomes_iff {ws : List Written.Constant} {cs : List Constant} :
    reported (ws.map constantOutcome) = [] ∧ kept (ws.map constantOutcome) = cs ↔
      List.Forall₂ ConstantImage ws cs := by
  rw [reported_eq_nil_and_kept_eq_iff, ← List.forall₂_eq_eq_eq, List.forall₂_map_left_iff,
    List.forall₂_map_right_iff]
  exact ⟨fun h => h.imp fun _ _ => constantImage_iff.mpr,
    fun h => h.imp fun _ _ => constantImage_iff.mp⟩

/-- No two declarations claim the same name, said by pairs and said by lists. -/
theorem pairwise_declares?_iff {ds : List Written.Declaration} :
    (ds.Pairwise fun d d' => ∀ k ∈ [declares? d'], k ∉ [declares? d]) ↔
      (ds.map declares?).Nodup := by
  rw [List.Nodup, List.pairwise_map]
  refine ⟨fun h => h.imp ?_, fun h => h.imp ?_⟩ <;> simp [eq_comm]

/-- Every declaration is kept exactly when no two of them claim the same name and no claimed name
is reserved; a kept declaration stays as it is. -/
theorem declarationOutcomes_eq_map_ok_iff {ds ds' : List Written.Declaration} :
    declarationOutcomes ds = ds'.map .ok ↔
      ((∀ d ∈ ds, ∀ name, declares? d = some name → Primitive.ofName? name = none) ∧ ds = ds') ∧
        (ds.map declares?).Nodup := by
  rw [declarationOutcomes, checkDeclaration_keyed.outcomes_eq_map_ok_iff_of_fresh rfl,
    pairwise_declares?_iff, List.forall₂_and_left, List.forall₂_eq_eq_eq]

theorem resolves_iff {ds : List Written.Declaration} {s : Schema} :
    Resolves ds s ↔ diagnosticsOf ds = [] ∧ schemaOf ds = s := by
  obtain ⟨name, messages, enums, constants⟩ := s
  rw [diagnosticsOf, schemaOf]
  simp only [List.append_eq_nil_iff, List.flatMap_eq_nil_iff, Schema.mk.injEq]
  refine ⟨?_, ?_⟩
  · rintro ⟨hd, hf, hn, he, hm, hc⟩
    have hkept := declarationOutcomes_eq_map_ok_iff.mpr ⟨⟨hf, rfl⟩, hd⟩
    obtain ⟨hr, hk⟩ := reported_eq_nil_and_kept_eq_iff.mpr hkept
    rw [← hk, ← typeNamed_namesOf ds, hk] at hm
    obtain ⟨her, hes⟩ := forall₂_and_eq_iff.mp (he.imp fun _ _ => enumImage_iff.mp)
    obtain ⟨hmr, hms⟩ := forall₂_and_eq_iff.mp (hm.imp fun _ _ => messageImage_iff.mp)
    obtain ⟨hcr, hcs⟩ := constantOutcomes_iff.mpr hc
    rw [declaredOf, hk]
    exact ⟨⟨⟨⟨hr, her⟩, hmr⟩, hcr⟩, hn.symm, hms, hes, hcs⟩
  · rintro ⟨⟨⟨⟨hr, her⟩, hmr⟩, hcr⟩, hn, hms, hes, hcs⟩
    obtain ⟨⟨hf, hds⟩, hd⟩ :=
      declarationOutcomes_eq_map_ok_iff.mp (reported_eq_nil_and_kept_eq_iff.mp ⟨hr, rfl⟩)
    -- the items were resolved against what was kept, and everything was kept
    rw [declaredOf, ← hds] at her hmr hcr hn hms hes hcs
    have hm := (forall₂_and_eq_iff.mpr ⟨hmr, hms⟩).imp fun _ _ => messageImage_iff.mpr
    rw [typeNamed_namesOf ds, ← hds] at hm
    exact ⟨hd, hf, hn.symm,
      (forall₂_and_eq_iff.mpr ⟨her, hes⟩).imp fun _ _ => enumImage_iff.mpr, hm,
      constantOutcomes_iff.mp ⟨hcr, hcs⟩⟩

end Resolve

/-- **The checks decide the relation**, in either mode. -/
theorem Schema.ofDeclarations_eq_ok_iff {mode : ErrorMode} {ds : List Written.Declaration}
    {s : Schema} : Schema.ofDeclarations mode ds = .ok s ↔ Resolve.Resolves ds s := by
  rw [Resolve.resolves_iff, Schema.ofDeclarations]
  cases Resolve.diagnosticsOf ds <;> simp [Report.guard, Except.mapError]

end WireSchema
