import WireSchema.Proofs.JsonText
import WireSchema.Schema.Dump

/-!
# The dump of a schema

Schemas that come from texts are the same if their dumps are (`Schema.ofText_dump_eq_iff`). Their
constants are finite, so that no number is dumped as `null`; a text of JSON belongs to one document;
and a schema can be seen in its document, also when the keys of every object are in order
(`Schema.sortKeys_toJson_injective`).
-/

namespace WireSchema

/-! ## Keys in order -/

namespace Json

/-- Sorting the keys of an array sorts those of its items. -/
theorem sortItems_eq (items : List Json) : sortItems items = items.map sortKeys := by
  induction items with
  | nil => rfl
  | cons item items ih => rw [sortItems, ih, List.map_cons]

theorem sortFields_eq (fields : List (String × Json)) :
    sortFields fields = fields.map fun field => (field.1, field.2.sortKeys) := by
  induction fields with
  | nil => rfl
  | cons field fields ih =>
    obtain ⟨key, value⟩ := field
    rw [sortFields, ih, List.map_cons]

/-- Sorting keys does not add depth. -/
theorem Within.sortKeys {n : Nat} {j : Json} (h : Within n j) : Within n j.sortKeys := by
  induction h with
  | null => exact .null
  | bool value => exact .bool value
  | integer value => exact .integer value
  | number hx => exact .number hx
  | string value => exact .string value
  | array _ ih =>
    rw [Json.sortKeys, sortItems_eq]
    exact .array (List.forall_mem_map.mpr ih)
  | object _ ih =>
    rw [Json.sortKeys, sortFields_eq]
    refine .object fun field hfield => ?_
    obtain ⟨field', hfield', rfl⟩ := List.mem_map.mp ((List.mergeSort_perm _ _).mem_iff.mp hfield)
    exact ih field' hfield'

/-- Fields with the same distinct keys are rearranged only if they are the same. -/
theorem eq_of_perm_of_keys {keys : List String} (hnodup : keys.Nodup)
    {fields fields' : List (String × Json)} (h : fields.Perm fields')
    (hkeys : fields.map Prod.fst = keys) (hkeys' : fields'.map Prod.fst = keys) :
    fields = fields' := by
  induction keys generalizing fields fields' with
  | nil => rw [List.map_eq_nil_iff.mp hkeys, List.map_eq_nil_iff.mp hkeys']
  | cons key keys ih =>
    obtain ⟨field, rest, rfl, rfl, hrest⟩ := List.map_eq_cons_iff.mp hkeys
    obtain ⟨field', rest', rfl, hkey, hrest'⟩ := List.map_eq_cons_iff.mp hkeys'
    obtain ⟨hfresh, hnodup⟩ := List.nodup_cons.mp hnodup
    obtain rfl : field = field' := by
      rcases List.mem_cons.mp (h.mem_iff.mp List.mem_cons_self) with heq | hmem
      · exact heq
      · exact absurd (hrest' ▸ List.mem_map_of_mem hmem) hfresh
    rw [ih hnodup h.cons_inv hrest hrest']

/-- Nothing but the order of its fields is lost of an object. -/
theorem sortKeys_object_inj {fields fields' : List (String × Json)} (keys : List String)
    (hkeys : fields.map Prod.fst = keys) (hkeys' : fields'.map Prod.fst = keys)
    (hnodup : keys.Nodup)
    (h : (Json.object fields).sortKeys = (Json.object fields').sortKeys) :
    sortFields fields = sortFields fields' := by
  have hmap : ∀ fields, (sortFields fields).map Prod.fst = fields.map Prod.fst := by
    intro fields
    rw [sortFields_eq, List.map_map]
    rfl
  have horder : orderFields (sortFields fields) = orderFields (sortFields fields') :=
    Json.object.inj h
  have hperm := (List.mergeSort_perm (sortFields fields) fun a b => a.1 ≤ b.1).symm
  rw [← orderFields, horder] at hperm
  exact eq_of_perm_of_keys hnodup (hperm.trans (List.mergeSort_perm _ _)) ((hmap _).trans hkeys)
    ((hmap _).trans hkeys')

/-- Lists can be told apart after sorting if their items can. -/
theorem sortItems_map_inj {α : Type} {toJson : α → Json}
    (h : Function.Injective fun a => (toJson a).sortKeys) {as bs : List α} :
    sortItems (as.map toJson) = sortItems (bs.map toJson) ↔ as = bs := by
  rw [sortItems_eq, sortItems_eq, List.map_map, List.map_map]
  exact (List.map_injective_iff.mpr h).eq_iff

end Json

/-! ## Documents of schemas -/

open Json (sortFields sortKeys_object_inj sortItems_map_inj)

/-- A location can be told from its object. -/
theorem Location.sortKeys_toJson_injective :
    Function.Injective fun location : Location => location.toJson.sortKeys := by
  rintro ⟨line, column⟩ ⟨line', column'⟩ h
  have hfields := sortKeys_object_inj ["line", "column"] rfl rfl (by decide) h
  simp only [sortFields, Json.sortKeys, List.cons.injEq, Prod.mk.injEq, Json.integer.injEq,
    Int.natCast_inj, true_and, and_true] at hfields
  obtain ⟨rfl, rfl⟩ := hfields
  rfl

/-- So can a type. -/
theorem TypeRef.sortKeys_toJson_injective :
    Function.Injective fun type : TypeRef => type.toJson.sortKeys := by
  intro type type' h
  cases type <;> cases type' <;>
    have hfields := sortKeys_object_inj ["kind", "ref"] rfl rfl (by decide) h <;>
    simp only [sortFields, Json.sortKeys, List.cons.injEq, Prod.mk.injEq, Json.string.injEq,
      Json.integer.injEq, Int.natCast_inj, true_and, and_true, String.reduceEq, false_and,
      and_false, reduceCtorEq] at hfields
  · rw [Primitive.name_injective hfields]
  · rw [hfields]
  · rw [hfields]

/-- A field can be told from its object, although its keys are sorted. -/
theorem Field.sortKeys_toJson_injective :
    Function.Injective fun f : Field => f.toJson.sortKeys := by
  rintro ⟨name, type, tag, modifier, location⟩ ⟨name', type', tag', modifier', location'⟩ h
  have hfields :=
    sortKeys_object_inj ["name", "ty", "tag", "modifier", "location"] rfl rfl (by decide) h
  simp only [sortFields, Json.sortKeys, List.cons.injEq, Prod.mk.injEq, Json.string.injEq,
    Json.integer.injEq, Int.natCast_inj, TypeRef.sortKeys_toJson_injective.eq_iff,
    Location.sortKeys_toJson_injective.eq_iff, true_and, and_true] at hfields
  obtain ⟨rfl, rfl, rfl, hmodifier, rfl⟩ := hfields
  rw [Modifier.name_injective hmodifier]

/-- So can a message. -/
theorem Message.sortKeys_toJson_injective :
    Function.Injective fun m : Message => m.toJson.sortKeys := by
  rintro ⟨name, fields, location⟩ ⟨name', fields', location'⟩ h
  have hfields := sortKeys_object_inj ["name", "fields", "location"] rfl rfl (by decide) h
  simp only [sortFields, Json.sortKeys, List.cons.injEq, Prod.mk.injEq, Json.string.injEq,
    Json.array.injEq, sortItems_map_inj Field.sortKeys_toJson_injective,
    Location.sortKeys_toJson_injective.eq_iff, true_and, and_true] at hfields
  obtain ⟨rfl, rfl, rfl⟩ := hfields
  rfl

theorem Variant.sortKeys_toJson_injective :
    Function.Injective fun v : Variant => v.toJson.sortKeys := by
  rintro ⟨label, value, location⟩ ⟨label', value', location'⟩ h
  have hfields := sortKeys_object_inj ["label", "value", "location"] rfl rfl (by decide) h
  simp only [sortFields, Json.sortKeys, List.cons.injEq, Prod.mk.injEq, Json.string.injEq,
    Json.integer.injEq, Location.sortKeys_toJson_injective.eq_iff, true_and, and_true] at hfields
  obtain ⟨rfl, rfl, rfl⟩ := hfields
  rfl

/-- So can an enum. -/
theorem Enum.sortKeys_toJson_injective :
    Function.Injective fun e : Enum => e.toJson.sortKeys := by
  rintro ⟨name, variants, location⟩ ⟨name', variants', location'⟩ h
  have hfields := sortKeys_object_inj ["name", "variants", "location"] rfl rfl (by decide) h
  simp only [sortFields, Json.sortKeys, List.cons.injEq, Prod.mk.injEq, Json.string.injEq,
    Json.array.injEq, sortItems_map_inj Variant.sortKeys_toJson_injective,
    Location.sortKeys_toJson_injective.eq_iff, true_and, and_true] at hfields
  obtain ⟨rfl, rfl, rfl⟩ := hfields
  rfl

/-- Values of different kinds are told apart. -/
theorem Literal.sortKeys_toJson_injective :
    Function.Injective fun value : Literal => value.toJson.sortKeys := by
  intro value value' h
  cases value <;> cases value' <;> cases h <;> rfl

/-- So can a constant, since its value tells of which kind it is. -/
theorem Constant.sortKeys_toJson_injective :
    Function.Injective fun c : Constant => c.toJson.sortKeys := by
  rintro ⟨name, type, value, location⟩ ⟨name', type', value', location'⟩ h
  have hfields := sortKeys_object_inj ["name", "ty", "value", "location"] rfl rfl (by decide) h
  simp only [sortFields, Json.sortKeys, List.cons.injEq, Prod.mk.injEq, Json.string.injEq,
    Literal.sortKeys_toJson_injective.eq_iff, Location.sortKeys_toJson_injective.eq_iff, true_and,
    and_true] at hfields
  obtain ⟨rfl, htype, rfl, rfl⟩ := hfields
  rw [Primitive.name_injective htype]

namespace Schema

/-- **A schema can be seen in its document.** -/
theorem sortKeys_toJson_injective : Function.Injective fun s : Schema => s.toJson.sortKeys := by
  rintro ⟨name, messages, enums, constants⟩ ⟨name', messages', enums', constants'⟩ h
  have hfields :=
    sortKeys_object_inj ["name", "messages", "enums", "constants"] rfl rfl (by decide) h
  simp only [sortFields, Json.sortKeys, List.cons.injEq, Prod.mk.injEq, Json.string.injEq,
    Json.array.injEq, sortItems_map_inj Message.sortKeys_toJson_injective,
    sortItems_map_inj Enum.sortKeys_toJson_injective,
    sortItems_map_inj Constant.sortKeys_toJson_injective, true_and, and_true] at hfields
  obtain ⟨rfl, rfl, rfl, rfl⟩ := hfields
  rfl

end Schema

/-! ## Depth -/

section Within

open Json (Within)

variable {n : Nat}

/-- An object is one deeper than its values. -/
theorem Json.within_object {fields : List (String × Json)}
    (h : List.Forall (fun field => Within n field.2) fields) : Within (n + 1) (.object fields) :=
  .object (List.forall_iff_forall_mem.mp h)

/-- An array is one deeper than its items. -/
theorem Json.within_array {α : Type} {toJson : α → Json} {items : List α}
    (h : ∀ item ∈ items, Within n (toJson item)) : Within (n + 1) (.array (items.map toJson)) :=
  .array (List.forall_mem_map.mpr h)

theorem Location.within_toJson (location : Location) : Within (n + 1) location.toJson :=
  Json.within_object ⟨.integer _, .integer _⟩

theorem TypeRef.within_toJson (type : TypeRef) : Within (n + 1) type.toJson := by
  cases type with
  | primitive p => exact Json.within_object ⟨.string _, .string _⟩
  | message index => exact Json.within_object ⟨.string _, .integer _⟩
  | enum index => exact Json.within_object ⟨.string _, .integer _⟩

theorem Field.within_toJson (f : Field) : Within (n + 2) f.toJson :=
  Json.within_object ⟨.string _, f.type.within_toJson, .integer _, .string _,
    f.location.within_toJson⟩

theorem Message.within_toJson (m : Message) : Within (n + 4) m.toJson :=
  Json.within_object
    ⟨.string _, Json.within_array fun f _ => f.within_toJson, m.location.within_toJson⟩

theorem Variant.within_toJson (v : Variant) : Within (n + 2) v.toJson :=
  Json.within_object ⟨.string _, .integer _, v.location.within_toJson⟩

theorem Enum.within_toJson (e : Enum) : Within (n + 4) e.toJson :=
  Json.within_object
    ⟨.string _, Json.within_array fun v _ => v.within_toJson, e.location.within_toJson⟩

/-- A finite constant can be written. -/
theorem Constant.within_toJson {c : Constant} (h : ∀ x, c.value = .number x → x.isFinite = true) :
    Within (n + 2) c.toJson := by
  refine Json.within_object ⟨.string _, .string _, ?_, c.location.within_toJson⟩
  cases hvalue : c.value with
  | integer value => exact .integer value
  | number x => exact .number (h x hvalue)
  | string value => exact .string value
  | bool value => exact .bool value

/-- **An accepted schema can be written**, since its constants are finite. -/
theorem Schema.within_toJson {mode : ErrorMode} {text : String} {s : Schema}
    (h : Schema.ofText mode text = .ok s) : Within (n + 6) s.toJson :=
  Json.within_object ⟨.string _, Json.within_array fun m _ => m.within_toJson,
    Json.within_array fun e _ => e.within_toJson,
    Json.within_array fun _ hc => Constant.within_toJson fun _ => ofText_isFinite h hc⟩

end Within

/-! ## Texts of schemas -/

namespace Schema

/-- The document of a schema and its version. -/
def versioned (s : Schema) : Json :=
  .object [("version", .string s.fingerprint.text), ("schema", s.toJson)]

/-- A schema can be told from its object, next to its version. -/
theorem sortKeys_versioned_injective :
    Function.Injective fun s : Schema => s.versioned.sortKeys := by
  intro s s' h
  have hfields := sortKeys_object_inj ["version", "schema"] rfl rfl (by decide) h
  simp only [sortFields, List.cons.injEq, Prod.mk.injEq, true_and, and_true] at hfields
  exact sortKeys_toJson_injective hfields.2

/-- **The dump of a schema loses nothing.** Schemas that come from texts are the same, with all
their indices, tags, modifiers, locations and constants, if they are dumped alike: without blanks,
together with the version, or indented from any depth on with the keys in order. -/
theorem ofText_dump_eq_iff {mode mode' : ErrorMode} {text text' : String} {s s' : Schema}
    (h : Schema.ofText mode text = .ok s) (h' : Schema.ofText mode' text' = .ok s') :
    (s.dump = s'.dump ↔ s = s') ∧ (s.dumpPretty = s'.dumpPretty ↔ s = s') ∧
      ∀ depth, s.toJson.sortKeys.prettyAt depth = s'.toJson.sortKeys.prettyAt depth ↔ s = s' := by
  have hs : Json.Within 6 s.toJson := within_toJson h
  have hs' : Json.Within 6 s'.toJson := within_toJson h'
  refine ⟨⟨fun heq => ?_, fun heq => by rw [heq]⟩, ⟨fun heq => ?_, fun heq => by rw [heq]⟩,
    fun depth => ⟨fun heq => ?_, fun heq => by rw [heq]⟩⟩
  · exact sortKeys_toJson_injective (congrArg Json.sortKeys (Json.compact_injective hs hs' heq))
  · have hversioned : Json.Within 7 s.versioned := Json.within_object ⟨.string _, hs⟩
    have hversioned' : Json.Within 7 s'.versioned := Json.within_object ⟨.string _, hs'⟩
    exact sortKeys_versioned_injective
      (Json.prettyAt_injective hversioned.sortKeys hversioned'.sortKeys heq)
  · exact sortKeys_toJson_injective (Json.prettyAt_injective hs.sortKeys hs'.sortKeys heq)

/-- A number, a string and an integer that look alike, and a message that refers to itself. -/
def mixedText : String :=
  "const f: float64 = 1; const s: string = \"1.0\"; const i: int8 = 1; message M \x7b m: repeated M = 3; \x7d"

/-- The same, one column further to the right. -/
def shiftedText : String :=
  " " ++ mixedText

/-- Texts that differ in locations only have different dumps. -/
theorem shiftedText_dump_ne :
    ∃ s s', Schema.ofText .collect mixedText = .ok s ∧
      Schema.ofText .failFast shiftedText = .ok s' ∧
      s.unlocated = s'.unlocated ∧ s.dump ≠ s'.dump ∧ s.dumpPretty ≠ s'.dumpPretty := by
  have hrun : ∃ s ∈ (Schema.ofText .collect mixedText).toOption,
      ∃ s' ∈ (Schema.ofText .failFast shiftedText).toOption,
        s ≠ s' ∧ s.unlocated = s'.unlocated := by decide +kernel
  obtain ⟨s, hs, s', hs', hne, hsame⟩ := hrun
  have h := eq_ok_of_mem_toOption hs
  have h' := eq_ok_of_mem_toOption hs'
  obtain ⟨hdump, hpretty, -⟩ := ofText_dump_eq_iff h h'
  exact ⟨s, s', h, h', hsame, mt hdump.mp hne, mt hpretty.mp hne⟩

end Schema

end WireSchema
