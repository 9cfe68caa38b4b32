import WireSchema.Proofs.Faithful
import WireSchema.Proofs.WireShape
import WireSchema.Wire.Plan

/-!
# The plan of an accepted schema

What the wire format rests on, for every schema that comes from a text:

* in the plan of a message the tags ascend, so each stands for one field, and they lie between one
  and `greatestTag`, so none is the terminator (`Schema.ofText_plan_ordered`);
* every field type refers to a message or an enum that the schema has (`Schema.ofText_closed`).
-/

namespace WireSchema

/-- The fields of a planned message are planned by the rules, and their tags ascend between the
bounds for tags. -/
structure Wire.Message.Ordered (m : Wire.Message) : Prop where
  planned : ∀ f ∈ m.fields, f = .ofField f.field
  ascending : m.fields.Pairwise fun f f' => f.tag < f'.tag
  bounds : ∀ f ∈ m.fields, 1 ≤ f.tag ∧ f.tag ≤ Resolve.greatestTag

theorem Wire.Message.Ordered.kind_eq {m : Wire.Message} (h : m.Ordered) {f : Wire.Field}
    (hf : f ∈ m.fields) : f.kind = .ofType f.field.type :=
  congrArg Wire.Field.kind (h.planned f hf)

/-- A tag stands for one field. -/
theorem Wire.Message.Ordered.eq_of_tag_eq {m : Wire.Message} (h : m.Ordered) {f f' : Wire.Field}
    (hf : f ∈ m.fields) (hf' : f' ∈ m.fields) (htag : f.tag = f'.tag) : f = f' := by
  have hnodup : (m.fields.map Wire.Field.tag).Nodup :=
    List.pairwise_map.mpr (h.ascending.imp fun hlt => Nat.ne_of_lt hlt)
  exact List.inj_on_of_nodup_map hnodup hf hf' htag

/-- Looking a tag of the plan up finds its field. -/
theorem Wire.Message.Ordered.find?_tag {m : Wire.Message} (h : m.Ordered) {f : Wire.Field}
    (hf : f ∈ m.fields) : m.fields.find? (·.tag = f.tag) = some f := by
  cases hfind : m.fields.find? (·.tag = f.tag) with
  | none => simpa using List.find?_eq_none.mp hfind f hf
  | some f' =>
    have htag : f'.tag = f.tag := by simpa using List.find?_some hfind
    rw [h.eq_of_tag_eq (List.mem_of_find?_eq_some hfind) hf htag]

namespace Schema

theorem mem_plan_iff {s : Schema} {m : Wire.Message} :
    m ∈ s.plan ↔ ∃ index message, s.messages[index]? = some message ∧
      m = .ofMessage index message := by
  rw [plan, List.mem_mapIdx]
  refine ⟨?_, ?_⟩
  · rintro ⟨index, hlt, rfl⟩
    exact ⟨index, _, List.getElem?_eq_getElem hlt, rfl⟩
  · rintro ⟨index, message, hget, rfl⟩
    obtain ⟨hlt, rfl⟩ := List.getElem?_eq_some_iff.mp hget
    exact ⟨index, hlt, rfl⟩

theorem mem_fieldsByTag_iff {m : Message} {f : Field} : f ∈ m.fieldsByTag ↔ f ∈ m.fields :=
  (List.mergeSort_perm _ _).mem_iff

theorem message_mem_of_mem_plan {s : Schema} {m : Wire.Message} (hm : m ∈ s.plan) :
    m.message ∈ s.messages := by
  obtain ⟨index, message, hget, rfl⟩ := mem_plan_iff.mp hm
  exact List.mem_of_getElem? hget

/-- The plan of a message has its fields only. -/
theorem field_mem_of_mem_plan {s : Schema} {m : Wire.Message} (hm : m ∈ s.plan) {f : Wire.Field}
    (hf : f ∈ m.fields) : f.field ∈ m.message.fields := by
  obtain ⟨index, message, -, rfl⟩ := mem_plan_iff.mp hm
  obtain ⟨field, hfield, rfl⟩ := List.mem_map.mp hf
  exact mem_fieldsByTag_iff.mp hfield

/-- Every message is planned, by its index. -/
theorem ofMessage_mem_plan {s : Schema} {index : Nat} {message : Message}
    (h : s.messages[index]? = some message) : .ofMessage index message ∈ s.plan :=
  mem_plan_iff.mpr ⟨index, message, h, rfl⟩

/-- The plan of a message has all its fields. -/
theorem perm_fields_ofMessage (index : Nat) (message : Message) :
    ((Wire.Message.ofMessage index message).fields.map Wire.Field.field).Perm message.fields := by
  have hfields : (Wire.Message.ofMessage index message).fields.map Wire.Field.field =
      message.fieldsByTag := by
    rw [Wire.Message.ofMessage, List.map_map]
    exact List.map_id _
  rw [hfields]
  exact List.mergeSort_perm _ _

/-- A tag of a resolved field is within the bounds. -/
theorem tag_bounds_of_resolves {ds : List Written.Declaration} {s : Schema}
    (hs : Resolve.Resolves ds s) {m : Message} (hm : m ∈ s.messages) {f : Field}
    (hf : f ∈ m.fields) : 1 ≤ f.tag ∧ f.tag ≤ Resolve.greatestTag := by
  obtain ⟨_, -, hm⟩ := Resolve.exists_of_mem_forall₂ hs.messages hm
  obtain ⟨_, -, hf⟩ := Resolve.exists_of_mem_forall₂ hm.fields hf
  exact (Resolve.tag?_eq_some_iff.mp hf.tag).2

theorem plan_ordered_of_resolves {ds : List Written.Declaration} {s : Schema}
    (hs : Resolve.Resolves ds s) {m : Wire.Message} (hm : m ∈ s.plan) : m.Ordered := by
  obtain ⟨index, message, hget, rfl⟩ := mem_plan_iff.mp hm
  have hmem : message ∈ s.messages := List.mem_of_getElem? hget
  have htags := (distinct_of_resolves hs).tags message hmem
  refine ⟨?_, ?_, ?_⟩
  · intro f hf
    obtain ⟨f, -, rfl⟩ := List.mem_map.mp hf
    rfl
  · exact List.pairwise_map.mpr (ascending_mergeSort (fun _ _ => decide_eq_true_iff) htags)
  · intro f hf
    obtain ⟨f, hmem', rfl⟩ := List.mem_map.mp hf
    exact tag_bounds_of_resolves hs hmem (mem_fieldsByTag_iff.mp hmem')

/-- **The tags of an accepted schema's plan ascend between their bounds.** -/
theorem ofText_plan_ordered {mode : ErrorMode} {text : String} {s : Schema}
    (h : Schema.ofText mode text = .ok s) : ∀ m ∈ s.plan, m.Ordered := by
  obtain ⟨ds, -, hs⟩ := exists_resolves_of_ofText h
  exact fun m hm => plan_ordered_of_resolves hs hm

theorem hasType_of_fieldAgrees {s : Schema} {w : Written.Field} {f : Field}
    (h : s.FieldAgrees w f) : s.hasType f.type = true := by
  cases htype : f.type with
  | primitive p => rfl
  | message index =>
    obtain ⟨m, hget, -⟩ := Resolve.exists_of_findIdx?_name ((h.message_iff index).mp htype)
    exact decide_eq_true (List.getElem?_eq_some_iff.mp hget).1
  | enum index =>
    obtain ⟨e, hget, -⟩ := Resolve.exists_of_findIdx?_name ((h.enum_iff index).mp htype)
    exact decide_eq_true (List.getElem?_eq_some_iff.mp hget).1

/-- **An accepted schema refers only to messages and enums that it has.** -/
theorem ofText_closed {mode : ErrorMode} {text : String} {s : Schema}
    (h : Schema.ofText mode text = .ok s) : s.closed = true := by
  obtain ⟨ds, -, hs⟩ := exists_resolves_of_ofText h
  rw [closed, List.all_eq_true]
  intro m hm
  rw [List.all_eq_true]
  intro f hf
  obtain ⟨_, -, hm⟩ := Resolve.exists_of_mem_forall₂ hs.messages hm
  obtain ⟨w, -, hf⟩ := Resolve.exists_of_mem_forall₂ hm.fields hf
  exact hasType_of_fieldAgrees (fieldAgrees_of_image hs hf)

/-- What a type refers to is there, under the name that the schema gives it. -/
def Refers (s : Schema) : TypeRef → Prop
  | .primitive _ => True
  | .message index => ∃ m, s.messages[index]? = some m ∧ s.messageName index = m.name
  | .enum index => ∃ e, s.enums[index]? = some e ∧ s.enumName index = e.name

theorem refers_of_hasType {s : Schema} {type : TypeRef} (h : s.hasType type = true) :
    s.Refers type := by
  cases type with
  | primitive p => trivial
  | message index =>
    have hget := List.getElem?_eq_getElem (of_decide_eq_true h)
    exact ⟨_, hget, by rw [messageName, hget]; rfl⟩
  | enum index =>
    have hget := List.getElem?_eq_getElem (of_decide_eq_true h)
    exact ⟨_, hget, by rw [enumName, hget]; rfl⟩

theorem ofText_refers {mode : ErrorMode} {text : String} {s : Schema}
    (h : Schema.ofText mode text = .ok s) : ∀ m ∈ s.messages, ∀ f ∈ m.fields, s.Refers f.type :=
  fun m hm f hf =>
    refers_of_hasType (List.all_eq_true.mp (List.all_eq_true.mp (ofText_closed h) m hm) f hf)

end Schema

end WireSchema
