import Mathlib.Data.List.Nodup
import WireSchema.Proofs.Validity

/-!
# A schema says what its declarations say

The schema that declarations become is a faithful image of them (`Schema.Faithful`): every list
keeps its order and its length, every item keeps its names, numbers and location, and every type
word is bound to the one thing that it names. The last part rests on the table of names: a word has
one entry (`Resolve.Resolves.type_eq_iff`), and the number in it is the place of the declaration in
the schema (`Resolve.Resolves.messageIndex?_iff`). Where a declaration stands does not matter: a
field may refer to a later message, or to its own.
-/

namespace WireSchema

namespace Schema

/-! ## Agreement of a schema with declarations -/

/-- The variant `v` says what was written as `w`. -/
structure VariantAgrees (w : Written.Variant) (v : Variant) : Prop where
  label : v.label = w.label
  value : v.value = w.value
  location : v.location = w.location

/-- The enum `e` says what was written as `w`. -/
structure EnumAgrees (w : Written.Enum) (e : Enum) : Prop where
  name : e.name = w.name
  variants : List.Forall₂ VariantAgrees w.variants e.variants
  location : e.location = w.location

/-- The field `f` of the schema `s` says what was written as `w`, and its type is the one thing in
`s` that the type word names. -/
structure FieldAgrees (s : Schema) (w : Written.Field) (f : Field) : Prop where
  name : f.name = w.name
  tag : (f.tag : Int) = w.tag
  modifier : Resolve.modifierWords f.modifier = w.modifiers.map (·.word)
  location : f.location = w.location
  typeName : s.typeName f.type = w.type
  primitive_iff : ∀ p : Primitive, f.type = .primitive p ↔ p.name = w.type
  message_iff : ∀ index, f.type = .message index ↔ s.messageIndex? w.type = some index
  enum_iff : ∀ index, f.type = .enum index ↔ s.enumIndex? w.type = some index

/-- The message `m` of the schema `s` says what was written as `w`. -/
structure MessageAgrees (s : Schema) (w : Written.Message) (m : Message) : Prop where
  name : m.name = w.name
  fields : List.Forall₂ s.FieldAgrees w.fields m.fields
  location : m.location = w.location

/-- The value that a literal has as a constant: an integer that stands for a floating-point number
is the nearest one, and every other literal stands for itself. -/
def constantValue (type : Primitive) : Literal → Literal
  | .integer value => if type.isFloat then .number (.ofInt value) else .integer value
  | literal => literal

/-- The constant `c` says what was written as `w`. -/
structure ConstantAgrees (w : Written.Constant) (c : Constant) : Prop where
  name : c.name = w.name
  type : c.type.name = w.type
  value : c.value = constantValue c.type w.value
  location : c.location = w.location

/-- The schema says what the declarations say: nothing is lost, added or moved. -/
structure Faithful (ds : List Written.Declaration) (s : Schema) : Prop where
  name : (∃ n, Written.protocolNamesIn ds = [n] ∧ s.name = n.name) ∨
    Written.protocolNamesIn ds = [] ∧ s.name = Schema.defaultName
  messages : List.Forall₂ s.MessageAgrees (Written.messagesIn ds) s.messages
  enums : List.Forall₂ EnumAgrees (Written.enumsIn ds) s.enums
  constants : List.Forall₂ ConstantAgrees (Written.constantsIn ds) s.constants

end Schema

namespace Resolve

/-! ## What a type word is bound to -/

/-- **A word names at most one type**: it has one entry in the table of names. -/
theorem Resolves.type_eq_iff {ds : List Written.Declaration} {s : Schema} (h : Resolves ds s)
    {word : String} {type : TypeRef} (hnames : Written.Names ds word type) (type' : TypeRef) :
    type = type' ↔ Written.Names ds word type' := by
  have hkept : declarationOutcomes ds = ds.map .ok :=
    declarationOutcomes_eq_map_ok_iff.mpr ⟨⟨h.free, rfl⟩, h.distinct⟩
  have htable := typeNamed_namesOf ds
  rw [hkept, kept_map_ok] at htable
  rw [← htable] at hnames ⊢
  rw [TypeNamed] at hnames ⊢
  rw [hnames, Option.some.injEq]

/-- An index that a search by name finds is the index of an item with that name. -/
theorem exists_of_findIdx?_name {α : Type} {name : α → String} {as : List α} {word : String}
    {index : Nat} (h : as.findIdx? (name · = word) = some index) :
    ∃ a, as[index]? = some a ∧ name a = word := by
  obtain ⟨hlt, hname, -⟩ := List.findIdx?_eq_some_iff_getElem.mp h
  exact ⟨as[index], List.getElem?_eq_getElem hlt, by simpa using hname⟩

/-- If names differ, a search by name finds the only item with that name. -/
theorem findIdx?_name_eq_some_iff {α : Type} {name : α → String} {as : List α}
    (hd : (as.map name).Nodup) {word : String} {index : Nat} :
    as.findIdx? (name · = word) = some index ↔ ∃ a, as[index]? = some a ∧ name a = word := by
  refine ⟨exists_of_findIdx?_name, ?_⟩
  rintro ⟨a, hget, rfl⟩
  obtain ⟨hlt, rfl⟩ := List.getElem?_eq_some_iff.mp hget
  refine List.findIdx?_eq_some_iff_getElem.mpr ⟨hlt, by simp, fun j hj => ?_⟩
  -- an earlier item with that name would have the same index
  intro hname
  have heq : (as.map name)[j]? = (as.map name)[index]? := by
    rw [List.getElem?_map, List.getElem?_map, List.getElem?_eq_getElem (by omega), hget]
    exact congrArg some (by simpa using hname)
  have hindex := (List.getElem?_inj (by rw [List.length_map]; omega) hd).mp heq
  omega

/-- A search by name finds the same index among items and among what they become. -/
theorem findIdx?_name_eq_of_forall₂ {α β : Type} {R : α → β → Prop} {name : α → String}
    {name' : β → String} (hR : ∀ a b, R a b → name' b = name a) {as : List α} {bs : List β}
    (h : List.Forall₂ R as bs) (word : String) :
    bs.findIdx? (name' · = word) = as.findIdx? (name · = word) := by
  induction h with
  | nil => rfl
  | cons hab _ ih => rw [List.findIdx?_cons, List.findIdx?_cons, hR _ _ hab, ih]

/-- The place of a message in the schema is the place of its declaration. -/
theorem Resolves.messageIndex?_iff {ds : List Written.Declaration} {s : Schema}
    (h : Resolves ds s) (word : String) (index : Nat) :
    s.messageIndex? word = some index ↔ Written.Names ds word (.message index) := by
  rw [Schema.messageIndex?, findIdx?_name_eq_of_forall₂ (fun _ _ hm => hm.name) h.messages word]
  exact findIdx?_name_eq_some_iff (Written.nodup_messageNames h.distinct)

/-- The place of an enum in the schema is the place of its declaration. -/
theorem Resolves.enumIndex?_iff {ds : List Written.Declaration} {s : Schema}
    (h : Resolves ds s) (word : String) (index : Nat) :
    s.enumIndex? word = some index ↔ Written.Names ds word (.enum index) := by
  rw [Schema.enumIndex?, findIdx?_name_eq_of_forall₂ (fun _ _ he => he.name) h.enums word]
  exact findIdx?_name_eq_some_iff (Written.nodup_enumNames h.distinct)

end Resolve

namespace Schema

/-! ## The image is faithful -/

theorem messageName_of_messageIndex? {s : Schema} {word : String} {index : Nat}
    (h : s.messageIndex? word = some index) : s.messageName index = word := by
  obtain ⟨m, hget, hname⟩ := Resolve.exists_of_findIdx?_name h
  rw [messageName, hget]
  exact hname

theorem enumName_of_enumIndex? {s : Schema} {word : String} {index : Nat}
    (h : s.enumIndex? word = some index) : s.enumName index = word := by
  obtain ⟨e, hget, hname⟩ := Resolve.exists_of_findIdx?_name h
  rw [enumName, hget]
  exact hname

/-- A type that is bound as the three tables say is spelled by its word. -/
theorem typeName_eq_of_iff {s : Schema} {word : String} {type : TypeRef}
    (hp : ∀ p : Primitive, type = .primitive p ↔ p.name = word)
    (hm : ∀ index, type = .message index ↔ s.messageIndex? word = some index)
    (he : ∀ index, type = .enum index ↔ s.enumIndex? word = some index) :
    s.typeName type = word := by
  cases type with
  | primitive p => exact (hp p).mp rfl
  | message index => exact messageName_of_messageIndex? ((hm index).mp rfl)
  | enum index => exact enumName_of_enumIndex? ((he index).mp rfl)

theorem fieldAgrees_of_image {ds : List Written.Declaration} {s : Schema}
    (h : Resolve.Resolves ds s) {w : Written.Field} {f : Field}
    (hf : Resolve.FieldImage (Written.Names ds) w f) : s.FieldAgrees w f := by
  have htype := h.type_eq_iff hf.type
  have hp : ∀ p : Primitive, f.type = .primitive p ↔ p.name = w.type := fun p =>
    htype (.primitive p)
  have hm : ∀ index, f.type = .message index ↔ s.messageIndex? w.type = some index := fun index =>
    (htype (.message index)).trans (h.messageIndex?_iff w.type index).symm
  have he : ∀ index, f.type = .enum index ↔ s.enumIndex? w.type = some index := fun index =>
    (htype (.enum index)).trans (h.enumIndex?_iff w.type index).symm
  exact {
    name := hf.name
    tag := (Resolve.tag?_eq_some_iff.mp hf.tag).1.symm
    modifier := hf.modifier.symm
    location := hf.location
    typeName := typeName_eq_of_iff hp hm he
    primitive_iff := hp
    message_iff := hm
    enum_iff := he }

theorem enumAgrees_of_image {w : Written.Enum} {e : Enum} (h : Resolve.EnumImage w e) :
    EnumAgrees w e := by
  refine ⟨h.name, h.variants.imp ?_, h.location⟩
  rintro w v ⟨-, rfl⟩
  exact ⟨rfl, rfl, rfl⟩

theorem eq_constantValue_of_constantValue? {type : Primitive} {literal value : Literal}
    (h : Resolve.constantValue? type literal = some value) :
    value = constantValue type literal := by
  cases literal with
  | bool b => cases type <;> simp_all [Resolve.constantValue?, constantValue]
  | string text => cases type <;> simp_all [Resolve.constantValue?, constantValue]
  | number x => cases type <;> simp_all [Resolve.constantValue?, constantValue]
  | integer i =>
    cases type <;>
      simp_all [Resolve.constantValue?, constantValue, Primitive.integerRange?, Primitive.isFloat]

theorem constantAgrees_of_image {w : Written.Constant} {c : Constant}
    (h : Resolve.ConstantImage w c) : ConstantAgrees w c :=
  ⟨h.name, h.type, eq_constantValue_of_constantValue? h.value, h.location⟩

theorem names_of_resolves {ds : List Written.Declaration} {s : Schema}
    (h : Resolve.Resolves ds s) :
    (∃ n, Written.protocolNamesIn ds = [n] ∧ s.name = n.name) ∨
      Written.protocolNamesIn ds = [] ∧ s.name = defaultName := by
  have hlen := (Resolve.nodup_map_declares?_iff.mp h.distinct).1
  have hname := h.name
  match hnames : Written.protocolNamesIn ds with
  | [] =>
    rw [hnames] at hname
    exact .inr ⟨rfl, hname⟩
  | [n] =>
    rw [hnames] at hname
    exact .inl ⟨n, rfl, hname⟩
  | _ :: _ :: _ =>
    rw [hnames] at hlen
    simp at hlen

/-- **A schema is a faithful image of the declarations it was made of**, in either mode. -/
theorem ofDeclarations_faithful {mode : ErrorMode} {ds : List Written.Declaration} {s : Schema}
    (h : Schema.ofDeclarations mode ds = .ok s) : Faithful ds s := by
  rw [ofDeclarations_eq_ok_iff] at h
  refine ⟨names_of_resolves h, h.messages.imp ?_, h.enums.imp fun _ _ => enumAgrees_of_image,
    h.constants.imp fun _ _ => constantAgrees_of_image⟩
  rintro w m ⟨hname, hlocation, hfields, -⟩
  exact ⟨hname, hfields.imp fun _ _ => fieldAgrees_of_image h, hlocation⟩

/-- Two messages that refer to each other, to themselves and to an enum, with the declarations of
other kinds in between. -/
def crossing : List Written.Declaration :=
  [.message ⟨"Node",
      [⟨"next", [⟨.optional, ⟨1, 22⟩⟩], "Node", ⟨1, 31⟩, 2, ⟨1, 38⟩, ⟨1, 16⟩⟩,
        ⟨"edge", [], "Edge", ⟨2, 7⟩, 1, ⟨2, 14⟩, ⟨2, 1⟩⟩], ⟨1, 9⟩⟩,
    .constant ⟨"Scale", "float64", .integer 3, ⟨3, 1⟩⟩,
    .enum ⟨"Kind", [⟨"far", 7, ⟨4, 13⟩⟩, ⟨"near", -1, ⟨4, 22⟩⟩], ⟨4, 6⟩⟩,
    .name ⟨"graph", ⟨5, 1⟩⟩,
    .message ⟨"Edge",
      [⟨"ends", [⟨.repeated, ⟨6, 22⟩⟩], "Node", ⟨6, 31⟩, 1, ⟨6, 38⟩, ⟨6, 16⟩⟩,
        ⟨"kind", [], "Kind", ⟨7, 7⟩, 5, ⟨7, 14⟩, ⟨7, 1⟩⟩], ⟨6, 9⟩⟩]

/-- The schema that `crossing` describes. -/
def crossingSchema : Schema :=
  { name := "graph"
    messages :=
      [⟨"Node", [⟨"next", .message 0, 2, .optional, ⟨1, 16⟩⟩,
          ⟨"edge", .message 1, 1, .single, ⟨2, 1⟩⟩], ⟨1, 9⟩⟩,
        ⟨"Edge", [⟨"ends", .message 0, 1, .repeated, ⟨6, 16⟩⟩,
          ⟨"kind", .enum 0, 5, .single, ⟨7, 1⟩⟩], ⟨6, 9⟩⟩]
    enums := [⟨"Kind", [⟨"far", 7, ⟨4, 13⟩⟩, ⟨"near", -1, ⟨4, 22⟩⟩], ⟨4, 6⟩⟩]
    constants := [⟨"Scale", .float64, .number (.ofInt 3), ⟨3, 1⟩⟩] }

theorem crossing_faithful :
    Schema.ofDeclarations .collect crossing = .ok crossingSchema ∧
      Faithful crossing crossingSchema := by
  have h : Schema.ofDeclarations .collect crossing = .ok crossingSchema := by decide +kernel
  exact ⟨h, ofDeclarations_faithful h⟩

end Schema

end WireSchema
