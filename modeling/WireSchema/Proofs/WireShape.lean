import Mathlib.Data.Finset.Dedup
import Mathlib.Data.String.Basic
import WireSchema.Proofs.Accepted
import WireSchema.Schema.Canonical

/-!
# The shape of a protocol on the wire

The **wire shape** of a schema is what two programs must agree on to understand each other: the
protocol's name, the set of enums with the set of their variants, and the set of messages with the
set of their fields. A set has no order, and a type is given by name, so neither the order of
declarations nor the indices of the tables show. Locations and constants are left out.

A canonical form lists the same things in order. The **outline** of a schema is that list before it
is written as text. Where names, values and tags are distinct the order is strict, a strictly
ascending list is determined by its set (`eq_of_toFinset_eq`), and so two schemas have the same
outline exactly if they have the same wire shape (`Schema.outline_eq_iff`).
-/

namespace WireSchema

/-! ## Shapes -/

/-- A field's type, by name. -/
inductive TypeShape where
  | primitive (type : Primitive)
  | message (name : String)
  | enum (name : String)
  deriving DecidableEq, Repr

/-- What a variant is on the wire. -/
@[ext]
structure VariantShape where
  value : Int
  label : String
  deriving DecidableEq, Repr

/-- What a field is on the wire. -/
@[ext]
structure FieldShape where
  tag : Nat
  name : String
  modifier : Modifier
  type : TypeShape
  deriving DecidableEq, Repr

/-- What a schema is on the wire: enums and messages are sets of named sets. -/
@[ext]
structure WireShape where
  name : String
  enums : Finset (String × Finset VariantShape)
  messages : Finset (String × Finset FieldShape)

instance : DecidableEq WireShape :=
  fun _ _ => decidable_of_iff' _ WireShape.ext_iff

def Variant.shape (v : Variant) : VariantShape :=
  { value := v.value, label := v.label }

namespace Schema

def typeShape (s : Schema) : TypeRef → TypeShape
  | .primitive type => .primitive type
  | .message index => .message (s.messageName index)
  | .enum index => .enum (s.enumName index)

def fieldShape (s : Schema) (f : Field) : FieldShape :=
  { tag := f.tag, name := f.name, modifier := f.modifier, type := s.typeShape f.type }

/-- The wire shape of a schema. -/
def wireShape (s : Schema) : WireShape :=
  { name := s.name
    enums := (s.enums.map fun e => (e.name, (e.variants.map Variant.shape).toFinset)).toFinset
    messages := (s.messages.map fun m => (m.name, (m.fields.map s.fieldShape).toFinset)).toFinset }

end Schema

/-! ## Outlines -/

/-- A name with a list of entries. -/
abbrev Roster (ε : Type) : Type :=
  String × List ε

/-- What a canonical form lists. -/
structure Outline where
  name : String
  enums : List (Roster VariantShape)
  messages : List (Roster FieldShape)

/-- The roster without the order of its entries. -/
def Roster.shape {ε : Type} [DecidableEq ε] (r : Roster ε) : String × Finset ε :=
  (r.1, r.2.toFinset)

/-- The outline without its order. -/
def Outline.shape (o : Outline) : WireShape :=
  { name := o.name
    enums := (o.enums.map Roster.shape).toFinset
    messages := (o.messages.map Roster.shape).toFinset }

namespace Schema

/-- The outline of a schema: enums and messages by name, variants by value and fields by tag. -/
def outline (s : Schema) : Outline :=
  { name := s.name
    enums := s.enumsByName.map fun e => (e.name, e.variantsByValue.map Variant.shape)
    messages := s.messagesByName.map fun m => (m.name, m.fieldsByTag.map s.fieldShape) }

theorem toFinset_map_mergeSort {α β : Type} [DecidableEq β] (as : List α) (le : α → α → Bool)
    (f : α → β) : ((as.mergeSort le).map f).toFinset = (as.map f).toFinset :=
  List.toFinset_eq_of_perm _ _ ((List.mergeSort_perm as le).map f)

/-- Sorting does not change the shape. -/
theorem shape_outline (s : Schema) : s.outline.shape = s.wireShape := by
  simp only [Outline.shape, outline, wireShape, enumsByName, messagesByName, List.map_map]
  rw [toFinset_map_mergeSort, toFinset_map_mergeSort]
  simp only [Function.comp_def, Roster.shape, Enum.variantsByValue, Message.fieldsByTag,
    toFinset_map_mergeSort]

end Schema

/-! ## Ascending lists -/

section Ascending

variable {α β κ : Type} [LinearOrder κ]

/-- The keys of a list ascend. -/
def Ascending (key : α → κ) (as : List α) : Prop :=
  as.Pairwise fun a b => key a < key b

theorem Ascending.nodup {key : α → κ} {as : List α} (h : Ascending key as) : as.Nodup :=
  List.Pairwise.imp (fun hlt heq => absurd (congrArg key heq) hlt.ne) h

theorem ascending_map {key : β → κ} {f : α → β} {as : List α} :
    Ascending key (as.map f) ↔ Ascending (key ∘ f) as :=
  List.pairwise_map

/-- **A list whose keys ascend is determined by its set.** -/
theorem eq_of_toFinset_eq [DecidableEq α] {key : α → κ} {as bs : List α} (has : Ascending key as)
    (hbs : Ascending key bs) (h : as.toFinset = bs.toFinset) : as = bs := by
  have hperm := List.perm_of_nodup_nodup_toFinset_eq has.nodup hbs.nodup h
  exact hperm.eq_of_pairwise (fun a b _ _ hab hba => absurd hba hab.asymm) has hbs

/-- Sorting by distinct keys makes them ascend. -/
theorem ascending_mergeSort {key : α → κ} {le : α → α → Bool}
    (hle : ∀ a b, le a b = true ↔ key a ≤ key b) {as : List α} (h : (as.map key).Nodup) :
    Ascending key (as.mergeSort le) := by
  have hsorted : (as.mergeSort le).Pairwise fun a b => le a b = true := by
    refine List.pairwise_mergeSort (fun a b c hab hbc => ?_) (fun a b => ?_) as
    · rw [hle] at hab hbc ⊢
      exact hab.trans hbc
    · rw [Bool.or_eq_true, hle, hle]
      exact le_total _ _
  have hnodup : ((as.mergeSort le).map key).Nodup :=
    ((List.mergeSort_perm as le).map key).nodup_iff.mpr h
  exact hsorted.imp₂ (fun a b hab hne => lt_of_le_of_ne ((hle a b).mp hab) hne)
    (List.pairwise_map.mp hnodup)

theorem eq_of_map_eq_map {f : α → β} {as bs : List α}
    (hf : ∀ a ∈ as, ∀ b ∈ bs, f a = f b → a = b) (h : as.map f = bs.map f) : as = bs := by
  induction as generalizing bs with
  | nil => exact (List.map_eq_nil_iff.mp h.symm).symm
  | cons a as ih =>
    cases bs with
    | nil => cases h
    | cons b bs =>
      obtain ⟨hab, htail⟩ := List.cons.inj h
      rw [hf a List.mem_cons_self b List.mem_cons_self hab,
        ih (fun a ha b hb => hf a (.tail _ ha) b (.tail _ hb)) htail]

/-- Rosters in the order of their names, with entries in the order of their keys. -/
structure Roster.Ordered {ε : Type} (key : ε → κ) (rosters : List (Roster ε)) : Prop where
  names : Ascending Prod.fst rosters
  entries : ∀ r ∈ rosters, Ascending key r.2

theorem Roster.Ordered.eq_of_shape_eq {ε : Type} [DecidableEq ε] {key : ε → κ}
    {rosters rosters' : List (Roster ε)} (h : Ordered key rosters) (h' : Ordered key rosters')
    (heq : (rosters.map shape).toFinset = (rosters'.map shape).toFinset) : rosters = rosters' := by
  -- first the order of the rosters, which their names give, then that of the entries in each
  have hnames : Ascending Prod.fst (rosters.map shape) := ascending_map.mpr h.names
  have hnames' : Ascending Prod.fst (rosters'.map shape) := ascending_map.mpr h'.names
  have hmap : rosters.map shape = rosters'.map shape := eq_of_toFinset_eq hnames hnames' heq
  refine eq_of_map_eq_map (fun r hr r' hr' hshape => ?_) hmap
  obtain ⟨hname, hentries⟩ := Prod.mk.inj hshape
  exact Prod.ext hname (eq_of_toFinset_eq (h.entries r hr) (h'.entries r' hr') hentries)

end Ascending

/-- The rosters of an outline are in order. -/
structure Outline.Ordered (o : Outline) : Prop where
  enums : Roster.Ordered VariantShape.value o.enums
  messages : Roster.Ordered FieldShape.tag o.messages

theorem Outline.Ordered.eq_of_shape_eq {o o' : Outline} (h : o.Ordered) (h' : o'.Ordered)
    (heq : o.shape = o'.shape) : o = o' := by
  obtain ⟨name, enums, messages⟩ := o
  obtain ⟨name', enums', messages'⟩ := o'
  obtain ⟨hname, henums, hmessages⟩ := WireShape.mk.inj heq
  obtain rfl : name = name' := hname
  obtain rfl := h.enums.eq_of_shape_eq h'.enums henums
  obtain rfl := h.messages.eq_of_shape_eq h'.messages hmessages
  rfl

namespace Schema

theorem Distinct.ordered {s : Schema} (h : s.Distinct) : s.outline.Ordered := by
  refine ⟨⟨?_, ?_⟩, ⟨?_, ?_⟩⟩
  · exact ascending_map.mpr (ascending_mergeSort (fun a b => decide_eq_true_iff) h.enums)
  · intro r hr
    obtain ⟨e, he, rfl⟩ := List.mem_map.mp hr
    have he : e ∈ s.enums := (List.mergeSort_perm _ _).mem_iff.mp he
    exact ascending_map.mpr (ascending_mergeSort (fun a b => decide_eq_true_iff) (h.values e he))
  · exact ascending_map.mpr (ascending_mergeSort (fun a b => decide_eq_true_iff) h.messages)
  · intro r hr
    obtain ⟨m, hm, rfl⟩ := List.mem_map.mp hr
    have hm : m ∈ s.messages := (List.mergeSort_perm _ _).mem_iff.mp hm
    exact ascending_map.mpr (ascending_mergeSort (fun a b => decide_eq_true_iff) (h.tags m hm))

/-- **Outlines are as fine as wire shapes**, where names, values and tags are distinct. -/
theorem outline_eq_iff {s s' : Schema} (h : s.Distinct) (h' : s'.Distinct) :
    s.outline = s'.outline ↔ s.wireShape = s'.wireShape := by
  rw [← shape_outline, ← shape_outline]
  exact ⟨congrArg Outline.shape, h.ordered.eq_of_shape_eq h'.ordered⟩

end Schema

end WireSchema
