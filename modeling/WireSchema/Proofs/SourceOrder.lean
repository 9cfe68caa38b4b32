import Mathlib.Data.List.Perm.Basic
import WireSchema.Proofs.CanonicalText
import WireSchema.Proofs.Faithful
import WireSchema.Schema.Fingerprint
import WireSchema.Wire.Plan

/-!
# The order of the source

A schema text may list its declarations in any order, and so the fields of a message and the
variants of an enum. **Rearranging** them (`Written.Rearranged`) renumbers the tables of the schema
and changes which of two clashing items is met first, but neither whether the declarations are
accepted nor anything on the wire.

The reason is that the wire shape can be read off the declarations without any table
(`Written.wireShape`): a type word stands for the declaration of that name. A rearrangement keeps
that shape, and the shape determines both the canonical form and the plan of every message by name
(`Schema.planOf?`).
-/

namespace WireSchema

/-! ## Rearranging declarations -/

namespace Written

/-- The same declaration, with its variants or fields in any order. -/
inductive Declaration.Rearranged : Declaration → Declaration → Prop where
  | name (n : ProtocolName) : Rearranged (.name n) (.name n)
  | constant (c : Constant) : Rearranged (.constant c) (.constant c)
  | enum {name : String} {vs vs' : List Variant} {location : Location} (h : vs.Perm vs') :
    Rearranged (.enum ⟨name, vs, location⟩) (.enum ⟨name, vs', location⟩)
  | message {name : String} {fs fs' : List Field} {location : Location} (h : fs.Perm fs') :
    Rearranged (.message ⟨name, fs, location⟩) (.message ⟨name, fs', location⟩)

/-- The same declarations in any order, with the variants and fields of each in any order. -/
def Rearranged (ds ds' : List Declaration) : Prop :=
  ∃ mid, ds.Perm mid ∧ List.Forall₂ Declaration.Rearranged mid ds'

theorem Declaration.Rearranged.symm {d d' : Declaration} (h : d.Rearranged d') :
    d'.Rearranged d := by
  cases h with
  | name n => exact .name n
  | constant c => exact .constant c
  | enum h => exact .enum h.symm
  | message h => exact .message h.symm

theorem Rearranged.symm {ds ds' : List Declaration} (h : Rearranged ds ds') :
    Rearranged ds' ds := by
  obtain ⟨mid, hperm, hall⟩ := h
  have hback : List.Forall₂ Declaration.Rearranged ds' mid :=
    (hall.imp fun _ _ h => h.symm).flip
  have hcomp : Relation.Comp (List.Forall₂ Declaration.Rearranged) List.Perm ds' ds :=
    ⟨mid, hback, hperm.symm⟩
  rw [List.forall₂_comp_perm_eq_perm_comp_forall₂] at hcomp
  exact hcomp

/-- What is the same for a declaration and for its rearrangements, taken over all of them. -/
theorem Rearranged.map_perm {β : Type} {ds ds' : List Declaration} (h : Rearranged ds ds')
    {f : Declaration → β} (hf : ∀ d d', d.Rearranged d' → f d' = f d) :
    (ds.map f).Perm (ds'.map f) := by
  obtain ⟨mid, hperm, hall⟩ := h
  rw [Resolve.map_eq_of_forall₂ hf hall]
  exact hperm.map f

/-- The same for a selection. -/
theorem Rearranged.filterMap_perm {β : Type} {ds ds' : List Declaration} (h : Rearranged ds ds')
    {f : Declaration → Option β} (hf : ∀ d d', d.Rearranged d' → f d' = f d) :
    (ds.filterMap f).Perm (ds'.filterMap f) := by
  have hmap := (h.map_perm hf).filterMap id
  rwa [List.filterMap_map, List.filterMap_map] at hmap

/-- Every declaration has a counterpart in the other order. -/
theorem Rearranged.exists_of_mem {ds ds' : List Declaration} (h : Rearranged ds ds')
    {d' : Declaration} (hd' : d' ∈ ds') : ∃ d ∈ ds, d.Rearranged d' := by
  obtain ⟨mid, hperm, hall⟩ := h
  obtain ⟨d, hd, hdd'⟩ := Resolve.exists_of_mem_forall₂ hall hd'
  exact ⟨d, hperm.mem_iff.mpr hd, hdd'⟩

/-! ## Acceptance -/

/-- The same names are declared. -/
theorem Rearranged.declares?_perm {ds ds' : List Declaration} (h : Rearranged ds ds') :
    (ds.map Resolve.declares?).Perm (ds'.map Resolve.declares?) := by
  refine h.map_perm fun d d' hd => ?_
  cases hd <;> rfl

/-- The same words are types. -/
theorem Rearranged.typeWord {ds ds' : List Declaration} (h : Rearranged ds ds') {word : String}
    (hword : TypeWord ds word) : TypeWord ds' word := by
  rcases hword with hp | ⟨m, hm, rfl⟩ | ⟨e, he, rfl⟩
  · exact .inl hp
  · obtain ⟨d', hd', hmd⟩ := h.symm.exists_of_mem hm
    cases hmd with
    | message => exact .inr (.inl ⟨_, hd', rfl⟩)
  · obtain ⟨d', hd', hed⟩ := h.symm.exists_of_mem he
    cases hed with
    | enum => exact .inr (.inr ⟨_, hd', rfl⟩)

/-- An enum stays valid when its variants change places. -/
theorem Enum.Valid.of_perm {e e' : Enum} (h : e.Valid) (hp : e.variants.Perm e'.variants) :
    e'.Valid where
  labels_distinct := (hp.map _).nodup_iff.mp h.labels_distinct
  values_distinct := (hp.map _).nodup_iff.mp h.values_distinct
  values_fit v hv := h.values_fit v (hp.mem_iff.mpr hv)

/-- A message stays valid when its fields change places, and so do the declarations. -/
theorem Message.Valid.of_perm {ds ds' : List Declaration} {m m' : Message} (h : m.Valid ds)
    (hds : Rearranged ds ds') (hp : m.fields.Perm m'.fields) : m'.Valid ds' where
  tags_distinct := (hp.map _).nodup_iff.mp h.tags_distinct
  names_distinct := (hp.map _).nodup_iff.mp h.names_distinct
  tags_fit f hf := h.tags_fit f (hp.mem_iff.mpr hf)
  modifiers_agree f hf := h.modifiers_agree f (hp.mem_iff.mpr hf)
  types_declared f hf := hds.typeWord (h.types_declared f (hp.mem_iff.mpr hf))

end Written

namespace Resolve

open Written (Rearranged)

/-- **Rearranged declarations become a schema if the declarations do.** -/
theorem Resolves.exists_of_rearranged {ds ds' : List Written.Declaration} {s : Schema}
    (hs : Resolves ds s) (h : Rearranged ds ds') : ∃ s', Resolves ds' s' := by
  have henum : ∀ e' ∈ Written.enumsIn ds', ∃ e, EnumImage e' e := by
    intro e' he'
    obtain ⟨d, hd, hde⟩ := h.exists_of_mem (Written.mem_enumsIn.mp he')
    cases hde with
    | enum hp =>
      have hvalid := exists_forall₂_iff.mp ⟨_, hs.enums⟩ _ (Written.mem_enumsIn.mpr hd)
      exact exists_enumImage_iff.mpr ((exists_enumImage_iff.mp hvalid).of_perm hp)
  have hmessage : ∀ m' ∈ Written.messagesIn ds',
      ∃ m, MessageImage (Written.Names ds') m' m := by
    intro m' hm'
    obtain ⟨d, hd, hdm⟩ := h.exists_of_mem (Written.mem_messagesIn.mp hm')
    cases hdm with
    | message hp =>
      have hvalid := exists_forall₂_iff.mp ⟨_, hs.messages⟩ _ (Written.mem_messagesIn.mpr hd)
      exact exists_messageImage_iff.mpr ((exists_messageImage_iff.mp hvalid).of_perm h hp)
  have hconstant : ∀ c' ∈ Written.constantsIn ds', ∃ c, ConstantImage c' c := by
    intro c' hc'
    obtain ⟨d, hd, hdc⟩ := h.exists_of_mem (Written.mem_constantsIn.mp hc')
    cases hdc with
    | constant => exact exists_forall₂_iff.mp ⟨_, hs.constants⟩ _ (Written.mem_constantsIn.mpr hd)
  obtain ⟨es, hes⟩ := exists_forall₂_iff.mpr henum
  obtain ⟨ms, hms⟩ := exists_forall₂_iff.mpr hmessage
  obtain ⟨cs, hcs⟩ := exists_forall₂_iff.mpr hconstant
  refine ⟨⟨_, ms, es, cs⟩, h.declares?_perm.nodup_iff.mp hs.distinct, fun d' hd' name hname => ?_,
    rfl, hes, hms, hcs⟩
  have hmem : some name ∈ ds.map declares? :=
    h.declares?_perm.mem_iff.mpr (List.mem_map.mpr ⟨d', hd', hname⟩)
  obtain ⟨d, hd, hdname⟩ := List.mem_map.mp hmem
  exact hs.free d hd name hdname

end Resolve

/-! ## The wire shape of declarations -/

namespace Written

/-- The modifier that words stand for if there is at most one of them. -/
def modifierOfWords : List ModifierWord → WireSchema.Modifier
  | [.optional] => .optional
  | [.repeated] => .repeated
  | _ => .single

/-- What a type word stands for. -/
def typeShape (ds : List Declaration) (word : String) : TypeShape :=
  match Primitive.ofName? word with
  | some p => .primitive p
  | none =>
    if (messagesIn ds).any (·.name = word) then .message word
    else .enum word

def variantShape (v : Variant) : VariantShape :=
  { value := v.value, label := v.label }

def fieldShape (ds : List Declaration) (f : Field) : FieldShape :=
  { tag := f.tag.toNat
    name := f.name
    modifier := modifierOfWords (f.modifiers.map (·.word))
    type := typeShape ds f.type }

/-- What declarations that may stand together are on the wire. -/
def wireShape (ds : List Declaration) : WireShape :=
  { name := ((protocolNamesIn ds).head?.map (·.name)).getD Schema.defaultName
    enums := ((enumsIn ds).map fun e =>
      (e.name, (e.variants.map variantShape).toFinset)).toFinset
    messages := ((messagesIn ds).map fun m =>
      (m.name, (m.fields.map (fieldShape ds)).toFinset)).toFinset }

theorem modifierOfWords_modifierWords (m : WireSchema.Modifier) :
    modifierOfWords (Resolve.modifierWords m) = m := by
  cases m <;> rfl

end Written

namespace Resolve

open Written (Rearranged)

variable {ds ds' : List Written.Declaration} {s s' : Schema}

/-- The type that a word is bound to, by name. -/
theorem Resolves.typeShape_eq (hs : Resolves ds s) {word : String} {type : TypeRef}
    (h : Written.Names ds word type) : s.typeShape type = Written.typeShape ds word := by
  have hunique := hs.type_eq_iff h
  unfold Written.typeShape
  cases hp : Primitive.ofName? word with
  | some p =>
    obtain rfl := (hunique (.primitive p)).mpr (Primitive.ofName?_eq_some_iff.mp hp)
    rfl
  | none =>
    cases type with
    | primitive p => exact absurd h (Primitive.ofName?_eq_none_iff.mp hp p)
    | message index =>
      have hany : (Written.messagesIn ds).any (·.name = word) = true := by
        obtain ⟨m, hget, hname⟩ := h
        exact List.any_eq_true.mpr ⟨m, List.mem_of_getElem? hget, by simpa using hname⟩
      have hindex := (hs.messageIndex?_iff word index).mpr h
      rw [hany]
      exact congrArg TypeShape.message (Schema.messageName_of_messageIndex? hindex)
    | enum index =>
      have hany : (Written.messagesIn ds).any (·.name = word) = false := by
        -- a message of that name would be what the word names
        rw [List.any_eq_false]
        intro m hm hname
        obtain ⟨i, hget⟩ := List.mem_iff_getElem?.mp hm
        have heq := (hunique (.message i)).mpr ⟨m, hget, by simpa using hname⟩
        cases heq
      have hindex := (hs.enumIndex?_iff word index).mpr h
      rw [hany]
      exact congrArg TypeShape.enum (Schema.enumName_of_enumIndex? hindex)

/-- The shape of a resolved field is that of the field as it was written. -/
theorem Resolves.fieldShape_eq (hs : Resolves ds s) {w : Written.Field} {f : Field}
    (h : FieldImage (Written.Names ds) w f) : s.fieldShape f = Written.fieldShape ds w := by
  have htag : w.tag.toNat = f.tag := by
    rw [(tag?_eq_some_iff.mp h.tag).1]
    rfl
  rw [Schema.fieldShape, Written.fieldShape, h.name, htag, h.modifier, hs.typeShape_eq h.type,
    Written.modifierOfWords_modifierWords]

/-- **The wire shape of a schema is that of its declarations.** -/
theorem Resolves.wireShape_eq (hs : Resolves ds s) : s.wireShape = Written.wireShape ds := by
  have henums : s.enums.map (fun e => (e.name, (e.variants.map Variant.shape).toFinset)) =
      (Written.enumsIn ds).map fun e =>
        (e.name, (e.variants.map Written.variantShape).toFinset) := by
    refine map_eq_of_forall₂ (fun w e he => ?_) hs.enums
    have hv : e.variants.map Variant.shape = w.variants.map Written.variantShape :=
      map_eq_of_forall₂ (fun _ _ hv => by rw [hv.eq]; rfl) he.variants
    rw [he.name, hv]
  have hmessages : s.messages.map (fun m => (m.name, (m.fields.map s.fieldShape).toFinset)) =
      (Written.messagesIn ds).map fun m =>
        (m.name, (m.fields.map (Written.fieldShape ds)).toFinset) := by
    refine map_eq_of_forall₂ (fun w m hm => ?_) hs.messages
    rw [hm.name, map_eq_of_forall₂ (fun _ _ hf => hs.fieldShape_eq hf) hm.fields]
  rw [Schema.wireShape, Written.wireShape, henums, hmessages, hs.name]

end Resolve

namespace Written

variable {ds ds' : List Declaration}

/-! ## Rearranging keeps the shape -/

/-- What does not depend on the order of variants is the same for all enums, up to their order. -/
theorem Rearranged.map_enums_perm {β : Type} (h : Rearranged ds ds') {f : Enum → β}
    (hf : ∀ name vs vs' location, vs.Perm vs' → f ⟨name, vs', location⟩ = f ⟨name, vs, location⟩) :
    ((enumsIn ds).map f).Perm ((enumsIn ds').map f) := by
  simp only [enumsIn, List.map_filterMap]
  refine h.filterMap_perm fun d d' hd => ?_
  cases hd with
  | enum hp => exact congrArg some (hf _ _ _ _ hp)
  | _ => rfl

theorem Rearranged.map_messages_perm {β : Type} (h : Rearranged ds ds') {f : Message → β}
    (hf : ∀ name fs fs' location, fs.Perm fs' → f ⟨name, fs', location⟩ = f ⟨name, fs, location⟩) :
    ((messagesIn ds).map f).Perm ((messagesIn ds').map f) := by
  simp only [messagesIn, List.map_filterMap]
  refine h.filterMap_perm fun d d' hd => ?_
  cases hd with
  | message hp => exact congrArg some (hf _ _ _ _ hp)
  | _ => rfl

theorem Rearranged.names_perm (h : Rearranged ds ds') :
    (protocolNamesIn ds).Perm (protocolNamesIn ds') := by
  refine h.filterMap_perm fun d d' hd => ?_
  cases hd <;> rfl

/-- A type word has the same shape in both orders. -/
theorem Rearranged.typeShape_eq (h : Rearranged ds ds') : typeShape ds = typeShape ds' := by
  funext word
  have hnames := h.map_messages_perm (f := Message.name) fun _ _ _ _ _ => rfl
  have hany := hnames.any_eq (f := fun name => decide (name = word))
  simp only [List.any_map, Function.comp_def] at hany
  rw [typeShape, typeShape, hany]

/-- **Rearranging keeps the wire shape**, if the protocol is named at most once. -/
theorem Rearranged.wireShape_eq (h : Rearranged ds ds')
    (hnamed : (protocolNamesIn ds).length ≤ 1) :
    wireShape ds = wireShape ds' := by
  have hnames : protocolNamesIn ds = protocolNamesIn ds' := by
    have hperm := h.names_perm
    match hds : protocolNamesIn ds, hnamed with
    | [], _ => exact (List.nil_perm.mp (hds ▸ hperm)).symm
    | [n], _ => exact List.singleton_perm.mp (hds ▸ hperm)
  have henums := h.map_enums_perm
    (f := fun e => (e.name, (e.variants.map variantShape).toFinset)) fun name vs vs' _ hp =>
      congrArg (Prod.mk name) (List.toFinset_eq_of_perm _ _ (hp.map _)).symm
  have hmessages := h.map_messages_perm
    (f := fun m => (m.name, (m.fields.map (fieldShape ds)).toFinset)) fun name fs fs' _ hp =>
      congrArg (Prod.mk name) (List.toFinset_eq_of_perm _ _ (hp.map _)).symm
  have hfields : fieldShape ds = fieldShape ds' := by
    funext f
    rw [fieldShape, fieldShape, h.typeShape_eq]
  rw [wireShape, wireShape, hnames, List.toFinset_eq_of_perm _ _ henums,
    List.toFinset_eq_of_perm _ _ hmessages, hfields]

end Written

/-! ## The plan by name -/

/-- The encoding of a value, with what it refers to by name. -/
inductive Wire.KindShape where
  /-- an encoding that refers to no declaration -/
  | plain (kind : Wire.Kind)
  | enum (name : String)
  | message (name : String)
  deriving DecidableEq, Repr

/-- A line of a message's plan. -/
structure Wire.Row where
  tag : Nat
  name : String
  kind : Wire.KindShape
  repeated : Bool
  presence : Wire.Presence
  deriving DecidableEq, Repr

namespace Schema

def kindShape (s : Schema) : Wire.Kind → Wire.KindShape
  | .enum index => .enum (s.enumName index)
  | .message index => .message (s.messageName index)
  | kind => .plain kind

def wireRow (s : Schema) (f : Wire.Field) : Wire.Row :=
  { tag := f.tag
    name := f.field.name
    kind := s.kindShape f.kind
    repeated := f.repeated
    presence := f.presence }

/-- The plan of the first message with a name. -/
def planOf? (s : Schema) (name : String) : Option (List Wire.Row) :=
  (s.plan.find? (·.message.name = name)).map fun m => m.fields.map s.wireRow

end Schema

/-- The encoding of a type. -/
def Wire.KindShape.ofType : TypeShape → Wire.KindShape
  | .primitive p => .plain (.ofPrimitive p)
  | .enum name => .enum name
  | .message name => .message name

/-- The line of a field: its shape is all that the plan depends on. -/
def FieldShape.row (f : FieldShape) : Wire.Row :=
  { tag := f.tag
    name := f.name
    kind := .ofType f.type
    repeated := f.modifier = .repeated
    presence := match f.modifier, f.type with
      | .repeated, _ => .always
      | .optional, _ => .whenSet
      | .single, .message _ => .whenSet
      | .single, _ => .always }

namespace Schema

theorem kindShape_ofType (s : Schema) (type : TypeRef) :
    s.kindShape (.ofType type) = .ofType (s.typeShape type) := by
  cases type with
  | primitive p => cases p <;> rfl
  | message index => rfl
  | enum index => rfl

/-- The row of a planned field is that of its shape. -/
theorem wireRow_ofField (s : Schema) (f : Field) :
    s.wireRow (.ofField f) = (s.fieldShape f).row := by
  obtain ⟨name, type, tag, modifier, location⟩ := f
  have hpresence : Wire.presenceOf modifier (.ofType type) =
      (s.fieldShape ⟨name, type, tag, modifier, location⟩).row.presence := by
    cases modifier with
    | single =>
      cases type with
      | primitive p => cases p <;> rfl
      | message index => rfl
      | enum index => rfl
    | optional => cases type <;> rfl
    | repeated => cases type <;> rfl
  simp only [wireRow, Wire.Field.ofField, Wire.Field.tag, kindShape_ofType, hpresence]
  rfl

end Schema

/-- Searching a list that was mapped with the indices, by what does not depend on them. -/
theorem find?_mapIdx {α β γ : Type} {p : β → Bool} {q : α → Bool} {f : Nat → α → β} {g : β → γ}
    {g' : α → γ} (hp : ∀ i a, p (f i a) = q a) (hg : ∀ i a, g (f i a) = g' a) (as : List α) :
    ((as.mapIdx f).find? p).map g = (as.find? q).map g' := by
  induction as generalizing f with
  | nil => rfl
  | cons a as ih =>
    rw [List.mapIdx_cons, List.find?_cons, List.find?_cons, hp]
    cases q a with
    | true => exact congrArg some (hg 0 a)
    | false => exact ih (fun i a => hp (i + 1) a) fun i a => hg (i + 1) a

/-- Searching by a key that no two items share does not depend on the order. -/
theorem find?_eq_of_perm {α κ : Type} [DecidableEq κ] {key : α → κ} {as bs : List α}
    (h : as.Perm bs) (hkeys : (as.map key).Nodup) (k : κ) :
    as.find? (key · = k) = bs.find? (key · = k) := by
  induction h with
  | nil => rfl
  | cons a _ ih =>
    rw [List.find?_cons, List.find?_cons, ih (List.nodup_cons.mp hkeys).2]
  | swap a b as =>
    have hne : key b ≠ key a := fun heq => by simp [heq] at hkeys
    by_cases ha : key a = k
    · have hb : key b ≠ k := ha ▸ hne
      simp [ha, hb]
    · simp [List.find?_cons, ha]
  | trans hab _ ih ih' => exact (ih hkeys).trans (ih' ((hab.map key).nodup_iff.mp hkeys))

namespace Schema

/-- The plan of a message can be read off the outline. -/
theorem planOf?_eq {s : Schema} (h : s.Distinct) (name : String) :
    s.planOf? name =
      (s.outline.messages.find? (·.1 = name)).map fun r => r.2.map FieldShape.row := by
  have hplan : s.planOf? name = (s.messages.find? (·.name = name)).map fun m =>
      (m.fieldsByTag.map s.fieldShape).map FieldShape.row := by
    unfold planOf? plan
    refine find?_mapIdx (f := Wire.Message.ofMessage) (fun i m => rfl) (fun i m => ?_) s.messages
    simp only [Wire.Message.ofMessage, List.map_map, Function.comp_def, wireRow_ofField]
  have hsort := find?_eq_of_perm (List.mergeSort_perm s.messages fun a b => a.name ≤ b.name).symm
    h.messages name
  rw [hplan, hsort, outline, List.find?_map, Option.map_map]
  rfl

/-- **The order of the source never matters to the protocol.** Declarations are accepted in one
order exactly if they are in another, and then the canonical form, the fingerprint and the plan of
every message are the same. -/
theorem ofDeclarations_rearranged {ds ds' : List Written.Declaration}
    (h : Written.Rearranged ds ds') (mode : ErrorMode) :
    ((∃ s, Schema.ofDeclarations mode ds = .ok s) ↔
      ∃ s', Schema.ofDeclarations mode ds' = .ok s') ∧
    ∀ s s', Schema.ofDeclarations mode ds = .ok s → Schema.ofDeclarations mode ds' = .ok s' →
      s.canonicalForm = s'.canonicalForm ∧ s.fingerprint = s'.fingerprint ∧
        ∀ name, s.planOf? name = s'.planOf? name := by
  simp only [ofDeclarations_eq_ok_iff]
  refine ⟨⟨fun ⟨s, hs⟩ => hs.exists_of_rearranged h,
    fun ⟨s', hs'⟩ => hs'.exists_of_rearranged h.symm⟩, fun s s' hs hs' => ?_⟩
  have hnamed := (Resolve.nodup_map_declares?_iff.mp hs.distinct).1
  have hshape : s.wireShape = s'.wireShape := by
    rw [hs.wireShape_eq, hs'.wireShape_eq, h.wireShape_eq hnamed]
  have hdistinct := distinct_of_resolves hs
  have hdistinct' := distinct_of_resolves hs'
  have houtline : s.outline = s'.outline := (outline_eq_iff hdistinct hdistinct').mpr hshape
  have hform : s.canonicalForm = s'.canonicalForm := by
    rw [← String.toList_inj, toList_canonicalForm, toList_canonicalForm, houtline]
  refine ⟨hform, ?_, fun name => ?_⟩
  · rw [fingerprint, fingerprint, hform]
  · rw [planOf?_eq hdistinct, planOf?_eq hdistinct', houtline]

/-- The declarations of `crossing` in another order, with their fields and variants swapped. -/
def scattered : List Written.Declaration :=
  [.message ⟨"Edge",
      [⟨"kind", [], "Kind", ⟨7, 7⟩, 5, ⟨7, 14⟩, ⟨7, 1⟩⟩,
        ⟨"ends", [⟨.repeated, ⟨6, 22⟩⟩], "Node", ⟨6, 31⟩, 1, ⟨6, 38⟩, ⟨6, 16⟩⟩], ⟨6, 9⟩⟩,
    .enum ⟨"Kind", [⟨"near", -1, ⟨4, 22⟩⟩, ⟨"far", 7, ⟨4, 13⟩⟩], ⟨4, 6⟩⟩,
    .name ⟨"graph", ⟨5, 1⟩⟩,
    .message ⟨"Node",
      [⟨"edge", [], "Edge", ⟨2, 7⟩, 1, ⟨2, 14⟩, ⟨2, 1⟩⟩,
        ⟨"next", [⟨.optional, ⟨1, 22⟩⟩], "Node", ⟨1, 31⟩, 2, ⟨1, 38⟩, ⟨1, 16⟩⟩], ⟨1, 9⟩⟩,
    .constant ⟨"Scale", "float64", .integer 3, ⟨3, 1⟩⟩]

theorem crossing_rearranged : Written.Rearranged crossing scattered := by
  -- first the declarations change places, then the items inside each
  refine ⟨[crossing[4], crossing[2], crossing[3], crossing[0], crossing[1]], by decide, ?_⟩
  exact .cons (.message (.swap _ _ _)) (.cons (.enum (.swap _ _ _)) (.cons (.name _)
    (.cons (.message (.swap _ _ _)) (.cons (.constant _) .nil))))

theorem crossing_scattered_same_wire :
    Written.Rearranged crossing scattered ∧
      ∃ s s', Schema.ofDeclarations .failFast crossing = .ok s ∧
        Schema.ofDeclarations .failFast scattered = .ok s' ∧ s.messages ≠ s'.messages ∧
        s.canonicalForm = s'.canonicalForm ∧ s.fingerprint = s'.fingerprint ∧
        (s.planOf? "Node").isSome ∧ s.planOf? "Node" = s'.planOf? "Node" := by
  have hrun : ∃ s ∈ (Schema.ofDeclarations .failFast crossing).toOption,
      ∃ s' ∈ (Schema.ofDeclarations .failFast scattered).toOption, s.messages ≠ s'.messages ∧
        (s.planOf? "Node").isSome := by decide +kernel
  obtain ⟨s, hs, s', hs', hne, hsome⟩ := hrun
  have h := eq_ok_of_mem_toOption hs
  have h' := eq_ok_of_mem_toOption hs'
  obtain ⟨hform, hprint, hplan⟩ :=
    (ofDeclarations_rearranged crossing_rearranged .failFast).2 s s' h h'
  exact ⟨crossing_rearranged, s, s', h, h', hne, hform, hprint, hsome, hplan _⟩

end Schema

end WireSchema
