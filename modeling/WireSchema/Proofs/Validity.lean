import Mathlib.Algebra.Group.Int.Defs
import Mathlib.Algebra.Group.Nat.Defs
import Mathlib.Order.Monotone.Basic
import WireSchema.Proofs.Resolves

/-!
# Which declarations describe a schema

`Written.Valid` lists what the declarations of a schema text must satisfy, each condition on its
own: nothing in it depends on what was read earlier, on what another check has dropped, or on the
order of the text. The checks accept declarations exactly when they are valid
(`ofDeclarations_accepts_iff_valid`), so a declaration, field or variant that is dropped for one
reason never hides a fault of another.

Literals are compared with their type by value: a double stands for a number of units of `2 ^ -1074`
(`Binary64.units`), and the order of bit patterns is the order of these numbers.
-/

namespace WireSchema

/-! ## Doubles by value -/

namespace Binary64

/-- The absolute value that a finite magnitude stands for, in units of `2 ^ -1074`. -/
def unitsOf (magnitude : Nat) : Nat :=
  significand magnitude * 2 ^ scale magnitude

theorem scale_subnormal {m : Nat} (h : m < 2 ^ 52) : scale m = 0 := by
  change m / 2 ^ 52 - 1 = 0
  omega

theorem scale_normal (e : Nat) {f : Nat} (h : f < 2 ^ 52) : scale ((e + 1) * 2 ^ 52 + f) = e := by
  change ((e + 1) * 2 ^ 52 + f) / 2 ^ 52 - 1 = e
  omega

theorem unitsOf_subnormal {m : Nat} (h : m < 2 ^ 52) : unitsOf m = m := by
  have hm : significand m = m := if_pos h
  rw [unitsOf, scale_subnormal h, hm, Nat.pow_zero, Nat.mul_one]

theorem unitsOf_normal (e : Nat) {f : Nat} (h : f < 2 ^ 52) :
    unitsOf ((e + 1) * 2 ^ 52 + f) = (f + 2 ^ 52) * 2 ^ e := by
  have hge : ¬ (e + 1) * 2 ^ 52 + f < 2 ^ 52 := by omega
  have hm : significand ((e + 1) * 2 ^ 52 + f) = ((e + 1) * 2 ^ 52 + f) % 2 ^ 52 + 2 ^ 52 :=
    if_neg hge
  have hf : ((e + 1) * 2 ^ 52 + f) % 2 ^ 52 = f := by omega
  rw [unitsOf, scale_normal e h, hm, hf]

/-- The distance to the next magnitude. -/
theorem unitsOf_succ (m : Nat) : unitsOf (m + 1) = unitsOf m + 2 ^ scale m := by
  rcases Nat.lt_or_ge m (2 ^ 52) with hm | hm
  · rw [unitsOf_subnormal hm, scale_subnormal hm]
    rcases Nat.lt_or_ge (m + 1) (2 ^ 52) with hm' | hm'
    · exact unitsOf_subnormal hm'
    · -- the step from the greatest subnormal magnitude to the least normal one
      obtain rfl : m = 2 ^ 52 - 1 := by omega
      decide +kernel
  · obtain ⟨e, f, hf, rfl⟩ : ∃ e f, f < 2 ^ 52 ∧ m = (e + 1) * 2 ^ 52 + f :=
      ⟨m / 2 ^ 52 - 1, m % 2 ^ 52, Nat.mod_lt _ (by decide), by omega⟩
    rw [unitsOf_normal e hf, scale_normal e hf]
    rcases Nat.lt_or_ge (f + 1) (2 ^ 52) with hf' | hf'
    · rw [Nat.add_assoc, unitsOf_normal e hf', Nat.add_right_comm, Nat.succ_mul]
    · -- the significand starts again at its least value, one power of two higher
      obtain rfl : f = 2 ^ 52 - 1 := by omega
      have hnext : (e + 1) * 2 ^ 52 + (2 ^ 52 - 1) + 1 = (e + 1 + 1) * 2 ^ 52 + 0 := by omega
      rw [hnext, unitsOf_normal (e + 1) (by decide), Nat.pow_succ]
      omega

/-- The next magnitude stands for a greater value. -/
theorem unitsOf_lt_succ (m : Nat) : unitsOf m < unitsOf (m + 1) := by
  rw [unitsOf_succ]
  exact Nat.lt_add_of_pos_right (Nat.two_pow_pos _)

/-- Magnitudes are ordered as the numbers that they stand for. -/
theorem unitsOf_strictMono : StrictMono unitsOf :=
  strictMono_nat_of_lt_succ unitsOf_lt_succ

/-- The absolute value of a finite double, in units of `2 ^ -1074`. -/
def units (x : Binary64) : Nat :=
  unitsOf x.magnitude

/-- The greatest finite single-precision number, `(2 ^ 24 - 1) * 2 ^ 104`, in the same units. -/
def greatestSingleUnits : Nat :=
  (2 ^ 24 - 1) * 2 ^ 104 * 2 ^ 1074

/-- The doubles up to the greatest single-precision number, by bit pattern and by value. -/
theorem magnitude_le_greatestSingle_iff (x : Binary64) :
    x.magnitude ≤ greatestSingle ↔ x.isFinite = true ∧ x.units ≤ greatestSingleUnits := by
  have hunits : unitsOf greatestSingle = greatestSingleUnits := by decide +kernel
  have hfinite : greatestSingle < infinityMagnitude := by decide
  rw [← hunits, units, unitsOf_strictMono.le_iff_le, isFinite, decide_eq_true_iff]
  omega

end Binary64

/-! ## Validity -/

/-- Does a literal fit a primitive type? Every integer fits a floating-point type, and nothing fits
`bytes`. -/
def Literal.Fits (type : Primitive) : Literal → Prop
  | .bool _ => type = .bool
  | .string _ => type = .string
  | .integer value =>
    type = .float32 ∨ type = .float64 ∨
      ∃ least greatest, type.integerRange? = some (least, greatest) ∧
        least ≤ value ∧ value ≤ greatest
  | .number value =>
    value.isFinite = true ∧
      (type = .float64 ∨ type = .float32 ∧ value.units ≤ Binary64.greatestSingleUnits)

namespace Written

/-- What the variants of an enum must satisfy. -/
structure Enum.Valid (e : Enum) : Prop where
  labels_distinct : (e.variants.map (·.label)).Nodup
  values_distinct : (e.variants.map (·.value)).Nodup
  values_fit : ∀ v ∈ e.variants, -2 ^ 31 ≤ v.value ∧ v.value ≤ 2 ^ 31 - 1

/-- A type word means something among the declarations `ds`: it names a primitive type, a message or
an enum. -/
def TypeWord (ds : List Declaration) (word : String) : Prop :=
  (∃ p : Primitive, p.name = word) ∨ (∃ m, .message m ∈ ds ∧ m.name = word) ∨
    ∃ e, .enum e ∈ ds ∧ e.name = word

/-- What the fields of a message among the declarations `ds` must satisfy. -/
structure Message.Valid (ds : List Declaration) (m : Message) : Prop where
  tags_distinct : (m.fields.map (·.tag)).Nodup
  names_distinct : (m.fields.map (·.name)).Nodup
  tags_fit : ∀ f ∈ m.fields, 1 ≤ f.tag ∧ f.tag ≤ 2 ^ 29 - 1
  modifiers_agree : ∀ f ∈ m.fields, f.modifiers.length ≤ 1
  types_declared : ∀ f ∈ m.fields, TypeWord ds f.type

/-- What a constant must satisfy. -/
def Constant.Valid (c : Constant) : Prop :=
  ∃ type : Primitive, type.name = c.type ∧ c.value.Fits type

/-- What the declarations of a schema must satisfy. -/
structure Valid (ds : List Declaration) : Prop where
  named_once : (protocolNamesIn ds).length ≤ 1
  names_distinct : (ds.filterMap Resolve.declares?).Nodup
  names_free : ∀ name ∈ ds.filterMap Resolve.declares?, ∀ p : Primitive, p.name ≠ name
  enums : ∀ e, .enum e ∈ ds → e.Valid
  messages : ∀ m, .message m ∈ ds → m.Valid ds
  constants : ∀ c, .constant c ∈ ds → c.Valid

end Written

namespace Resolve

/-! ## Items that become something -/

/-- A list of images exists exactly when every item has one. -/
theorem exists_forall₂_iff {α β : Type} {R : α → β → Prop} {as : List α} :
    (∃ bs, List.Forall₂ R as bs) ↔ ∀ a ∈ as, ∃ b, R a b := by
  induction as with
  | nil => simp
  | cons a as ih =>
    rw [List.forall_mem_cons, ← ih]
    refine ⟨?_, ?_⟩
    · rintro ⟨bs, h⟩
      cases h with
      | cons hab has => exact ⟨⟨_, hab⟩, _, has⟩
    · rintro ⟨⟨b, hab⟩, bs, has⟩
      exact ⟨b :: bs, .cons hab has⟩

theorem declares?_eq_none_iff {d : Written.Declaration} :
    declares? d = none ↔ ∃ n, d = .name n := by
  cases d <;> simp [declares?]

/-- Two keys of different kinds that are claimed together are distinct one kind at a time. -/
theorem pairwise_sum_keys_iff {α κ κ' : Type} {as : List α} {f : α → κ} {g : α → κ'} :
    (as.Pairwise fun a a' => ∀ k ∈ ([.inl (f a'), .inr (g a')] : List (κ ⊕ κ')),
        k ∉ ([.inl (f a), .inr (g a)] : List (κ ⊕ κ'))) ↔
      (as.map f).Nodup ∧ (as.map g).Nodup := by
  rw [List.Nodup, List.Nodup, List.pairwise_map, List.pairwise_map, ← List.pairwise_and_iff]
  refine ⟨fun h => h.imp ?_, fun h => h.imp ?_⟩ <;> simp [eq_comm]

/-- An enum can be resolved exactly if it is valid. -/
theorem exists_enumImage_iff {w : Written.Enum} : (∃ e, EnumImage w e) ↔ w.Valid := by
  refine ⟨?_, ?_⟩
  · rintro ⟨e, -, -, hv, hd⟩
    obtain ⟨hlabels, hvalues⟩ := pairwise_sum_keys_iff.mp hd
    refine ⟨hlabels, hvalues, fun v hmem => ?_⟩
    obtain ⟨v', hfits, -⟩ := exists_forall₂_iff.mp ⟨_, hv⟩ v hmem
    simpa [fitsEnum] using hfits
  · rintro ⟨hlabels, hvalues, hfit⟩
    have himages : ∀ v ∈ w.variants, ∃ v', VariantImage v v' := fun v hmem =>
      ⟨_, by simpa [fitsEnum] using hfit v hmem, rfl⟩
    obtain ⟨vs, hvs⟩ := exists_forall₂_iff.mpr himages
    exact ⟨⟨w.name, vs, w.location⟩, rfl, rfl, hvs, pairwise_sum_keys_iff.mpr ⟨hlabels, hvalues⟩⟩

/-- A type word that means something names a type. -/
theorem exists_names_iff {ds : List Written.Declaration} {word : String} :
    (∃ type, Written.Names ds word type) ↔ Written.TypeWord ds word := by
  unfold Written.TypeWord
  simp only [← Written.mem_messagesIn, ← Written.mem_enumsIn]
  simp only [List.mem_iff_getElem?]
  refine ⟨?_, ?_⟩
  · rintro ⟨type, hnames⟩
    cases type with
    | primitive p => exact .inl ⟨p, hnames⟩
    | message index =>
      obtain ⟨m, hget, hname⟩ := hnames
      exact .inr (.inl ⟨m, ⟨index, hget⟩, hname⟩)
    | enum index =>
      obtain ⟨e, hget, hname⟩ := hnames
      exact .inr (.inr ⟨e, ⟨index, hget⟩, hname⟩)
  · rintro (⟨p, hname⟩ | ⟨m, ⟨index, hget⟩, hname⟩ | ⟨e, ⟨index, hget⟩, hname⟩)
    · exact ⟨.primitive p, hname⟩
    · exact ⟨.message index, m, hget, hname⟩
    · exact ⟨.enum index, e, hget, hname⟩

theorem exists_modifierWords_iff {ms : List Written.Modifier} :
    (∃ m, ms.map (·.word) = modifierWords m) ↔ ms.length ≤ 1 := by
  rcases ms with _ | ⟨⟨word, loc⟩, _ | ⟨second, rest⟩⟩
  · exact ⟨fun _ => Nat.zero_le _, fun _ => ⟨.single, rfl⟩⟩
  · refine ⟨fun _ => Nat.le_refl _, fun _ => ?_⟩
    cases word with
    | repeated => exact ⟨.repeated, rfl⟩
    | optional => exact ⟨.optional, rfl⟩
  · refine ⟨?_, fun h => absurd h (by simp)⟩
    rintro ⟨m, h⟩
    cases m <;> simp [modifierWords] at h

/-- A field can be resolved exactly if its tag is in range, it has one modifier at most and its type
is known. -/
theorem exists_fieldImage_iff {ds : List Written.Declaration} {w : Written.Field} :
    (∃ f, FieldImage (Written.Names ds) w f) ↔
      (1 ≤ w.tag ∧ w.tag ≤ 2 ^ 29 - 1) ∧ w.modifiers.length ≤ 1 ∧ Written.TypeWord ds w.type := by
  rw [← exists_names_iff, ← exists_modifierWords_iff]
  refine ⟨?_, ?_⟩
  · rintro ⟨f, -, htag, hm, ht, -⟩
    obtain ⟨htag, hleast, hgreatest⟩ := tag?_eq_some_iff.mp htag
    refine ⟨?_, ⟨_, hm⟩, _, ht⟩
    rw [htag]
    change f.tag ≤ 536870911 at hgreatest
    omega
  · rintro ⟨htag, ⟨m, hm⟩, type, ht⟩
    obtain ⟨tag, htag'⟩ := Int.eq_ofNat_of_zero_le (by omega : 0 ≤ w.tag)
    have hleast : 1 ≤ tag := by omega
    have hgreatest : tag ≤ greatestTag := by
      change tag ≤ 536870911
      omega
    exact ⟨⟨w.name, type, tag, m, w.location⟩, rfl,
      tag?_eq_some_iff.mpr ⟨htag', hleast, hgreatest⟩, hm, ht, rfl⟩

/-- A message can be resolved exactly if it is valid. -/
theorem exists_messageImage_iff {ds : List Written.Declaration} {w : Written.Message} :
    (∃ m, MessageImage (Written.Names ds) w m) ↔ w.Valid ds := by
  refine ⟨?_, ?_⟩
  · rintro ⟨m, -, -, hf, hd⟩
    obtain ⟨htags, hnames⟩ := pairwise_sum_keys_iff.mp hd
    have hfields : ∀ f ∈ w.fields, _ := fun f hmem =>
      exists_fieldImage_iff.mp (exists_forall₂_iff.mp ⟨_, hf⟩ f hmem)
    exact ⟨htags, hnames, fun f hmem => (hfields f hmem).1, fun f hmem => (hfields f hmem).2.1,
      fun f hmem => (hfields f hmem).2.2⟩
  · rintro ⟨htags, hnames, hfit, hmods, htypes⟩
    obtain ⟨fs, hfs⟩ := exists_forall₂_iff.mpr fun f hmem =>
      exists_fieldImage_iff.mpr ⟨hfit f hmem, hmods f hmem, htypes f hmem⟩
    exact ⟨⟨w.name, fs, w.location⟩, rfl, rfl, hfs, pairwise_sum_keys_iff.mpr ⟨htags, hnames⟩⟩

theorem exists_constantValue?_iff {type : Primitive} {literal : Literal} :
    (∃ value, constantValue? type literal = some value) ↔ literal.Fits type := by
  cases literal with
  | bool value => cases type <;> simp [constantValue?, Literal.Fits]
  | string value => cases type <;> simp [constantValue?, Literal.Fits]
  | integer value => cases type <;> simp [constantValue?, Literal.Fits, Primitive.integerRange?]
  | number value =>
    cases type <;> simp [constantValue?, Literal.Fits, Binary64.magnitude_le_greatestSingle_iff]

/-- A constant can be resolved exactly if its literal fits its type. -/
theorem exists_constantImage_iff {w : Written.Constant} : (∃ c, ConstantImage w c) ↔ w.Valid := by
  refine ⟨?_, ?_⟩
  · rintro ⟨c, -, ht, hv, -⟩
    exact ⟨c.type, ht, exists_constantValue?_iff.mp ⟨_, hv⟩⟩
  · rintro ⟨type, ht, hfits⟩
    obtain ⟨value, hv⟩ := exists_constantValue?_iff.mpr hfits
    exact ⟨⟨w.name, type, value, w.location⟩, rfl, ht, hv, rfl⟩

theorem none_mem_map_declares?_iff {ds : List Written.Declaration} :
    none ∈ ds.map declares? ↔ Written.protocolNamesIn ds ≠ [] := by
  rw [List.mem_map]
  refine ⟨?_, ?_⟩
  · rintro ⟨d, hd, hnone⟩
    obtain ⟨n, rfl⟩ := declares?_eq_none_iff.mp hnone
    exact List.ne_nil_of_mem (Written.mem_protocolNamesIn.mpr hd)
  · intro hne
    obtain ⟨n, hn⟩ := List.exists_mem_of_ne_nil _ hne
    exact ⟨.name n, Written.mem_protocolNamesIn.mp hn, rfl⟩

/-- The claimed names are distinct exactly when the protocol is named at most once and no two
messages, enums or constants share a name. -/
theorem nodup_map_declares?_iff {ds : List Written.Declaration} :
    (ds.map declares?).Nodup ↔
      (Written.protocolNamesIn ds).length ≤ 1 ∧ (ds.filterMap declares?).Nodup := by
  induction ds with
  | nil => simp [Written.protocolNamesIn]
  | cons d ds ih =>
    rw [List.map_cons, List.nodup_cons, ih]
    -- only a naming of the protocol claims `none`, and only it adds to `names`
    cases hd : declares? d with
    | none =>
      obtain ⟨n, rfl⟩ := declares?_eq_none_iff.mp hd
      have hnames : Written.protocolNamesIn (.name n :: ds) =
          n :: Written.protocolNamesIn ds := rfl
      rw [none_mem_map_declares?_iff, hnames, List.filterMap_cons_none hd, List.length_cons,
        not_ne_iff, ← List.length_eq_zero_iff]
      refine ⟨?_, ?_⟩
      · rintro ⟨hzero, -, hnodup⟩
        exact ⟨by omega, hnodup⟩
      · rintro ⟨hone, hnodup⟩
        exact ⟨by omega, by omega, hnodup⟩
    | some name =>
      have hnames : Written.protocolNamesIn (d :: ds) = Written.protocolNamesIn ds := by
        cases d with
        | name n => cases hd
        | _ => rfl
      rw [hnames, List.filterMap_cons_some hd, List.nodup_cons, List.mem_map, List.mem_filterMap]
      tauto

end Resolve

/-- **The checks accept exactly the valid declarations**, in either mode. -/
theorem ofDeclarations_accepts_iff_valid (mode : ErrorMode) (ds : List Written.Declaration) :
    (∃ s, Schema.ofDeclarations mode ds = .ok s) ↔ Written.Valid ds := by
  simp only [Schema.ofDeclarations_eq_ok_iff]
  refine ⟨?_, ?_⟩
  · rintro ⟨s, hd, hf, -, he, hm, hc⟩
    obtain ⟨hnamed, hnames⟩ := Resolve.nodup_map_declares?_iff.mp hd
    refine ⟨hnamed, hnames, ?_, ?_, ?_, ?_⟩
    · intro name hmem
      obtain ⟨d, hd, hdecl⟩ := List.mem_filterMap.mp hmem
      exact Primitive.ofName?_eq_none_iff.mp (hf d hd name hdecl)
    · intro e hmem
      exact Resolve.exists_enumImage_iff.mp
        (Resolve.exists_forall₂_iff.mp ⟨_, he⟩ e (Written.mem_enumsIn.mpr hmem))
    · intro m hmem
      exact Resolve.exists_messageImage_iff.mp
        (Resolve.exists_forall₂_iff.mp ⟨_, hm⟩ m (Written.mem_messagesIn.mpr hmem))
    · intro c hmem
      exact Resolve.exists_constantImage_iff.mp
        (Resolve.exists_forall₂_iff.mp ⟨_, hc⟩ c (Written.mem_constantsIn.mpr hmem))
  · rintro ⟨hnamed, hnames, hfree, he, hm, hc⟩
    obtain ⟨es, hes⟩ := Resolve.exists_forall₂_iff.mpr fun e hmem =>
      Resolve.exists_enumImage_iff.mpr (he e (Written.mem_enumsIn.mp hmem))
    obtain ⟨ms, hms⟩ := Resolve.exists_forall₂_iff.mpr fun m hmem =>
      Resolve.exists_messageImage_iff.mpr (hm m (Written.mem_messagesIn.mp hmem))
    obtain ⟨cs, hcs⟩ := Resolve.exists_forall₂_iff.mpr fun c hmem =>
      Resolve.exists_constantImage_iff.mpr (hc c (Written.mem_constantsIn.mp hmem))
    refine ⟨⟨_, ms, es, cs⟩, Resolve.nodup_map_declares?_iff.mpr ⟨hnamed, hnames⟩, ?_, rfl, hes,
      hms, hcs⟩
    intro d hd name hdecl
    exact Primitive.ofName?_eq_none_iff.mpr
      (hfree name (List.mem_filterMap.mpr ⟨d, hd, hdecl⟩))

end WireSchema
