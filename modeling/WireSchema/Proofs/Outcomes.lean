import Mathlib.Data.List.Forall2
import WireSchema.Schema.Resolve

/-!
# Runs of a check that report nothing

The checks of a schema run over their items from left to right and carry what earlier items have
taken. All three of them are **keyed**: an item claims some keys, and it is kept exactly when it is
fine in itself and none of its keys is taken (`Keyed`).

* declarations claim their name, and the protocol's name claims a key of its own;
* variants claim their label and their value;
* fields claim their tag and their name.

A run of a keyed check keeps everything exactly when every item is fine in itself and no two items
claim the same key (`Keyed.outcomes_eq_map_ok_iff`). The state and its tables are gone from that
statement, so what is proved from it does not depend on the order of the checks.
-/

namespace WireSchema

/-! ## Words for primitive types -/

theorem Primitive.ofName?_name (p : Primitive) : ofName? p.name = some p := by
  cases p <;> decide

/-- A word names at most one primitive type. -/
theorem Primitive.ofName?_eq_some_iff {word : String} {p : Primitive} :
    ofName? word = some p ↔ p.name = word := by
  refine ⟨?_, ?_⟩
  · intro h
    simpa using List.find?_some h
  · rintro rfl
    exact ofName?_name p

theorem Primitive.ofName?_eq_none_iff {word : String} :
    ofName? word = none ↔ ∀ p : Primitive, p.name ≠ word := by
  rw [Option.eq_none_iff_forall_ne_some]
  exact forall_congr' fun p => not_congr ofName?_eq_some_iff

namespace Resolve

variable {σ α β κ : Type}

/-! ## Keyed checks -/

@[simp] theorem kept_map_ok (bs : List β) : kept (bs.map (.ok : β → Outcome β)) = bs := by
  induction bs with
  | nil => rfl
  | cons b bs ih => simpa [kept, Except.toOption] using ih

/-- Nothing is reported exactly when every item is kept. -/
theorem reported_eq_nil_iff (rs : List (Outcome β)) :
    reported rs = [] ↔ ∃ bs : List β, rs = bs.map .ok := by
  induction rs with
  | nil => simp [reported]
  | cons r rs ih =>
    cases r with
    | error d =>
      change d :: reported rs = [] ↔ _
      refine ⟨?_, ?_⟩
      · intro h
        cases h
      · rintro ⟨bs, h⟩
        cases bs <;> simp at h
    | ok b =>
      change reported rs = [] ↔ _
      rw [ih]
      refine ⟨?_, ?_⟩
      · rintro ⟨bs, rfl⟩
        exact ⟨b :: bs, rfl⟩
      · rintro ⟨bs, h⟩
        cases bs with
        | nil => simp at h
        | cons b' bs => exact ⟨bs, (List.cons.inj h).2⟩

/-- What a keyed check does. `Image a b` says that the item `a` is fine in itself and becomes `b`;
nothing is said about the state after an item that is reported. -/
structure Keyed (check : σ → α → σ × Outcome β) (Image : α → β → Prop) (keys : α → List κ)
    (taken : σ → List κ) : Prop where
  /-- an item is kept if it is fine in itself and its keys are free -/
  ok_iff : ∀ st a b, (check st a).2 = .ok b ↔ Image a b ∧ ∀ k ∈ keys a, k ∉ taken st
  /-- the keys of a kept item are taken afterwards -/
  taken_step : ∀ st a b, (check st a).2 = .ok b →
    ∀ k, k ∈ taken (check st a).1 ↔ k ∈ keys a ∨ k ∈ taken st

/-- **A keyed check keeps everything** exactly when every item is fine in itself, no item claims a
key that was taken at the start, and no two items claim the same key. -/
theorem Keyed.outcomes_eq_map_ok_iff {check : σ → α → σ × Outcome β} {Image : α → β → Prop}
    {keys : α → List κ} {taken : σ → List κ} (hc : Keyed check Image keys taken)
    (st : σ) (as : List α) (bs : List β) :
    outcomes check st as = bs.map .ok ↔
      List.Forall₂ Image as bs ∧ (∀ a ∈ as, ∀ k ∈ keys a, k ∉ taken st) ∧
        as.Pairwise fun a a' => ∀ k ∈ keys a', k ∉ keys a := by
  -- the state changes from item to item, so the keys it starts with are part of the statement
  induction as generalizing st bs with
  | nil => cases bs <;> simp [outcomes]
  | cons a as ih =>
    cases bs with
    | nil => simp [outcomes]
    | cons b bs =>
      rw [outcomes, List.map_cons, List.cons.injEq, ih, List.forall₂_cons, List.pairwise_cons,
        hc.ok_iff]
      refine ⟨?_, ?_⟩
      · rintro ⟨⟨hi, hf⟩, hall, hst, hp⟩
        have hstep := hc.taken_step st a b ((hc.ok_iff st a b).mpr ⟨hi, hf⟩)
        refine ⟨⟨hi, hall⟩, ?_, ?_, hp⟩
        · intro a' ha' k hk
          rcases List.mem_cons.mp ha' with rfl | ha'
          · exact hf k hk
          · exact fun ht => hst a' ha' k hk ((hstep k).mpr (.inr ht))
        · exact fun a' ha' k hk hka => hst a' ha' k hk ((hstep k).mpr (.inl hka))
      · rintro ⟨⟨hi, hall⟩, hst, hne, hp⟩
        have hf : ∀ k ∈ keys a, k ∉ taken st := hst a (List.mem_cons_self ..)
        have hstep := hc.taken_step st a b ((hc.ok_iff st a b).mpr ⟨hi, hf⟩)
        refine ⟨⟨hi, hf⟩, hall, ?_, hp⟩
        intro a' ha' k hk ht
        rcases (hstep k).mp ht with hka | ht
        · exact hne a' ha' k hk hka
        · exact hst a' (List.mem_cons_of_mem _ ha') k hk ht

/-- A run that starts with nothing taken. -/
theorem Keyed.outcomes_eq_map_ok_iff_of_fresh {check : σ → α → σ × Outcome β}
    {Image : α → β → Prop} {keys : α → List κ} {taken : σ → List κ}
    (hc : Keyed check Image keys taken) {st : σ} (hst : taken st = []) (as : List α)
    (bs : List β) :
    outcomes check st as = bs.map .ok ↔
      List.Forall₂ Image as bs ∧ as.Pairwise fun a a' => ∀ k ∈ keys a', k ∉ keys a := by
  rw [hc.outcomes_eq_map_ok_iff st as bs, hst]
  simp

/-- A table has no entry for a key exactly when the key is not among its keys. -/
theorem lookup_eq_none_iff_notMem_keys {ι ν : Type} [BEq ι] [LawfulBEq ι] {key : ι}
    {table : List (ι × ν)} : table.lookup key = none ↔ key ∉ table.map Prod.fst := by
  rw [List.lookup_eq_none_iff]
  refine ⟨?_, ?_⟩
  · intro h hmem
    obtain ⟨p, hp, rfl⟩ := List.mem_map.mp hmem
    simpa using h p hp
  · intro h p hp
    refine bne_iff_ne.mpr ?_
    rintro rfl
    exact h (List.mem_map_of_mem hp)

/-! ## Declarations -/

/-- The name that a declaration claims in the namespace of messages, enums and constants. -/
def declares? : Written.Declaration → Option String
  | .name _ => none
  | .constant c => some c.name
  | .enum e => some e.name
  | .message m => some m.name

/-- What earlier declarations have taken; `none` stands for the protocol's name. -/
def DeclarationState.taken (st : DeclarationState) : List (Option String) :=
  (if st.named then [none] else []) ++ (st.names.map Prod.fst).map some

theorem DeclarationState.none_mem_taken {st : DeclarationState} :
    none ∈ st.taken ↔ st.named = true := by
  simp [taken]

theorem DeclarationState.some_mem_taken {st : DeclarationState} {name : String} :
    some name ∈ st.taken ↔ name ∈ st.names.map Prod.fst := by
  simp [taken]

@[simp] theorem DeclarationState.named_enter (st : DeclarationState) (name : String)
    (entry : NameEntry) : (st.enter name entry).named = st.named := by
  unfold enter
  cases entry.slot <;> rfl

@[simp] theorem DeclarationState.names_enter (st : DeclarationState) (name : String)
    (entry : NameEntry) : (st.enter name entry).names = (name, entry) :: st.names := by
  unfold enter
  cases entry.slot <;> rfl

/-- The part of the check that messages, enums and constants share. -/
theorem checkName_keyed {st : DeclarationState} {name : String} {entry : NameEntry}
    {d d' : Written.Declaration} :
    ((checkName st name entry d).2 = .ok d' ↔
      (Primitive.ofName? name = none ∧ d = d') ∧ some name ∉ st.taken) ∧
    ((checkName st name entry d).2 = .ok d' →
      ∀ k, k ∈ (checkName st name entry d).1.taken ↔ k = some name ∨ k ∈ st.taken) := by
  rw [DeclarationState.some_mem_taken, ← lookup_eq_none_iff_notMem_keys]
  unfold checkName
  cases hp : Primitive.ofName? name with
  | some p => simp [report]
  | none =>
    cases hl : st.names.lookup name with
    | some first => simp [report]
    | none =>
      refine ⟨by simp, ?_⟩
      rintro - (_ | name')
      · simp [DeclarationState.none_mem_taken]
      · simp only [Option.isSome_none, Bool.false_eq_true, if_false,
          DeclarationState.some_mem_taken, DeclarationState.names_enter, List.map_cons,
          List.mem_cons, Option.some.injEq]

/-- Declarations claim the names they declare; the words for primitive types are reserved. -/
theorem checkDeclaration_keyed :
    Keyed checkDeclaration
      (fun d d' => (∀ name, declares? d = some name → Primitive.ofName? name = none) ∧ d = d')
      (fun d => [declares? d]) DeclarationState.taken where
  ok_iff st d d' := by
    cases d with
    | name n =>
      cases hn : st.named <;> simp [checkDeclaration, declares?, DeclarationState.taken, hn, report]
    | constant c => simpa [checkDeclaration, declares?] using checkName_keyed.1
    | enum e => simpa [checkDeclaration, declares?] using checkName_keyed.1
    | message m => simpa [checkDeclaration, declares?] using checkName_keyed.1
  taken_step st d d' := by
    cases d with
    | name n =>
      cases hn : st.named <;> simp [checkDeclaration, declares?, DeclarationState.taken, hn, report]
    | constant c => simpa [checkDeclaration, declares?] using checkName_keyed.2
    | enum e => simpa [checkDeclaration, declares?] using checkName_keyed.2
    | message m => simpa [checkDeclaration, declares?] using checkName_keyed.2

/-! ## Variants -/

/-- What a variant claims: its label and its value. -/
def variantKeys (v : Written.Variant) : List (String ⊕ Int) :=
  [.inl v.label, .inr v.value]

/-- What earlier variants have taken. -/
def VariantState.taken (st : VariantState) : List (String ⊕ Int) :=
  st.labels.map .inl ++ (st.values.map Prod.fst).map .inr

theorem VariantState.inl_mem_taken {st : VariantState} {label : String} :
    .inl label ∈ st.taken ↔ label ∈ st.labels := by
  simp [taken]

theorem VariantState.inr_mem_taken {st : VariantState} {value : Int} :
    .inr value ∈ st.taken ↔ value ∈ st.values.map Prod.fst := by
  simp [taken]

/-- A variant that is fine in itself, and what it becomes. -/
structure VariantImage (w : Written.Variant) (v : Variant) : Prop where
  fits : fitsEnum w.value = true
  eq : v = { label := w.label, value := w.value, location := w.location }

/-- Variants claim their labels and their values. -/
theorem checkVariant_keyed (enum : String) :
    Keyed (checkVariant enum) VariantImage variantKeys VariantState.taken where
  ok_iff st w v := by
    -- the keys are free exactly if neither check for duplicates fails
    have hfree : (∀ k ∈ variantKeys w, k ∉ st.taken) ↔
        w.label ∉ st.labels ∧ st.values.lookup w.value = none := by
      simp only [variantKeys, List.forall_mem_cons, VariantState.inl_mem_taken,
        VariantState.inr_mem_taken, lookup_eq_none_iff_notMem_keys, List.not_mem_nil, false_imp_iff,
        implies_true, and_true]
    rw [hfree]
    unfold checkVariant
    by_cases hl : w.label ∈ st.labels
    · simp [hl, report]
    · cases hf : fitsEnum w.value with
      | false =>
        have hno : ¬ VariantImage w v := fun h => by simp [h.fits] at hf
        simp [hl, hno, report]
      | true =>
        have himage : VariantImage w v ↔
            { label := w.label, value := w.value, location := w.location } = v :=
          ⟨fun h => h.eq.symm, fun h => ⟨hf, h.symm⟩⟩
        cases hv : st.values.lookup w.value <;> simp [hl, hv, himage, report]
  taken_step st w v := by
    unfold checkVariant
    by_cases hl : w.label ∈ st.labels
    · simp [hl, report]
    · cases hf : fitsEnum w.value with
      | false => simp [hl, report]
      | true =>
        cases hv : st.values.lookup w.value with
        | some other => simp [hl, hv, report]
        | none =>
          simp only [hl, hv, List.contains_eq_mem, decide_false, Bool.false_eq_true, if_false,
            Bool.not_true]
          rintro - (label | value)
          · simp [variantKeys, VariantState.inl_mem_taken]
          · rw [VariantState.inr_mem_taken, VariantState.inr_mem_taken, List.map_cons,
              List.mem_cons]
            simp [variantKeys]

/-! ## Fields -/

/-- What a field claims: its tag and its name. -/
def fieldKeys (f : Written.Field) : List (Int ⊕ String) :=
  [.inl f.tag, .inr f.name]

/-- What earlier fields have taken. -/
def FieldState.taken (st : FieldState) : List (Int ⊕ String) :=
  (st.tags.map Prod.fst).map (fun tag => .inl (tag : Int)) ++ st.names.map .inr

theorem FieldState.inl_mem_taken {st : FieldState} {tag : Nat} :
    .inl (tag : Int) ∈ st.taken ↔ tag ∈ st.tags.map Prod.fst := by
  simp only [taken, List.mem_append, List.mem_map, Sum.inl.injEq, Int.natCast_inj, reduceCtorEq,
    and_false, exists_false, or_false, exists_eq_right]

theorem FieldState.inr_mem_taken {st : FieldState} {name : String} :
    .inr name ∈ st.taken ↔ name ∈ st.names := by
  simp [taken]

/-- The words that stand for a modifier. -/
def modifierWords : Modifier → List Written.ModifierWord
  | .single => []
  | .optional => [.optional]
  | .repeated => [.repeated]

/-- A field that is fine in itself, and what it becomes; `Names` says which types a word names. -/
structure FieldImage (Names : String → TypeRef → Prop) (w : Written.Field) (f : Field) :
    Prop where
  name : f.name = w.name
  tag : tag? w.tag = some f.tag
  modifier : w.modifiers.map (·.word) = modifierWords f.modifier
  type : Names w.type f.type
  location : f.location = w.location

theorem modifierOf_eq_ok_iff {message : String} {w : Written.Field} {m : Modifier} :
    modifierOf message w = .ok m ↔ w.modifiers.map (·.word) = modifierWords m := by
  unfold modifierOf
  rcases w.modifiers with _ | ⟨⟨word, loc⟩, _ | ⟨second, rest⟩⟩
  · cases m <;> simp [modifierWords]
  · cases word <;> cases m <;> simp [modifierWords]
  · cases m <;> simp [modifierWords, report]

/-- The table of names says that the word names the type. -/
def TypeNamed (names : NameTable) (word : String) (type : TypeRef) : Prop :=
  type? names word = some type

theorem typeOf_eq_ok_iff {names : NameTable} {message : String} {w : Written.Field}
    {type : TypeRef} : typeOf names message w = .ok type ↔ type? names w.type = some type := by
  unfold typeOf
  cases type? names w.type <;> simp [report]

theorem fieldOf_eq_ok_iff {names : NameTable} {message : String} {w : Written.Field} {tag : Nat}
    {f : Field} :
    fieldOf names message w tag = .ok f ↔
      modifierOf message w = .ok f.modifier ∧ typeOf names message w = .ok f.type ∧
        f.name = w.name ∧ f.tag = tag ∧ f.location = w.location := by
  obtain ⟨name, type, tag', modifier, location⟩ := f
  unfold fieldOf
  cases modifierOf message w with
  | error d => simp [bind, Except.bind]
  | ok m =>
    cases typeOf names message w with
    | error d => simp [bind, Except.bind]
    | ok t =>
      simp only [bind, Except.bind, pure, Except.pure, Except.ok.injEq, Field.mk.injEq]
      grind

theorem tag?_eq_some_iff {value : Int} {tag : Nat} :
    tag? value = some tag ↔ value = tag ∧ 1 ≤ tag ∧ tag ≤ greatestTag := by
  unfold tag?
  split <;> grind

/-- Fields claim their tags and their names. -/
theorem checkField_keyed (names : NameTable) (message : String) :
    Keyed (checkField names message) (FieldImage (TypeNamed names)) fieldKeys FieldState.taken where
  ok_iff st w f := by
    unfold checkField
    cases ht : tag? w.tag with
    | none =>
      have hno : ¬ FieldImage (TypeNamed names) w f := fun h => by simp [h.tag] at ht
      simp [hno, report]
    | some tag =>
      obtain ⟨htag, -⟩ := tag?_eq_some_iff.mp ht
      have hfree : (∀ k ∈ fieldKeys w, k ∉ st.taken) ↔
          st.tags.lookup tag = none ∧ w.name ∉ st.names := by
        simp only [fieldKeys, htag, List.forall_mem_cons, FieldState.inl_mem_taken,
          FieldState.inr_mem_taken, lookup_eq_none_iff_notMem_keys, List.not_mem_nil, false_imp_iff,
          implies_true, and_true]
      have himage : FieldImage (TypeNamed names) w f ↔ fieldOf names message w tag = .ok f := by
        rw [fieldOf_eq_ok_iff, modifierOf_eq_ok_iff, typeOf_eq_ok_iff]
        refine ⟨?_, ?_⟩
        · rintro ⟨hn, hw, hm, hy, hloc⟩
          exact ⟨hm, hy, hn, Option.some.inj (hw.symm.trans ht), hloc⟩
        · rintro ⟨hm, hy, hn, hw, hloc⟩
          exact ⟨hn, hw ▸ ht, hm, hy, hloc⟩
      rw [hfree, himage]
      cases hl : st.tags.lookup tag with
      | some other => simp [hl, report]
      | none => by_cases hn : w.name ∈ st.names <;> simp [hl, hn, report]
  taken_step st w f := by
    unfold checkField
    cases ht : tag? w.tag with
    | none => simp [report]
    | some tag =>
      obtain ⟨htag, -⟩ := tag?_eq_some_iff.mp ht
      cases hl : st.tags.lookup tag with
      | some other => simp [hl, report]
      | none =>
        by_cases hn : w.name ∈ st.names
        · simp [hl, hn, report]
        · rintro - (value | name)
          · simp [hl, hn, fieldKeys, htag, FieldState.taken]
          · simp [hl, hn, fieldKeys, FieldState.inr_mem_taken]

end Resolve

end WireSchema
