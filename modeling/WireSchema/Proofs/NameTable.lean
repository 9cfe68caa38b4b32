import WireSchema.Proofs.Outcomes

/-!
# The table of names

While declarations are checked, every kept name is entered in a table together with what it stands
for: a message or an enum gets the number of messages or enums that were kept before it. A type word
is looked up in that table after all declarations have been checked, so the number has to be the
place of the declaration in the final list.

This is the **invariant of the table** (`DeclarationState.Binds`): the entry of a name is a message
at some index exactly when the kept message at that index has the name, and likewise for enums and
constants. Every step keeps it (`Binds.step`), hence every run (`Binds.run`), and
at the end a word names exactly the types that it names among the kept declarations
(`typeNamed_namesOf_iff`).
-/

namespace WireSchema

namespace Written

/-! ## Declarations by kind -/

variable (ds : List Declaration)

/-- The namings of the protocol, in the order of the text. -/
def protocolNamesIn : List ProtocolName :=
  ds.filterMap fun | .name n => some n | _ => none

/-- The constants, in the order of the text. -/
def constantsIn : List Constant :=
  ds.filterMap fun | .constant c => some c | _ => none

/-- The enums, in the order of the text. -/
def enumsIn : List Enum :=
  ds.filterMap fun | .enum e => some e | _ => none

/-- The messages, in the order of the text. -/
def messagesIn : List Message :=
  ds.filterMap fun | .message m => some m | _ => none

/-- The declarations are sorted by kind. -/
theorem sorted_eq : Resolve.Sorted.ofDeclarations ds =
    ⟨protocolNamesIn ds, constantsIn ds, enumsIn ds, messagesIn ds⟩ :=
  rfl

variable {ds}

/-- What a selection with an inverse picks out of a list. -/
theorem mem_filterMap_iff_of_inverse {α β : Type} {f : α → Option β} {g : β → α}
    (h : ∀ a b, f a = some b ↔ a = g b) {as : List α} {b : β} :
    b ∈ as.filterMap f ↔ g b ∈ as := by
  rw [List.mem_filterMap]
  refine ⟨?_, ?_⟩
  · rintro ⟨a, ha, hab⟩
    rw [(h a b).mp hab] at ha
    exact ha
  · exact fun hb => ⟨g b, hb, (h _ b).mpr rfl⟩

theorem mem_protocolNamesIn {n : ProtocolName} : n ∈ protocolNamesIn ds ↔ .name n ∈ ds :=
  mem_filterMap_iff_of_inverse fun d _ => by cases d <;> simp

theorem mem_constantsIn {c : Constant} : c ∈ constantsIn ds ↔ .constant c ∈ ds :=
  mem_filterMap_iff_of_inverse fun d _ => by cases d <;> simp

theorem mem_enumsIn {e : Enum} : e ∈ enumsIn ds ↔ .enum e ∈ ds :=
  mem_filterMap_iff_of_inverse fun d _ => by cases d <;> simp

theorem mem_messagesIn {m : Message} : m ∈ messagesIn ds ↔ .message m ∈ ds :=
  mem_filterMap_iff_of_inverse fun d _ => by cases d <;> simp

/-- A selection with an inverse from items with distinct keys has distinct keys. -/
theorem nodup_map_filterMap {α β κ κ' : Type} {f : α → Option β} {g : β → α}
    (h : ∀ a b, f a = some b → a = g b) {key : α → κ} {name : β → κ'}
    (hkey : ∀ b b', name b = name b' → key (g b) = key (g b')) {as : List α}
    (hd : (as.map key).Nodup) : ((as.filterMap f).map name).Nodup := by
  rw [List.Nodup, List.pairwise_map] at hd ⊢
  rw [List.pairwise_filterMap]
  refine hd.imp fun {a a'} hne b hb b' hb' hname => hne ?_
  rw [h a b hb, h a' b' hb', hkey b b' hname]

/-- Distinct declarations have enums with distinct names. -/
theorem nodup_enumNames (h : (ds.map Resolve.declares?).Nodup) :
    ((enumsIn ds).map (·.name)).Nodup := by
  refine nodup_map_filterMap (g := Declaration.enum) (fun d e hd => ?_) (fun e e' hname => ?_) h
  · cases d <;> simp_all
  · exact congrArg some hname

theorem nodup_messageNames (h : (ds.map Resolve.declares?).Nodup) :
    ((messagesIn ds).map (·.name)).Nodup := by
  refine nodup_map_filterMap (g := Declaration.message) (fun d m hd => ?_)
    (fun m m' hname => ?_) h
  · cases d <;> simp_all
  · exact congrArg some hname

/-! ## What a word stands for -/

variable (ds)

/-- What a name stands for among declarations, said of the lists themselves. -/
def StandsFor (name : String) : Resolve.Slot → Prop
  | .message index => ∃ m, (messagesIn ds)[index]? = some m ∧ m.name = name
  | .enum index => ∃ e, (enumsIn ds)[index]? = some e ∧ e.name = name
  | .constant => ∃ c, .constant c ∈ ds ∧ c.name = name

/-- The types that a word names among declarations. -/
def Names (word : String) : TypeRef → Prop
  | .primitive p => p.name = word
  | .message index => ∃ m, (messagesIn ds)[index]? = some m ∧ m.name = word
  | .enum index => ∃ e, (enumsIn ds)[index]? = some e ∧ e.name = word

/-- The item at an index of a list that has grown by one. -/
theorem exists_getElem?_concat_iff {α : Type} {as : List α} {a : α} {index : Nat} {P : α → Prop} :
    (∃ b, (as ++ [a])[index]? = some b ∧ P b) ↔
      (∃ b, as[index]? = some b ∧ P b) ∨ index = as.length ∧ P a := by
  rcases Nat.lt_trichotomy index as.length with h | rfl | h
  · rw [List.getElem?_append_left h]
    exact ⟨.inl, fun hb => hb.resolve_right fun ha => absurd ha.1 (Nat.ne_of_lt h)⟩
  · rw [List.getElem?_concat_length, List.getElem?_eq_none (Nat.le_refl _)]
    simp
  · rw [List.getElem?_eq_none (by rw [List.length_append]; exact h),
      List.getElem?_eq_none (Nat.le_of_lt h)]
    simp [Nat.ne_of_gt h]

/-- One more message: its name stands for it, and the others for what they stood for. -/
theorem standsFor_concat_message (m : Message) (name : String) (slot : Resolve.Slot) :
    StandsFor (ds ++ [.message m]) name slot ↔
      StandsFor ds name slot ∨ slot = .message (messagesIn ds).length ∧ m.name = name := by
  have hmessages : messagesIn (ds ++ [.message m]) = messagesIn ds ++ [m] := List.filterMap_append
  have henums : enumsIn (ds ++ [.message m]) = enumsIn ds ++ [] := List.filterMap_append
  cases slot with
  | message index =>
    simp only [StandsFor, hmessages, exists_getElem?_concat_iff, Resolve.Slot.message.injEq]
  | enum index => simp [StandsFor, henums]
  | constant => simp [StandsFor]

/-- One more enum. -/
theorem standsFor_concat_enum (e : Enum) (name : String) (slot : Resolve.Slot) :
    StandsFor (ds ++ [.enum e]) name slot ↔
      StandsFor ds name slot ∨ slot = .enum (enumsIn ds).length ∧ e.name = name := by
  have hmessages : messagesIn (ds ++ [.enum e]) = messagesIn ds ++ [] := List.filterMap_append
  have henums : enumsIn (ds ++ [.enum e]) = enumsIn ds ++ [e] := List.filterMap_append
  cases slot with
  | message index => simp [StandsFor, hmessages]
  | enum index => simp only [StandsFor, henums, exists_getElem?_concat_iff, Resolve.Slot.enum.injEq]
  | constant => simp [StandsFor]

/-- One more constant. -/
theorem standsFor_concat_constant (c : Constant) (name : String) (slot : Resolve.Slot) :
    StandsFor (ds ++ [.constant c]) name slot ↔
      StandsFor ds name slot ∨ slot = .constant ∧ c.name = name := by
  have hmessages : messagesIn (ds ++ [.constant c]) = messagesIn ds ++ [] := List.filterMap_append
  have henums : enumsIn (ds ++ [.constant c]) = enumsIn ds ++ [] := List.filterMap_append
  cases slot with
  | message index => simp [StandsFor, hmessages]
  | enum index => simp [StandsFor, henums]
  | constant => simp [StandsFor, or_and_right, exists_or]

theorem standsFor_concat_name (n : ProtocolName) (name : String) (slot : Resolve.Slot) :
    StandsFor (ds ++ [.name n]) name slot ↔ StandsFor ds name slot := by
  have hmessages : messagesIn (ds ++ [.name n]) = messagesIn ds ++ [] := List.filterMap_append
  have henums : enumsIn (ds ++ [.name n]) = enumsIn ds ++ [] := List.filterMap_append
  cases slot with
  | message index => simp [StandsFor, hmessages]
  | enum index => simp [StandsFor, henums]
  | constant => simp [StandsFor]

end Written

namespace Resolve

open Written (messagesIn enumsIn StandsFor)

/-! ## The invariant of the table -/

/-- The state is that of a run that has kept the declarations `ds`. -/
structure DeclarationState.Binds (st : DeclarationState) (ds : List Written.Declaration) :
    Prop where
  /-- the next message goes to the end of the messages -/
  messages : st.messages = (messagesIn ds).length
  /-- the next enum goes to the end of the enums -/
  enums : st.enums = (enumsIn ds).length
  /-- a name is in the table with what it stands for -/
  slot_iff : ∀ name slot,
    (st.names.lookup name).map (·.slot) = some slot ↔ StandsFor ds name slot
  /-- no name in the table is reserved -/
  free : ∀ name, (st.names.lookup name).isSome → Primitive.ofName? name = none

theorem DeclarationState.binds_nil : DeclarationState.Binds {} [] where
  messages := rfl
  enums := rfl
  slot_iff name slot := by cases slot <;> simp [StandsFor, messagesIn, enumsIn]
  free name h := by cases h

/-- The tables after a new name has been entered. -/
theorem DeclarationState.Binds.enter {st : DeclarationState} {ds : List Written.Declaration}
    (h : st.Binds ds) {name : String} {entry : NameEntry} {d : Written.Declaration}
    (hfree : Primitive.ofName? name = none) (hnew : st.names.lookup name = none)
    (hmessages : (st.enter name entry).messages = (messagesIn (ds ++ [d])).length)
    (henums : (st.enter name entry).enums = (enumsIn (ds ++ [d])).length)
    (hslot : ∀ name' slot, StandsFor (ds ++ [d]) name' slot ↔
      StandsFor ds name' slot ∨ slot = entry.slot ∧ name = name') :
    (st.enter name entry).Binds (ds ++ [d]) := by
  refine ⟨hmessages, henums, fun name' slot => ?_, fun name' hsome => ?_⟩
  · rw [hslot, ← h.slot_iff, names_enter]
    by_cases hname : name = name'
    · -- the name was free, so it stands for nothing but the new declaration
      subst hname
      rw [List.lookup_cons_self, hnew]
      simp [eq_comm]
    · rw [List.lookup_cons, beq_false_of_ne (Ne.symm hname)]
      simp [hname]
  · rw [names_enter] at hsome
    by_cases hname : name = name'
    · exact hname ▸ hfree
    · rw [List.lookup_cons, beq_false_of_ne (Ne.symm hname)] at hsome
      exact h.free name' hsome

/-- A check of a name keeps the invariant, if the new entry does. -/
theorem DeclarationState.Binds.stepName {st : DeclarationState} {ds : List Written.Declaration}
    (h : st.Binds ds) {name : String} {entry : NameEntry} {d : Written.Declaration}
    (hmessages : (st.enter name entry).messages = (messagesIn (ds ++ [d])).length)
    (henums : (st.enter name entry).enums = (enumsIn (ds ++ [d])).length)
    (hslot : ∀ name' slot, StandsFor (ds ++ [d]) name' slot ↔
      StandsFor ds name' slot ∨ slot = entry.slot ∧ name = name') :
    (checkName st name entry d).1.Binds
      (ds ++ (checkName st name entry d).2.toOption.toList) := by
  unfold checkName
  cases hp : Primitive.ofName? name with
  | some p => simpa [report, Except.toOption] using h
  | none =>
    cases hl : st.names.lookup name with
    | some first => simpa [report, Except.toOption] using h
    | none => exact h.enter hp hl hmessages henums hslot

/-- **A step keeps the invariant of the table.** -/
theorem DeclarationState.Binds.step {st : DeclarationState}
    {ds : List Written.Declaration} (h : st.Binds ds) (d : Written.Declaration) :
    (checkDeclaration st d).1.Binds (ds ++ (checkDeclaration st d).2.toOption.toList) := by
  cases d with
  | name n =>
    unfold checkDeclaration
    cases hn : st.named with
    | true => simpa [report, Except.toOption] using h
    | false =>
      have hslot : ∀ name slot, _ := fun name slot =>
        (h.slot_iff name slot).trans (Written.standsFor_concat_name ds n name slot).symm
      refine ⟨?_, ?_, hslot, h.free⟩
      · simpa [Except.toOption, messagesIn] using h.messages
      · simpa [Except.toOption, enumsIn] using h.enums
  | constant c =>
    refine h.stepName ?_ ?_ (Written.standsFor_concat_constant ds c)
    · simpa [DeclarationState.enter, messagesIn] using h.messages
    · simpa [DeclarationState.enter, enumsIn] using h.enums
  | enum e =>
    refine h.stepName ?_ ?_ (h.enums ▸ Written.standsFor_concat_enum ds e)
    · simpa [DeclarationState.enter, messagesIn] using h.messages
    · simpa [DeclarationState.enter, enumsIn] using h.enums
  | message m =>
    refine h.stepName ?_ ?_ (h.messages ▸ Written.standsFor_concat_message ds m)
    · simpa [DeclarationState.enter, messagesIn] using h.messages
    · simpa [DeclarationState.enter, enumsIn] using h.enums

/-- **A run keeps the invariant of the table.** -/
theorem DeclarationState.Binds.run {st : DeclarationState}
    {before : List Written.Declaration} (h : st.Binds before) (ds : List Written.Declaration) :
    (stateAfter checkDeclaration st ds).Binds
      (before ++ kept (outcomes checkDeclaration st ds)) := by
  induction ds generalizing st before with
  | nil => simpa [stateAfter, outcomes, kept] using h
  | cons d ds ih =>
    have hkept : kept (outcomes checkDeclaration st (d :: ds)) =
        (checkDeclaration st d).2.toOption.toList ++
          kept (outcomes checkDeclaration (checkDeclaration st d).1 ds) := by
      rw [outcomes, kept, List.filterMap_cons]
      cases (checkDeclaration st d).2 <;> rfl
    rw [hkept, ← List.append_assoc]
    exact ih (h.step d)

/-- An entry has a type exactly when its slot is the one that has that type. -/
theorem bind_type?_eq_some_iff {found : Option NameEntry} {slot : Slot} {type : TypeRef}
    (h : slot.type? = some type) :
    found.bind (·.slot.type?) = some type ↔ found.map (·.slot) = some slot := by
  obtain _ | ⟨_, slot'⟩ := found
  · simp
  · cases slot <;> cases h <;> cases slot' <;> simp [Slot.type?]

theorem bind_type?_ne_primitive {found : Option NameEntry} {p : Primitive} :
    found.bind (·.slot.type?) ≠ some (.primitive p) := by
  obtain _ | ⟨_, slot⟩ := found
  · simp
  · cases slot <;> simp [Slot.type?]

/-- A name that stands for something is not reserved. -/
theorem DeclarationState.Binds.free_of_standsFor {st : DeclarationState}
    {ds : List Written.Declaration} (h : st.Binds ds) {name : String} {slot : Slot}
    (hslot : StandsFor ds name slot) : Primitive.ofName? name = none := by
  refine h.free name ?_
  rw [← Option.isSome_map, (h.slot_iff name slot).mpr hslot]
  rfl

/-- **A word names what it names among the kept declarations.** -/
theorem typeNamed_namesOf_iff (ds : List Written.Declaration) (word : String) (type : TypeRef) :
    TypeNamed (namesOf ds) word type ↔
      Written.Names (kept (declarationOutcomes ds)) word type := by
  have hbinds : (stateAfter checkDeclaration {} ds).Binds (kept (declarationOutcomes ds)) :=
    DeclarationState.binds_nil.run ds
  rw [TypeNamed, namesOf, type?]
  cases hp : Primitive.ofName? word with
  | some p =>
    -- a reserved word is not in the table
    have hnone : ∀ slot, ¬ StandsFor (kept (declarationOutcomes ds)) word slot := by
      intro slot hslot
      rw [hbinds.free_of_standsFor hslot] at hp
      cases hp
    cases type with
    | primitive q =>
      rw [Option.some.injEq, TypeRef.primitive.injEq, ← Option.some.injEq p q, ← hp]
      exact Primitive.ofName?_eq_some_iff
    | message index => exact iff_of_false (by simp) (hnone (.message index))
    | enum index => exact iff_of_false (by simp) (hnone (.enum index))
  | none =>
    cases type with
    | primitive q =>
      exact iff_of_false bind_type?_ne_primitive (Primitive.ofName?_eq_none_iff.mp hp q)
    | message index =>
      exact (bind_type?_eq_some_iff rfl).trans (hbinds.slot_iff word (.message index))
    | enum index =>
      exact (bind_type?_eq_some_iff rfl).trans (hbinds.slot_iff word (.enum index))

/-- **The table of names knows the types that the kept declarations declare.** -/
theorem typeNamed_namesOf (ds : List Written.Declaration) :
    TypeNamed (namesOf ds) = Written.Names (kept (declarationOutcomes ds)) :=
  funext fun word => funext fun type => propext (typeNamed_namesOf_iff ds word type)

end Resolve

end WireSchema
