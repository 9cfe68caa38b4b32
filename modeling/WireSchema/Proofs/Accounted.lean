import Mathlib.Data.List.Perm.Basic
import WireSchema.Proofs.Faults

/-!
# Every item is kept or reported

A run over declarations gives every declaration, and every variant and field of a declaration that
is kept, an **account** (`Account`): it is kept, or it is dropped with one diagnostic. What is
proved of the accounts (`Accounted`):

* the schema that is built is what the kept items become, item by item, and nothing else;
* the diagnostics are those of the dropped items, one for each;
* every diagnostic is a fault of its item, after the items before it.
-/

namespace WireSchema

namespace Resolve

open Written (protocolNamesIn constantsIn enumsIn messagesIn)

variable {σ α β κ : Type}

/-! ## The items that are kept -/

/-- **The items that a keyed check keeps** are fine in themselves and claim different keys; what
they become is what the run keeps. -/
theorem Keyed.survivors {check : σ → α → σ × Outcome β} {Image : α → β → Prop}
    {keys : α → List κ} {taken : σ → List κ} (hc : Keyed check Image keys taken)
    (hgrow : ∀ st a k, k ∈ taken st → k ∈ taken (check st a).1) (st : σ) (as : List α) :
    List.Forall₂ Image ((judged as (outcomes check st as)).filterMap Judged.kept?)
        (kept (outcomes check st as)) ∧
      (∀ a ∈ (judged as (outcomes check st as)).filterMap Judged.kept?,
        ∀ k ∈ keys a, k ∉ taken st) ∧
      ((judged as (outcomes check st as)).filterMap Judged.kept?).Pairwise
        fun a a' => ∀ k ∈ keys a', k ∉ keys a := by
  induction as generalizing st with
  | nil => exact ⟨.nil, List.forall_mem_nil _, .nil⟩
  | cons a as ih =>
    obtain ⟨himages, hfree, hdistinct⟩ := ih (check st a).1
    have hfree' : ∀ a' ∈ (judged as (outcomes check (check st a).1 as)).filterMap Judged.kept?,
        ∀ k ∈ keys a', k ∉ taken st :=
      fun a' ha' k hk htaken => hfree a' ha' k hk (hgrow st a k htaken)
    rw [judged_cons, outcomes]
    cases hr : (check st a).2 with
    | error d => exact ⟨himages, hfree', hdistinct⟩
    | ok b =>
      obtain ⟨himage, hkeys⟩ := (hc.ok_iff st a b).mp hr
      refine ⟨.cons himage himages, List.forall_mem_cons.mpr ⟨hkeys, hfree'⟩, .cons ?_ hdistinct⟩
      exact fun a' ha' k hk hka => hfree a' ha' k hk ((hc.taken_step st a b hr k).mpr (.inl hka))

/-- What is taken stays taken when a declaration is checked. -/
theorem taken_subset_checkDeclaration (st : DeclarationState) (d : Written.Declaration) :
    ∀ k ∈ st.taken, k ∈ (checkDeclaration st d).1.taken := by
  have hname : ∀ name entry, ∀ k ∈ st.taken, k ∈ (checkName st name entry d).1.taken := by
    intro name entry k hk
    unfold checkName
    split
    · exact hk
    · split
      · exact hk
      · simp only [DeclarationState.taken, DeclarationState.named_enter,
          DeclarationState.names_enter, List.mem_append, List.map_cons, List.mem_cons] at hk ⊢
        exact hk.imp_right .inr
  cases d with
  | name n =>
    intro k hk
    cases hst : st.named with
    | true => simpa [checkDeclaration, hst] using hk
    | false =>
      have hnext : (checkDeclaration st (.name n)).1 = { st with named := true } := by
        simp [checkDeclaration, hst]
      rw [DeclarationState.taken, hst] at hk
      rw [hnext]
      exact List.mem_append_right _ hk
  | constant c => exact hname c.name _
  | enum e => exact hname e.name _
  | message m => exact hname m.name _

/-- And when a variant is. -/
theorem taken_subset_checkVariant (enum : String) (st : VariantState) (v : Written.Variant) :
    ∀ k ∈ st.taken, k ∈ (checkVariant enum st v).1.taken := by
  have hlabel : ∀ k ∈ st.taken, k ∈ VariantState.taken { st with labels := v.label :: st.labels } :=
    fun k hk => List.mem_cons_of_mem _ hk
  intro k hk
  unfold checkVariant
  split
  · exact hk
  · dsimp only
    split
    · exact hlabel k hk
    · split
      · exact hlabel k hk
      · rcases List.mem_append.mp (hlabel k hk) with hk | hk
        · exact List.mem_append_left _ hk
        · exact List.mem_append_right _ (List.mem_cons_of_mem _ hk)

/-- And when a field is. -/
theorem taken_subset_checkField (names : NameTable) (message : String) (st : FieldState)
    (f : Written.Field) : ∀ k ∈ st.taken, k ∈ (checkField names message st f).1.taken := by
  have htag : ∀ tag, ∀ k ∈ st.taken,
      k ∈ FieldState.taken { st with tags := (tag, f.name) :: st.tags } :=
    fun tag k hk => List.mem_cons_of_mem _ hk
  intro k hk
  unfold checkField
  split
  · exact hk
  · split
    · exact hk
    · dsimp only
      split
      · exact htag _ k hk
      · rcases List.mem_append.mp (htag _ k hk) with hk | hk
        · exact List.mem_append_left _ hk
        · exact List.mem_append_right _ (List.mem_cons_of_mem _ hk)

/-! ## Accounts -/

/-- What becomes of a declaration: it is dropped with a diagnostic, or kept. The variants of a kept
enum and the fields of a kept message are judged one by one. -/
inductive Account where
  | dropped (declaration : Written.Declaration) (diagnostic : Diagnostic)
  | protocolName (declaration : Written.ProtocolName)
  | constant (declaration : Written.Constant)
  | enum (name : String) (variants : List (Judged Written.Variant)) (location : Location)
  | message (name : String) (fields : List (Judged Written.Field)) (location : Location)

namespace Account

/-- The declaration that an account is about. -/
def declaration : Account → Written.Declaration
  | .dropped d _ => d
  | .protocolName n => .name n
  | .constant c => .constant c
  | .enum name vs location => .enum ⟨name, vs.map Judged.item, location⟩
  | .message name fs location => .message ⟨name, fs.map Judged.item, location⟩

/-- What is left of the declaration. -/
def kept? : Account → Option Written.Declaration
  | .dropped _ _ => none
  | .protocolName n => some (.name n)
  | .constant c => some (.constant c)
  | .enum name vs location => some (.enum ⟨name, vs.filterMap Judged.kept?, location⟩)
  | .message name fs location => some (.message ⟨name, fs.filterMap Judged.kept?, location⟩)

/-- The diagnostics of the declaration and of what is in it. -/
def diagnostics : Account → List Diagnostic
  | .dropped _ d => [d]
  | .protocolName _ | .constant _ => []
  | .enum _ vs _ => vs.filterMap Judged.diagnostic?
  | .message _ fs _ => fs.filterMap Judged.diagnostic?

/-- How many items are dropped: the declaration, or what is in it. -/
def droppedItems : Account → Nat
  | .dropped _ _ => 1
  | .protocolName _ | .constant _ => 0
  | .enum _ vs _ => vs.countP (·.kept?.isNone)
  | .message _ fs _ => fs.countP (·.kept?.isNone)

/-- How many items are dropped in all. -/
def countDropped : List Account → Nat
  | [] => 0
  | a :: accounts => a.droppedItems + countDropped accounts

/-- The account of a declaration that has gone through the check of names. -/
def ofJudged (names : NameTable) (j : Judged Written.Declaration) : Account :=
  match j.diagnostic?, j.item with
  | some d, item => .dropped item d
  | none, .name n => .protocolName n
  | none, .constant c =>
    match constantOutcome c with
    | .ok _ => .constant c
    | .error d => .dropped (.constant c) d
  | none, .enum e => .enum e.name (judged e.variants (variantOutcomes e)) e.location
  | none, .message m => .message m.name (judged m.fields (fieldOutcomes names m)) m.location

end Account

/-- The accounts of declarations. -/
def accountsOf (ds : List Written.Declaration) : List Account :=
  (judged ds (declarationOutcomes ds)).map (.ofJudged (namesOf ds))

/-- An enum with the variants that are kept. -/
def trimEnum (e : Written.Enum) : Written.Enum :=
  { e with variants := (judged e.variants (variantOutcomes e)).filterMap Judged.kept? }

/-- A message with the fields that are kept. -/
def trimMessage (names : NameTable) (m : Written.Message) : Written.Message :=
  { m with fields := (judged m.fields (fieldOutcomes names m)).filterMap Judged.kept? }

/-- What is left of a declaration whose name is kept. -/
def trim? (names : NameTable) : Written.Declaration → Option Written.Declaration
  | .name n => some (.name n)
  | .constant c => (constantOutcome c).toOption.map fun _ => .constant c
  | .enum e => some (.enum (trimEnum e))
  | .message m => some (.message (trimMessage names m))

/-- The account of a declaration is about the declaration. -/
theorem Account.declaration_ofJudged (names : NameTable) (j : Judged Written.Declaration) :
    (ofJudged names j).declaration = j.item := by
  obtain ⟨d, _ | diagnostic⟩ := j
  · cases d with
    | name n => rfl
    | constant c =>
      cases hc : constantOutcome c <;> simp [ofJudged, hc, declaration]
    | enum e =>
      have hitems : (judged e.variants (variantOutcomes e)).map Judged.item = e.variants :=
        map_item_judged _ _
      simp only [ofJudged, declaration, hitems]
    | message m =>
      have hitems : (judged m.fields (fieldOutcomes names m)).map Judged.item = m.fields :=
        map_item_judged _ _
      simp only [ofJudged, declaration, hitems]
  · rfl

/-- Accounts stand in the order of the declarations. -/
theorem map_declaration_ofJudged (names : NameTable) (js : List (Judged Written.Declaration)) :
    (js.map (.ofJudged names)).map Account.declaration = js.map Judged.item := by
  rw [List.map_map]
  exact List.map_congr_left fun j _ => Account.declaration_ofJudged names j

/-- An account keeps what was kept, without the items that were dropped. -/
theorem Account.kept?_ofJudged (names : NameTable) (j : Judged Written.Declaration) :
    (ofJudged names j).kept? = j.kept?.bind (trim? names) := by
  obtain ⟨d, _ | diagnostic⟩ := j
  · cases d with
    | constant c =>
      cases hc : constantOutcome c <;> simp [ofJudged, hc, kept?, trim?, Except.toOption]
    | _ => rfl
  · rfl

/-! ## The schema is made of what is kept -/

/-- The names of kept declarations differ and are free, and the declarations stay as they are. -/
theorem kept_declarationOutcomes (ds : List Written.Declaration) :
    (judged ds (declarationOutcomes ds)).filterMap Judged.kept? = kept (declarationOutcomes ds) ∧
      (∀ d ∈ kept (declarationOutcomes ds), ∀ name, declares? d = some name →
        Primitive.ofName? name = none) ∧
      ((kept (declarationOutcomes ds)).map declares?).Nodup := by
  obtain ⟨himages, -, hdistinct⟩ :=
    checkDeclaration_keyed.survivors taken_subset_checkDeclaration {} ds
  obtain ⟨hfree, heq⟩ := (List.forall₂_and_left _ _).mp himages
  rw [List.forall₂_eq_eq_eq] at heq
  rw [declarationOutcomes, ← heq]
  exact ⟨rfl, hfree, pairwise_declares?_iff.mp hdistinct⟩

/-- All that accounts keep are the declarations that were kept, trimmed. -/
theorem filterMap_kept?_accountsOf (ds : List Written.Declaration) :
    (accountsOf ds).filterMap Account.kept? =
      (kept (declarationOutcomes ds)).filterMap (trim? (namesOf ds)) := by
  rw [← (kept_declarationOutcomes ds).1, List.filterMap_filterMap, accountsOf, List.filterMap_map]
  exact congrArg (List.filterMap · _) (funext (Account.kept?_ofJudged _))

/-- Trimming does not change what a declaration declares. -/
theorem declares?_trim? {names : NameTable} {d d' : Written.Declaration}
    (h : trim? names d = some d') : declares? d' = declares? d := by
  cases d with
  | constant c =>
    obtain ⟨_, -, rfl⟩ := Option.map_eq_some_iff.mp h
    rfl
  | _ =>
    cases h
    rfl

/-- A selection of one kind from what is left of declarations. -/
theorem filterMap_trim? {α : Type} (names : NameTable) (select : Written.Declaration → Option α)
    (trimmed : Written.Declaration → Option α)
    (h : ∀ d, (trim? names d).bind select = trimmed d) (ds : List Written.Declaration) :
    (ds.filterMap (trim? names)).filterMap select = ds.filterMap trimmed := by
  rw [List.filterMap_filterMap]
  exact congrArg (List.filterMap · ds) (funext h)

theorem protocolNamesIn_trim (names : NameTable) (ds : List Written.Declaration) :
    protocolNamesIn (ds.filterMap (trim? names)) = protocolNamesIn ds := by
  refine filterMap_trim? names _ _ (fun d => ?_) ds
  cases d with
  | constant c => cases hc : constantOutcome c <;> simp [trim?, hc, Except.toOption]
  | _ => rfl

/-- Trimming keeps the constants that have a value. -/
theorem constantsIn_trim (names : NameTable) (ds : List Written.Declaration) :
    constantsIn (ds.filterMap (trim? names)) =
      (constantsIn ds).filter (constantOutcome · |>.toOption.isSome) := by
  rw [constantsIn, constantsIn, List.filter_filterMap]
  refine filterMap_trim? names _ _ (fun d => ?_) ds
  cases d with
  | constant c =>
    cases hc : constantOutcome c <;> simp [trim?, hc, Except.toOption, Option.filter]
  | _ => rfl

/-- Trimming keeps all enums. -/
theorem enumsIn_trim (names : NameTable) (ds : List Written.Declaration) :
    enumsIn (ds.filterMap (trim? names)) = (enumsIn ds).map trimEnum := by
  rw [enumsIn, enumsIn, List.map_filterMap]
  refine filterMap_trim? names _ _ (fun d => ?_) ds
  cases d with
  | constant c => cases hc : constantOutcome c <;> simp [trim?, hc, Except.toOption]
  | _ => rfl

/-- Trimming keeps all messages. -/
theorem messagesIn_trim (names : NameTable) (ds : List Written.Declaration) :
    messagesIn (ds.filterMap (trim? names)) = (messagesIn ds).map (trimMessage names) := by
  rw [messagesIn, messagesIn, List.map_filterMap]
  refine filterMap_trim? names _ _ (fun d => ?_) ds
  cases d with
  | constant c => cases hc : constantOutcome c <;> simp [trim?, hc, Except.toOption]
  | _ => rfl

/-- A type word names the same after trimming, since the names and their places are the same. -/
theorem names_trim (names : NameTable) (ds : List Written.Declaration) :
    Written.Names (ds.filterMap (trim? names)) = Written.Names ds := by
  funext word type
  cases type with
  | primitive p => rfl
  | message index =>
    simp only [Written.Names, messagesIn_trim, List.getElem?_map, Option.map_eq_some_iff]
    simp [trimMessage]
  | enum index =>
    simp only [Written.Names, enumsIn_trim, List.getElem?_map, Option.map_eq_some_iff]
    simp [trimEnum]

/-- A resolved enum is the image of the trimmed one. -/
theorem enumImage_trim (e : Written.Enum) : EnumImage (trimEnum e) (resolveEnum e) := by
  obtain ⟨himages, -, hdistinct⟩ :=
    (checkVariant_keyed e.name).survivors (taken_subset_checkVariant e.name) {} e.variants
  exact ⟨rfl, rfl, himages, hdistinct⟩

/-- A resolved message is the image of the trimmed one. -/
theorem messageImage_trim (names : NameTable) (m : Written.Message) :
    MessageImage (TypeNamed names) (trimMessage names m) (resolveMessage names m) := by
  obtain ⟨himages, -, hdistinct⟩ := (checkField_keyed names m.name).survivors
    (taken_subset_checkField names m.name) {} m.fields
  exact ⟨rfl, rfl, himages, hdistinct⟩

/-- The constants of a schema are the images of those that were kept. -/
theorem constantImages_trim (cs : List Written.Constant) :
    List.Forall₂ ConstantImage (cs.filter (constantOutcome · |>.toOption.isSome))
      (kept (cs.map constantOutcome)) := by
  induction cs with
  | nil => exact .nil
  | cons c cs ih =>
    cases hc : constantOutcome c with
    | error d =>
      rw [List.filter_cons_of_neg (by simp [hc, Except.toOption]), List.map_cons, hc]
      exact ih
    | ok constant =>
      rw [List.filter_cons_of_pos (by simp [hc, Except.toOption]), List.map_cons, hc]
      exact .cons (constantImage_iff.mpr hc) ih

/-- **The schema is made of what the accounts keep**, and of nothing else. -/
theorem resolves_accountsOf (ds : List Written.Declaration) :
    Resolves ((accountsOf ds).filterMap Account.kept?) (schemaOf ds) := by
  obtain ⟨-, hfree, hdistinct⟩ := kept_declarationOutcomes ds
  rw [filterMap_kept?_accountsOf]
  refine ⟨?_, ?_, ?_, ?_, ?_, ?_⟩
  · rw [List.Nodup, List.pairwise_map, List.pairwise_filterMap]
    refine (List.pairwise_map.mp hdistinct).imp fun hne b hb b' hb' => ?_
    rwa [declares?_trim? hb, declares?_trim? hb']
  · intro d hd name hname
    obtain ⟨d', hd', htrim⟩ := List.mem_filterMap.mp hd
    exact hfree d' hd' name ((declares?_trim? htrim).symm.trans hname)
  · rw [protocolNamesIn_trim]
    rfl
  · rw [enumsIn_trim]
    exact List.forall₂_map_left_iff.mpr (List.forall₂_map_right_iff.mpr
      (List.forall₂_same.mpr fun e _ => enumImage_trim e))
  · rw [messagesIn_trim, names_trim, ← typeNamed_namesOf]
    exact List.forall₂_map_left_iff.mpr (List.forall₂_map_right_iff.mpr
      (List.forall₂_same.mpr fun m _ => messageImage_trim (namesOf ds) m))
  · rw [constantsIn_trim]
    exact constantImages_trim _

/-! ## The diagnostics are those of what is dropped -/

/-- What is reported of a declaration whose name is kept. -/
def bodyDiagnostics (names : NameTable) : Written.Declaration → List Diagnostic
  | .name _ => []
  | .constant c => (constantOutcome c).diagnostic?.toList
  | .enum e => reported (variantOutcomes e)
  | .message m => reported (fieldOutcomes names m)

/-- An account has the diagnostic of its declaration, and those of its items if it was kept. -/
theorem Account.diagnostics_ofJudged (names : NameTable) (j : Judged Written.Declaration) :
    (ofJudged names j).diagnostics =
      j.diagnostic?.toList ++ j.kept?.toList.flatMap (bodyDiagnostics names) := by
  obtain ⟨d, _ | diagnostic⟩ := j
  · cases d with
    | name n => rfl
    | constant c => cases hc : constantOutcome c <;> simp [ofJudged, hc, diagnostics,
        bodyDiagnostics, Outcome.diagnostic?]
    | enum e =>
      change (judged e.variants (variantOutcomes e)).filterMap Judged.diagnostic? =
        reported (variantOutcomes e) ++ []
      rw [List.append_nil]
      exact diagnostics_judged _ _
    | message m =>
      change (judged m.fields (fieldOutcomes names m)).filterMap Judged.diagnostic? =
        reported (fieldOutcomes names m) ++ []
      rw [List.append_nil]
      exact diagnostics_judged _ _
  · simp [ofJudged, diagnostics]

/-- The diagnostics of bodies are the same by declaration and by kind, up to their order. -/
theorem bodyDiagnostics_perm (names : NameTable) (ds : List Written.Declaration) :
    (ds.flatMap (bodyDiagnostics names)).Perm
      ((enumsIn ds).flatMap (fun e => reported (variantOutcomes e))
        ++ (messagesIn ds).flatMap (fun m => reported (fieldOutcomes names m))
        ++ reported ((constantsIn ds).map constantOutcome)) := by
  induction ds with
  | nil => exact .nil
  | cons d ds ih =>
    -- the order is by kind on one side only, so the two are compared by counting
    refine List.perm_iff_count.mpr fun x => ?_
    have hcount := ih.count_eq x
    rw [List.flatMap_cons, List.count_append, hcount]
    cases d with
    | name n => simp [enumsIn, messagesIn, constantsIn, bodyDiagnostics]
    | enum e =>
      simp only [enumsIn, messagesIn, constantsIn, List.filterMap_cons, bodyDiagnostics,
        List.flatMap_cons, List.count_append]
      omega
    | message m =>
      simp only [enumsIn, messagesIn, constantsIn, List.filterMap_cons, bodyDiagnostics,
        List.flatMap_cons, List.count_append]
      omega
    | constant c =>
      have hreported : reported (constantOutcome c :: (constantsIn ds).map constantOutcome) =
          (constantOutcome c).diagnostic?.toList ++
            reported ((constantsIn ds).map constantOutcome) := by
        cases constantOutcome c <;> rfl
      have hcons : constantsIn (.constant c :: ds) = c :: constantsIn ds := rfl
      rw [hcons, List.map_cons, hreported]
      simp only [enumsIn, messagesIn, List.filterMap_cons, bodyDiagnostics, List.count_append]
      omega

/-- **The diagnostics are those of the accounts.** -/
theorem diagnosticsOf_perm (ds : List Written.Declaration) :
    (diagnosticsOf ds).Perm ((accountsOf ds).flatMap Account.diagnostics) := by
  have hreported : (judged ds (declarationOutcomes ds)).flatMap (·.diagnostic?.toList) =
      reported (declarationOutcomes ds) := by
    rw [← List.filterMap_eq_flatMap_toList]
    exact diagnostics_judged _ _
  have hbody : (judged ds (declarationOutcomes ds)).flatMap
      (fun j => j.kept?.toList.flatMap (bodyDiagnostics (namesOf ds))) =
        (kept (declarationOutcomes ds)).flatMap (bodyDiagnostics (namesOf ds)) := by
    rw [← List.flatMap_assoc, ← List.filterMap_eq_flatMap_toList, (kept_declarationOutcomes ds).1]
  rw [accountsOf, List.flatMap_map]
  simp only [Account.diagnostics_ofJudged]
  refine .trans ?_ (List.flatMap_append_perm _ _ _)
  rw [hreported, hbody, diagnosticsOf, List.append_assoc, List.append_assoc]
  refine List.Perm.append_left _ ?_
  rw [← List.append_assoc]
  exact (bodyDiagnostics_perm _ _).symm

/-- **Every dropped item has one diagnostic**, and nothing else has. -/
theorem Account.length_diagnostics (a : Account) : a.diagnostics.length = a.droppedItems := by
  have hcount : ∀ {α : Type} (js : List (Judged α)),
      (js.filterMap Judged.diagnostic?).length = js.countP (·.kept?.isNone) := by
    intro α js
    rw [List.length_filterMap_eq_countP]
    refine List.countP_congr fun j _ => ?_
    obtain ⟨_, _ | _⟩ := j <;> simp
  cases a with
  | enum name vs location => exact hcount vs
  | message name fs location => exact hcount fs
  | _ => rfl

theorem Account.length_flatMap_diagnostics (accounts : List Account) :
    (accounts.flatMap Account.diagnostics).length = countDropped accounts := by
  induction accounts with
  | nil => rfl
  | cons a accounts ih =>
    rw [List.flatMap_cons, List.length_append, a.length_diagnostics, ih, countDropped]

/-! ## Every diagnostic is justified -/

/-- The diagnostics of an account are where the items are that they are about. -/
def Account.Located : Account → Prop
  | .dropped d diagnostic => diagnostic.location = d.location
  | .protocolName _ | .constant _ => True
  | .enum _ vs _ =>
    ∀ v ∈ vs, ∀ diagnostic, v.diagnostic? = some diagnostic →
      diagnostic.location = v.item.location
  | .message _ fs _ =>
    ∀ f ∈ fs, ∀ diagnostic, f.diagnostic? = some diagnostic →
      diagnostic.location ∈ f.item.locations

/-- A constant that was dropped has a fault. -/
theorem fault_of_constantOutcome {before : List Written.Declaration} {c : Written.Constant}
    {diagnostic : Diagnostic} (h : constantOutcome c = .error diagnostic) :
    DeclarationFault before (.constant c) diagnostic := by
  have hno : ∀ constant, ¬ ConstantImage c constant := fun constant himage => by
    rw [constantImage_iff.mp himage] at h
    cases h
  unfold constantOutcome at h
  split at h
  · cases h
  · cases h
    exact .value hno

/-- **A declaration that was dropped has the fault that is reported**, in view of those before
it. -/
theorem declarationFault_of_accountsOf {ds : List Written.Declaration}
    {before after : List Account} {d : Written.Declaration} {diagnostic : Diagnostic}
    (h : accountsOf ds = before ++ .dropped d diagnostic :: after) :
    DeclarationFault (before.map Account.declaration) d diagnostic := by
  obtain ⟨jbefore, rest, hsplit, rfl, hrest⟩ := List.map_eq_append_iff.mp h
  obtain ⟨j, jafter, rfl, hj, -⟩ := List.map_eq_cons_iff.mp hrest
  rw [map_declaration_ofJudged]
  obtain ⟨item, _ | diagnostic'⟩ := j
  · -- the name is kept, so the declaration is a constant whose value is refused
    cases item with
    | constant c =>
      cases hc : constantOutcome c with
      | ok constant => simp [Account.ofJudged, hc] at hj
      | error diagnostic' =>
        simp only [Account.ofJudged, hc, Account.dropped.injEq] at hj
        obtain ⟨rfl, rfl⟩ := hj
        exact fault_of_constantOutcome hc
    | _ => cases hj
  · obtain ⟨rfl, rfl⟩ := Account.dropped.inj hj
    exact declarationFault_of_judged hsplit

theorem exists_enum_of_mem_accountsOf {ds : List Written.Declaration} {name : String}
    {vs : List (Judged Written.Variant)} {location : Location}
    (h : .enum name vs location ∈ accountsOf ds) :
    ∃ e : Written.Enum, e.name = name ∧ judged e.variants (variantOutcomes e) = vs := by
  obtain ⟨⟨item, _ | diagnostic⟩, -, hj⟩ := List.mem_map.mp h
  · cases item with
    | constant c => cases hc : constantOutcome c <;> simp [Account.ofJudged, hc] at hj
    | enum e =>
      cases hj
      exact ⟨e, rfl, rfl⟩
    | _ => cases hj
  · cases hj

theorem exists_message_of_mem_accountsOf {ds : List Written.Declaration} {name : String}
    {fs : List (Judged Written.Field)} {location : Location}
    (h : .message name fs location ∈ accountsOf ds) :
    ∃ m : Written.Message,
      m.name = name ∧ judged m.fields (fieldOutcomes (namesOf ds) m) = fs := by
  obtain ⟨⟨item, _ | diagnostic⟩, -, hj⟩ := List.mem_map.mp h
  · cases item with
    | constant c => cases hc : constantOutcome c <;> simp [Account.ofJudged, hc] at hj
    | message m =>
      cases hj
      exact ⟨m, rfl, rfl⟩
    | _ => cases hj
  · cases hj

/-! ## The whole account -/

/-- Accounts that say what became of declarations, and of everything in those that are kept: `s` is
the schema that is built and `diagnostics` is what is reported. -/
structure Accounted (ds : List Written.Declaration) (s : Schema) (diagnostics : List Diagnostic)
    (accounts : List Account) : Prop where
  /-- every item has an account -/
  complete : accounts.map Account.declaration = ds
  /-- the schema is made of the kept items and of nothing else -/
  present : Resolves (accounts.filterMap Account.kept?) s
  /-- the diagnostics are those of the dropped items, one for each -/
  reported : diagnostics.Perm (accounts.flatMap Account.diagnostics)
  counted : diagnostics.length = Account.countDropped accounts
  /-- every diagnostic is located at its item -/
  located : ∀ a ∈ accounts, a.Located
  /-- every diagnostic says what is wrong with its item, after those before it -/
  declarations : ∀ before d diagnostic after, accounts = before ++ .dropped d diagnostic :: after →
    DeclarationFault (before.map Account.declaration) d diagnostic
  variants : ∀ name vs location, .enum name vs location ∈ accounts →
    ∀ before v diagnostic after, vs = before ++ ⟨v, some diagnostic⟩ :: after →
      VariantFault name before v diagnostic
  fields : ∀ name fs location, .message name fs location ∈ accounts →
    ∀ before f diagnostic after, fs = before ++ ⟨f, some diagnostic⟩ :: after →
      FieldFault (Written.Names (accounts.filterMap Account.kept?)) name
        (before.map Judged.item) f diagnostic

/-- Every diagnostic is located in the declaration that it is about. -/
theorem located_accountsOf (ds : List Written.Declaration) :
    ∀ a ∈ accountsOf ds, a.Located := by
  intro a ha
  cases a with
  | dropped d diagnostic =>
    obtain ⟨before, after, hsplit⟩ := List.append_of_mem ha
    exact (declarationFault_of_accountsOf hsplit).location_eq
  | protocolName n => trivial
  | constant c => trivial
  | enum name vs location =>
    rintro ⟨v, _⟩ hv diagnostic rfl
    obtain ⟨e, -, rfl⟩ := exists_enum_of_mem_accountsOf ha
    obtain ⟨before, after, hsplit⟩ := List.append_of_mem hv
    exact (variantFault_of_judged hsplit).location_eq
  | message name fs location =>
    rintro ⟨f, _⟩ hf diagnostic rfl
    obtain ⟨m, -, rfl⟩ := exists_message_of_mem_accountsOf ha
    obtain ⟨before, after, hsplit⟩ := List.append_of_mem hf
    exact (fieldFault_of_judged hsplit).location_mem

/-- **Every item is kept or reported once.** A run that collects all diagnostics returns the schema
unless there are any; and every declaration, and every variant and field of a kept one, is either
in the schema or has one diagnostic, which is located at the item and blames the earliest item that
took what it wanted. -/
theorem collect_accounted (ds : List Written.Declaration) :
    Schema.ofDeclarations .collect ds = Report.guard (schemaOf ds) (diagnosticsOf ds) ∧
      ∃ accounts, Accounted ds (schemaOf ds) (diagnosticsOf ds) accounts := by
  refine ⟨?_, accountsOf ds, ?_, resolves_accountsOf ds, diagnosticsOf_perm ds, ?_,
    located_accountsOf ds, ?_, ?_, ?_⟩
  · rw [Schema.ofDeclarations]
    cases diagnosticsOf ds <;> rfl
  · rw [accountsOf, map_declaration_ofJudged]
    exact map_item_judged _ _
  · exact (diagnosticsOf_perm ds).length_eq.trans (Account.length_flatMap_diagnostics _)
  · exact fun before d diagnostic after h => declarationFault_of_accountsOf h
  · rintro name vs location hmem before v diagnostic after rfl
    obtain ⟨e, rfl, hvs⟩ := exists_enum_of_mem_accountsOf hmem
    exact variantFault_of_judged hvs
  · rintro name fs location hmem before f diagnostic after rfl
    obtain ⟨m, rfl, hfs⟩ := exists_message_of_mem_accountsOf hmem
    rw [filterMap_kept?_accountsOf, names_trim, ← typeNamed_namesOf]
    exact fieldFault_of_judged hfs

/-- Declarations with something to drop at every level: a second name, a reserved name, a name that
is taken, a constant that does not fit, and inside of what is kept two variants and three fields. -/
def ragged : List Written.Declaration :=
  [.name ⟨"shapes", ⟨1, 1⟩⟩, .name ⟨"forms", ⟨2, 1⟩⟩,
    .enum ⟨"Side", [⟨"left", 0, ⟨3, 13⟩⟩, ⟨"left", 1, ⟨3, 23⟩⟩, ⟨"right", 0, ⟨3, 33⟩⟩], ⟨3, 6⟩⟩,
    .message ⟨"Point",
      [⟨"x", [], "float64", ⟨4, 18⟩, 1, ⟨4, 28⟩, ⟨4, 15⟩⟩,
        ⟨"x", [], "float64", ⟨5, 18⟩, 2, ⟨5, 28⟩, ⟨5, 15⟩⟩,
        ⟨"y", [], "float64", ⟨6, 18⟩, 2, ⟨6, 28⟩, ⟨6, 15⟩⟩,
        ⟨"side", [], "Top", ⟨7, 21⟩, 3, ⟨7, 27⟩, ⟨7, 15⟩⟩,
        ⟨"next", [⟨.optional, ⟨8, 21⟩⟩], "Path", ⟨8, 30⟩, 4, ⟨8, 37⟩, ⟨8, 15⟩⟩], ⟨4, 9⟩⟩,
    .enum ⟨"Point", [], ⟨9, 6⟩⟩,
    .message ⟨"Path", [], ⟨10, 9⟩⟩,
    .constant ⟨"Top", "uint8", .integer 255, ⟨11, 1⟩⟩,
    .constant ⟨"Over", "uint8", .integer 256, ⟨12, 1⟩⟩,
    .constant ⟨"bool", "uint8", .integer 1, ⟨13, 1⟩⟩]

/-- What is kept of `ragged`. -/
def raggedSchema : Schema :=
  { name := "shapes"
    messages :=
      [⟨"Point", [⟨"x", .primitive .float64, 1, .single, ⟨4, 15⟩⟩,
          ⟨"next", .message 1, 4, .optional, ⟨8, 15⟩⟩], ⟨4, 9⟩⟩,
        ⟨"Path", [], ⟨10, 9⟩⟩]
    enums := [⟨"Side", [⟨"left", 0, ⟨3, 13⟩⟩], ⟨3, 6⟩⟩]
    constants := [⟨"Top", .uint8, .integer 255, ⟨11, 1⟩⟩] }

/-- What is reported of `ragged`: first the declarations, then the variants, the fields and the
constants. -/
def raggedReport : List Diagnostic :=
  [⟨.semantic .duplicateProtocolName, ⟨2, 1⟩⟩,
    ⟨.semantic (.duplicateDeclaration "Point" ⟨4, 9⟩), ⟨9, 6⟩⟩,
    ⟨.semantic (.reservedName "bool"), ⟨13, 1⟩⟩,
    ⟨.semantic (.duplicateEnumLabel "Side" "left"), ⟨3, 23⟩⟩,
    ⟨.semantic (.duplicateEnumValue "Side" "right" "left" 0), ⟨3, 33⟩⟩,
    ⟨.semantic (.duplicateField "Point" "x"), ⟨5, 15⟩⟩,
    ⟨.semantic (.duplicateTag "Point" "y" "x" 2), ⟨6, 28⟩⟩,
    ⟨.semantic (.unresolvedType "Point" "side" "Top"), ⟨7, 21⟩⟩,
    ⟨.semantic (.invalidConstant "Over" "uint8" "256"), ⟨12, 1⟩⟩]

theorem ragged_accounted :
    Schema.ofDeclarations .collect ragged = Report.guard raggedSchema raggedReport ∧
      ∃ accounts, Accounted ragged raggedSchema raggedReport accounts ∧
        Account.countDropped accounts = 9 := by
  have hschema : schemaOf ragged = raggedSchema := by decide +kernel
  have hreport : diagnosticsOf ragged = raggedReport := by decide +kernel
  obtain ⟨hrun, accounts, haccounted⟩ := collect_accounted ragged
  rw [hschema, hreport] at hrun haccounted
  exact ⟨hrun, accounts, haccounted, haccounted.counted.symm⟩

end Resolve

end WireSchema
