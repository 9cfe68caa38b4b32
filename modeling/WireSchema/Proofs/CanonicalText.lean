import Mathlib
import WireSchema.Proofs.WireShape

/-!
# The canonical form tells wire shapes apart

A canonical form has no quotes and no escapes, and still it can be read in one way only: names are
made of letters, digits and underscores, numbers of digits and a minus sign, and what follows them
is neither. Each piece is shown to be readable in turn (`SelfDelimiting.Readable`): variants and
fields, the lines that list them, the text of the lines. With the facts about accepted schemas,
equal texts mean equal outlines and so equal wire shapes.
-/

namespace WireSchema

open SelfDelimiting
open Text (isWordRest)

/-! ## Numbers and names -/

/-- The characters of a number. -/
def Numeric (c : Char) : Prop :=
  c.isDigit = true ∨ c = '-'

instance : DecidablePred Numeric :=
  fun c => inferInstanceAs (Decidable (c.isDigit = true ∨ c = '-'))

/-- A number is written in numeric characters. -/
theorem numeric_natText (n : Nat) : ∀ c ∈ (toString n).toList, Numeric c :=
  fun _ hc => .inl (Decimal.isDigit_of_mem_toString hc)

theorem numeric_intText (i : Int) : ∀ c ∈ (toString i).toList, Numeric c := by
  intro c hc
  cases i with
  | ofNat n => exact numeric_natText n c hc
  | negSucc n =>
    change c ∈ ("-" ++ toString (n + 1)).toList at hc
    rw [String.toList_append] at hc
    rcases List.mem_append.mp hc with hc | hc
    · exact .inr (List.mem_singleton.mp hc)
    · exact numeric_natText (n + 1) c hc

/-- A name is made of letters, digits and underscores. -/
def Spelled (name : String) : Prop :=
  ∀ c ∈ name.toList, isWordRest c = true

/-- A name ends at the first character that no name has. -/
theorem Spelled.append_cons_inj {name name' : String} (h : Spelled name) (h' : Spelled name')
    {d d' : Char} (hd : ¬ isWordRest d = true) (hd' : ¬ isWordRest d' = true) {r r' : List Char}
    (heq : name.toList ++ d :: r = name'.toList ++ d' :: r') : name = name' ∧ r = r' := by
  obtain ⟨hname, -, hrest⟩ := append_cons_inj_of_sort _ h h' hd hd' heq
  exact ⟨String.toList_inj.mp hname, hrest⟩

/-! ## Entries -/

/-- The spelling of a type. -/
def TypeShape.label : TypeShape → String
  | .primitive p => p.name
  | .message name => "message " ++ name
  | .enum name => "enum " ++ name

def TypeShape.Spelled : TypeShape → Prop
  | .primitive _ => True
  | .message name => WireSchema.Spelled name
  | .enum name => WireSchema.Spelled name

theorem Primitive.space_notMem_name (p : Primitive) : ' ' ∉ p.name.toList := by
  cases p <;> decide

/-- A primitive type can be told from its name. -/
theorem Primitive.name_injective {p q : Primitive} (h : p.name = q.name) : p = q := by
  have hq := Primitive.ofName?_name q
  rw [← h, Primitive.ofName?_name] at hq
  exact Option.some.inj hq

/-- **A type can be told from its label**, since the labels of messages and enums start in other
ways. -/
theorem TypeShape.label_injective {t t' : TypeShape} (h : t.label = t'.label) : t = t' := by
  have hspace : ∀ (p : Primitive) (name : String),
      p.name ≠ "message " ++ name ∧ p.name ≠ "enum " ++ name := by
    intro p name
    refine ⟨fun heq => p.space_notMem_name ?_, fun heq => p.space_notMem_name ?_⟩ <;>
      rw [heq, String.toList_append] <;> exact List.mem_append_left _ (by decide)
  have hword : ∀ name name' : String, "message " ++ name ≠ "enum " ++ name' := by
    intro name name' heq
    have hlist := congrArg String.toList heq
    rw [String.toList_append, String.toList_append] at hlist
    cases hlist
  cases t with
  | primitive p =>
    cases t' with
    | primitive q => rw [Primitive.name_injective h]
    | message name => exact absurd h (hspace p name).1
    | enum name => exact absurd h (hspace p name).2
  | message name =>
    cases t' with
    | primitive q => exact absurd h.symm (hspace q name).1
    | message name' => rw [(String.append_right_inj "message ").mp h]
    | enum name' => exact absurd h (hword name name')
  | enum name =>
    cases t' with
    | primitive q => exact absurd h.symm (hspace q name).2
    | message name' => exact absurd h.symm (hword name' name)
    | enum name' => rw [(String.append_right_inj "enum ").mp h]

/-- The spelling of a type has no semicolon. -/
theorem TypeShape.Spelled.semicolon_notMem_label {t : TypeShape} (h : t.Spelled) :
    ';' ∉ t.label.toList := by
  have hname : ∀ {word name : String}, ';' ∉ word.toList → WireSchema.Spelled name →
      ';' ∉ (word ++ name).toList := by
    intro word name hword hspelled hmem
    rw [String.toList_append] at hmem
    rcases List.mem_append.mp hmem with hmem | hmem
    · exact hword hmem
    · exact absurd (hspelled _ hmem) (by decide)
  cases t with
  | primitive p => cases p <;> decide
  | message name => exact hname (by decide) h
  | enum name => exact hname (by decide) h

def VariantShape.code (v : VariantShape) : List Char :=
  ' ' :: ((toString v.value).toList ++ '=' :: (v.label.toList ++ [';']))

def FieldShape.code (f : FieldShape) : List Char :=
  ' ' :: ((toString f.tag).toList ++ ':' :: (f.name.toList ++ ':' ::
    (f.modifier.name.toList ++ ':' :: (f.type.label.toList ++ [';']))))

/-- The names in a field are spelled as names are. -/
structure FieldShape.Spelled (f : FieldShape) : Prop where
  name : WireSchema.Spelled f.name
  type : f.type.Spelled

/-- Variants can be told apart whatever follows. -/
theorem VariantShape.readable :
    Readable (fun v : VariantShape => Spelled v.label) (fun _ => True) VariantShape.code where
  inj {v v' t t'} hv hv' _ _ h := by
    simp only [code, List.cons_append, List.append_assoc, List.nil_append, List.cons.injEq,
      true_and] at h
    obtain ⟨hvalue, -, hrest⟩ := append_cons_inj_of_sort Numeric (numeric_intText v.value)
      (numeric_intText v'.value) (by decide) (by decide) h
    obtain ⟨hlabel, ht⟩ := hv.append_cons_inj hv' (by decide) (by decide) hrest
    exact ⟨VariantShape.ext (Int.repr_inj.mp (String.toList_inj.mp hvalue)) hlabel, ht⟩
  rest _ _ := trivial

theorem Modifier.spelled_name (m : Modifier) : Spelled m.name := by
  have hall : m.name.toList.all isWordRest = true := by cases m <;> decide
  exact List.all_eq_true.mp hall

/-- A modifier can be told from its name. -/
theorem Modifier.name_injective {m n : Modifier} (h : m.name = n.name) : m = n := by
  revert h
  cases m <;> cases n <;> decide

/-- Fields can be told apart whatever follows. -/
theorem FieldShape.readable :
    Readable FieldShape.Spelled (fun _ => True) FieldShape.code where
  inj {f f' t t'} hf hf' _ _ h := by
    simp only [code, List.cons_append, List.append_assoc, List.nil_append, List.cons.injEq,
      true_and] at h
    obtain ⟨htag, -, hrest⟩ := append_cons_inj_of_sort Numeric (numeric_natText f.tag)
      (numeric_natText f'.tag) (by decide) (by decide) h
    obtain ⟨hname, hrest⟩ := hf.name.append_cons_inj hf'.name (by decide) (by decide) hrest
    obtain ⟨hmodifier, hrest⟩ := f.modifier.spelled_name.append_cons_inj
      f'.modifier.spelled_name (by decide) (by decide) hrest
    -- the spelling of a type may have a space in it, so it is read up to the semicolon
    obtain ⟨htype, -, ht⟩ := append_cons_inj_of_sort (· ≠ ';')
      (fun c hc heq => hf.type.semicolon_notMem_label (heq ▸ hc))
      (fun c hc heq => hf'.type.semicolon_notMem_label (heq ▸ hc)) (by decide) (by decide) hrest
    refine ⟨FieldShape.ext (Nat.repr_inj.mp (String.toList_inj.mp htag)) hname
      (Modifier.name_injective hmodifier) ?_, ht⟩
    exact TypeShape.label_injective (String.toList_inj.mp htype)
  rest _ _ := trivial

/-- An entry starts with a number, which the end of a list of entries does not. -/
theorem ends_of_numeral {ε : Type} {P : ε → Prop} {code : ε → List Char}
    (hcode : ∀ e, ∃ digits d body, code e = ' ' :: (digits ++ d :: body) ∧
      (∀ c ∈ digits, Numeric c) ∧ ¬ Numeric d ∧ d ≠ '\x7d') (t : List Char) :
    Ends P (fun _ => True) code (' ' :: '\x7d' :: t) where
  rest := trivial
  ne {e t'} _ h := by
    obtain ⟨digits, d, body, hcode, hdigits, hd, hne⟩ := hcode e
    rw [hcode, List.cons_append, List.append_assoc] at h
    have hbrace : [] ++ '\x7d' :: t = digits ++ d :: (body ++ t') := (List.cons.inj h).2
    obtain ⟨-, heq, -⟩ := append_cons_inj_of_sort Numeric (List.forall_mem_nil _) hdigits
      (by decide) hd hbrace
    exact hne heq.symm

/-! ## Lines -/

namespace Roster

variable {ε : Type}

/-- The line that lists a roster after a keyword. -/
def code (word : List Char) (entryCode : ε → List Char) (r : Roster ε) : List Char :=
  word ++ (r.1.toList ++ ' ' :: '\x7b' :: (r.2.flatMap entryCode ++ [' ', '\x7d', '\n']))

/-- The names in a roster are spelled as names are. -/
structure Spelled (P : ε → Prop) (r : Roster ε) : Prop where
  name : WireSchema.Spelled r.1
  entries : ∀ e ∈ r.2, P e

/-- Declarations can be told apart if their entries can. -/
theorem readable {P : ε → Prop} {entryCode : ε → List Char} (word : List Char)
    (hentry : Readable P (fun _ => True) entryCode)
    (hend : ∀ t, Ends P (fun _ => True) entryCode (' ' :: '\x7d' :: t)) :
    Readable (Spelled P) (fun _ => True) (code word entryCode) where
  inj {r r' t t'} hr hr' _ _ h := by
    simp only [code, List.append_assoc, List.cons_append, List.nil_append,
      List.append_cancel_left_eq] at h
    obtain ⟨hname, hrest⟩ := hr.name.append_cons_inj hr'.name (by decide) (by decide) h
    obtain ⟨hentries, htail⟩ := hentry.flatMap_append_inj hr.entries hr'.entries (hend _) (hend _)
      (List.cons.inj hrest).2
    simp only [List.cons.injEq, true_and] at htail
    exact ⟨Prod.ext hname hentries, htail⟩
  rest _ _ := trivial

end Roster

/-! ## The whole text -/

namespace Outline

def enumCode : Roster VariantShape → List Char :=
  Roster.code "enum ".toList VariantShape.code

def messageCode : Roster FieldShape → List Char :=
  Roster.code "message ".toList FieldShape.code

/-- The text of an outline. -/
def code (o : Outline) : List Char :=
  (Schema.canonicalVersion ++ "\nname ").toList ++
    (o.name.toList ++ '\n' :: (o.enums.flatMap enumCode ++ o.messages.flatMap messageCode))

/-- The names in an outline are spelled as names are. -/
structure Spelled (o : Outline) : Prop where
  name : WireSchema.Spelled o.name
  enums : ∀ r ∈ o.enums, Roster.Spelled (fun v => WireSchema.Spelled v.label) r
  messages : ∀ r ∈ o.messages, Roster.Spelled FieldShape.Spelled r

theorem enumCode_readable :
    Readable (Roster.Spelled fun v : VariantShape => WireSchema.Spelled v.label) (fun _ => True)
      enumCode := by
  refine Roster.readable _ VariantShape.readable (ends_of_numeral fun v => ?_)
  exact ⟨_, '=', _, rfl, numeric_intText v.value, by decide, by decide⟩

/-- Messages can be told apart. -/
theorem messageCode_readable :
    Readable (Roster.Spelled FieldShape.Spelled) (fun _ => True) messageCode := by
  refine Roster.readable _ FieldShape.readable (ends_of_numeral fun f => ?_)
  exact ⟨_, ':', _, rfl, numeric_natText f.tag, by decide, by decide⟩

/-- The first line of a message is no line of an enum. -/
theorem enumCode_ends (ms : List (Roster FieldShape)) :
    Ends (Roster.Spelled fun v : VariantShape => WireSchema.Spelled v.label) (fun _ => True)
      enumCode (ms.flatMap messageCode) where
  rest := trivial
  ne {r t} _ h := by
    cases ms with
    | nil => cases h
    | cons m ms => cases h

theorem messageCode_ends :
    Ends (Roster.Spelled FieldShape.Spelled) (fun _ => True) messageCode [] :=
  ⟨trivial, fun _ h => by cases h⟩

/-- **The text of an outline can be read in one way only.** -/
theorem code_injective {o o' : Outline} (h : o.Spelled) (h' : o'.Spelled) (heq : o.code = o'.code) :
    o = o' := by
  obtain ⟨name, enums, messages⟩ := o
  obtain ⟨name', enums', messages'⟩ := o'
  have hlines := List.append_cancel_left heq
  obtain ⟨hname, hrest⟩ := h.name.append_cons_inj h'.name (by decide) (by decide) hlines
  obtain ⟨henums, hrest⟩ := enumCode_readable.flatMap_append_inj h.enums h'.enums
    (enumCode_ends _) (enumCode_ends _) hrest
  obtain ⟨hmessages, -⟩ := messageCode_readable.flatMap_append_inj h.messages h'.messages
    messageCode_ends messageCode_ends (congrArg (· ++ []) hrest)
  exact Outline.mk.injEq .. ▸ ⟨hname, henums, hmessages⟩

end Outline

namespace Schema

theorem toString_string (text : String) : toString text = text :=
  rfl

theorem toList_canonicalVariant (v : Variant) : (canonicalVariant v).toList = v.shape.code := by
  simp [canonicalVariant, VariantShape.code, Variant.shape, toString_string]

theorem label_typeShape (s : Schema) (type : TypeRef) :
    (s.typeShape type).label = s.typeLabel type := by
  cases type <;> rfl

/-- The canonical text of a field is the code of its shape. -/
theorem toList_canonicalField (s : Schema) (f : Field) :
    (s.canonicalField f).toList = (s.fieldShape f).code := by
  simp [canonicalField, FieldShape.code, fieldShape, label_typeShape, toString_string]

/-- The canonical text of an enum is the code of its outline. -/
theorem toList_canonicalEnum (e : Enum) :
    (canonicalEnum e).toList =
      Outline.enumCode (e.name, e.variantsByValue.map Variant.shape) := by
  simp [canonicalEnum, Outline.enumCode, Roster.code, toList_canonicalVariant, List.flatMap_map]

/-- The canonical text of a message is the code of its outline. -/
theorem toList_canonicalMessage (s : Schema) (m : Message) :
    (s.canonicalMessage m).toList =
      Outline.messageCode (m.name, m.fieldsByTag.map s.fieldShape) := by
  simp [canonicalMessage, Outline.messageCode, Roster.code, toList_canonicalField, List.flatMap_map]

/-- The canonical form is the text of the outline. -/
theorem toList_canonicalForm (s : Schema) : s.canonicalForm.toList = s.outline.code := by
  simp [canonicalForm, Outline.code, outline, toList_canonicalEnum, toList_canonicalMessage,
    List.flatMap_map]

/-- The name that an index stands for is spelled as names are, also if it stands for nothing. -/
theorem spelled_getElem?_map {α : Type} {as : List α} {name : α → String}
    (h : ∀ a ∈ as, Text.isWord (name a) = true) (index : Nat) :
    Spelled ((as[index]?.map name).getD "") := by
  cases hget : as[index]? with
  | none => exact nofun
  | some a => exact isWordRest_of_isWord (h a (List.mem_of_getElem? hget))

/-- In a schema with words for names, every type is spelled. -/
theorem Worded.typeShape_spelled {s : Schema} (h : s.Worded) (type : TypeRef) :
    (s.typeShape type).Spelled := by
  cases type with
  | primitive p => trivial
  | message index => exact spelled_getElem?_map (fun m hm => (h.messages m hm).1) index
  | enum index => exact spelled_getElem?_map (fun e he => (h.enums e he).1) index

/-- And so is the whole outline. -/
theorem Worded.outline_spelled {s : Schema} (h : s.Worded) : s.outline.Spelled := by
  refine ⟨isWordRest_of_isWord h.name, fun r hr => ?_, fun r hr => ?_⟩
  · obtain ⟨e, he, rfl⟩ := List.mem_map.mp hr
    obtain ⟨hname, hlabels⟩ := h.enums e ((List.mergeSort_perm _ _).mem_iff.mp he)
    refine ⟨isWordRest_of_isWord hname, fun v hv => ?_⟩
    obtain ⟨w, hw, rfl⟩ := List.mem_map.mp hv
    exact isWordRest_of_isWord (hlabels w ((List.mergeSort_perm _ _).mem_iff.mp hw))
  · obtain ⟨m, hm, rfl⟩ := List.mem_map.mp hr
    obtain ⟨hname, hfields⟩ := h.messages m ((List.mergeSort_perm _ _).mem_iff.mp hm)
    refine ⟨isWordRest_of_isWord hname, fun f hf => ?_⟩
    obtain ⟨w, hw, rfl⟩ := List.mem_map.mp hf
    have hword := hfields w ((List.mergeSort_perm _ _).mem_iff.mp hw)
    exact ⟨isWordRest_of_isWord hword, h.typeShape_spelled w.type⟩

/-- **Canonical forms are equal exactly if wire shapes are**, for schemas that come from texts. -/
theorem canonicalForm_eq_iff_wireShape_eq {mode mode' : ErrorMode} {text text' : String}
    {s s' : Schema} (h : Schema.ofText mode text = .ok s)
    (h' : Schema.ofText mode' text' = .ok s') :
    s.canonicalForm = s'.canonicalForm ↔ s.wireShape = s'.wireShape := by
  rw [← outline_eq_iff (ofText_distinct h) (ofText_distinct h'), ← String.toList_inj,
    toList_canonicalForm, toList_canonicalForm]
  refine ⟨?_, congrArg Outline.code⟩
  exact Outline.code_injective (ofText_worded h).outline_spelled (ofText_worded h').outline_spelled

/-- Two messages and an enum. -/
def plainText : String :=
  "enum K \x7b a = -1; b = 2; \x7d message L \x7b\x7d message N \x7b k: K = 1; l: L = 2; \x7d"

/-- The same in another order, so that the indices differ too, and with a constant. -/
def shuffledText : String :=
  "message N \x7bl:L=2;k:K=1;\x7d message L \x7b\x7d const c:bool=true; enum K \x7bb=2;a=-1;\x7d"

/-- Two texts in a different order with the same canonical form. -/
theorem shuffledText_canonicalForm_eq :
    ∃ s s', Schema.ofText .failFast plainText = .ok s ∧
      Schema.ofText .collect shuffledText = .ok s' ∧ s ≠ s' ∧ s.wireShape = s'.wireShape ∧
        s.canonicalForm = s'.canonicalForm := by
  have hrun : ∃ s ∈ (Schema.ofText .failFast plainText).toOption,
      ∃ s' ∈ (Schema.ofText .collect shuffledText).toOption,
        s ≠ s' ∧ s.wireShape = s'.wireShape := by decide +kernel
  obtain ⟨s, hs, s', hs', hne, hshape⟩ := hrun
  have h := eq_ok_of_mem_toOption hs
  have h' := eq_ok_of_mem_toOption hs'
  exact ⟨s, s', h, h', hne, hshape, (canonicalForm_eq_iff_wireShape_eq h h').mpr hshape⟩

end Schema

end WireSchema
