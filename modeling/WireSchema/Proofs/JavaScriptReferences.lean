import WireSchema.Proofs.ClaimedNames
import WireSchema.Proofs.JavaScriptProgram
import WireSchema.Proofs.NumberText

/-!
# Names in generated JavaScript

The same for the module: the names in it are those that the schema's declarations get, the names
that the module reserves, the two methods that classes call on each other, and words that start with
a small letter (`Expected`). Properties are always selected, and the labels of an enum are keys.
-/

namespace WireSchema.JavaScript

open Source

/-! ## Expected names -/

/-- The methods that classes call on each other. -/
def privateMethods : List String :=
  ["_write", "_read"]

/-- What a name in a generated module can be. -/
def Expected (s : Schema) (w : String) : Prop :=
  w ∈ moduleNames s ∨ w ∈ reservedNames ∨ w ∈ privateMethods ∨
    ∃ c ∈ w.toList.head?, c.isLower = true

/-- Does the name belong to generated code itself? -/
def isOwn (cs : List Char) : Bool :=
  cs.head?.any Char.isLower || ((reservedNames ++ privateMethods).map String.toList).contains cs

/-- What the module needs to be read: the names of a schema are words, its types are there and its
constants are numbers. -/
structure Legible (s : Schema) : Prop where
  name : isName s.name = true
  moduleNames : ∀ p ∈ moduleNames s, isName p = true
  labels : ∀ e ∈ s.enums, ∀ v ∈ e.variants, isName v.label = true
  properties : ∀ m ∈ s.messages, ∀ f ∈ m.fields, isName (property f) = true
  types : ∀ m ∈ s.messages, ∀ f ∈ m.fields, s.Refers f.type
  numbers : ∀ c ∈ s.constants, ∀ x, c.value = .number x → x.isNaN = false

section

variable {s : Schema}

/-- The words that the generator writes itself are expected in every module. -/
theorem expected_of_isOwn (cs : List Char) (h : isOwn cs = true) :
    Expected s (String.ofList cs) := by
  rw [isOwn, Bool.or_eq_true] at h
  rcases h with h | h
  · rw [Option.any_eq_true] at h
    refine .inr (.inr (.inr ?_))
    rwa [String.toList_ofList]
  · obtain ⟨w, hw, rfl⟩ := List.mem_map.mp (List.contains_iff_mem.mp h)
    rw [String.ofList_toList]
    exact .inr ((List.mem_append.mp hw).imp_right .inl)

/-- A name of the module can be read in code. -/
theorem reads_moduleName (h : Legible s) {p : String} (hp : p ∈ moduleNames s) :
    Reads (Expected s) .code p .code :=
  reads_name (h.moduleNames p hp) fun _ => .inl hp

theorem mem_moduleNames_constant {c : Constant} (hc : c ∈ s.constants) :
    constantName c ∈ moduleNames s :=
  List.mem_append_left _ (List.mem_append_left _ (List.mem_map_of_mem hc))

theorem mem_moduleNames_enum {e : Enum} (he : e ∈ s.enums) : enumObject e ∈ moduleNames s :=
  List.mem_append_left _ (List.mem_append_right _ (List.mem_map_of_mem he))

theorem mem_moduleNames_message {m : Message} (hm : m ∈ s.messages) : className m ∈ moduleNames s :=
  List.mem_append_right _ (List.mem_map_of_mem hm)

theorem refers_blank : Refers (Expected s) "" :=
  Fills.nil.refers expected_of_isOwn (by decide)

/-- Indenting lines adds no reference. -/
theorem refers_indentedLines {lines : List String} (h : ∀ line ∈ lines, Refers (Expected s) line) :
    ∀ line ∈ indented lines, Refers (Expected s) line :=
  refers_indented rfl rfl h

/-! ## Constants and enums -/

/-- A literal names nothing, unless it is the number that is none. -/
theorem reads_literal {c : Constant} (h : ∀ x, c.value = .number x → x.isNaN = false) :
    ∃ q : Place, q.isNumberEnd = true ∧ Reads (Expected s) .code (literal c) q := by
  rw [literal]
  cases hvalue : c.value with
  | integer i =>
    refine ⟨.code, rfl, ?_⟩
    dsimp only
    split
    · exact reads_intWith i (List.forall_mem_singleton.mpr rfl)
    · exact reads_int i
  | number x => exact reads_display (expected_of_isOwn ['i', 'n', 'f'] rfl) (h x hvalue)
  | string text => exact ⟨.code, rfl, reads_quote text⟩
  | bool b =>
    refine ⟨.code, rfl, ?_⟩
    cases b <;> exact (Fills.start _).readsCode expected_of_isOwn (by decide)

/-- After a number, a statement can be closed. -/
theorem reads_closed {text : String} {q : Place} (h : Reads (Expected s) .code text q)
    (hq : q.isNumberEnd = true) : Reads (Expected s) .code (text ++ ";") .code := by
  refine h.append ?_ (.inr rfl)
  cases q with
  | code | dot => exact reads_fixed rfl rfl
  | _ => cases hq

variable (h : Legible s)

include h

/-- The line of a constant names the constant only. -/
theorem refers_constant {c : Constant} (hc : c ∈ s.constants) :
    Refers (Expected s) (constantLine c) := by
  have hname := reads_moduleName h (mem_moduleNames_constant hc)
  obtain ⟨q, hq, hvalue⟩ : ∃ q : Place, q.isNumberEnd = true ∧ Reads (Expected s) .code _ q :=
    reads_literal (h.numbers c hc)
  have hline : constantLine c = "export const " ++ constantName c ++ " = " ++ (literal c ++ ";") :=
    String.append_assoc
  rw [hline]
  refine Reads.refers (q := .code) ?_ rfl
  exact (((Fills.start _).phrase hname).text _).readsThen expected_of_isOwn (reads_closed hvalue hq)
    (by decide)

/-- The lines of an enum refer to its object and its labels. -/
theorem refers_enum {e : Enum} (he : e ∈ s.enums) :
    ∀ line ∈ enumLines e, Refers (Expected s) line := by
  have hname := reads_moduleName h (mem_moduleNames_enum he)
  refine List.forall_mem_append.mpr ⟨List.forall_mem_append.mpr ⟨List.forall_mem_singleton.mpr ?_,
    List.forall_mem_map.mpr fun v hv => ?_⟩, ?_⟩
  · exact (((Fills.start _).phrase hname).text _).refers expected_of_isOwn (by decide)
  · have hline : "  " ++ v.label ++ ": " ++ toString v.value ++ "," =
        "  " ++ (v.label ++ (": " ++ (toString v.value ++ ","))) := by
      simp only [String.append_assoc]
    have hvalue : Reads (Expected s) .code (toString v.value ++ ",") .code :=
      (reads_int v.value).append (reads_fixed rfl rfl) (.inr rfl)
    rw [hline]
    exact (refers_keyed (h.labels e he v hv) hvalue rfl (head?_marks_int v.value ",")).indent
      rfl rfl
  · exact Spelled.refers (by repeat constructor) expected_of_isOwn (by decide)

end

/-! ## Writers and readers -/

/-- The name of a property, where one is used, is a word. -/
def Operand.Named : Operand → Prop
  | .member name => isName name = true
  | .element => True

/-- The class of a nested message can be read. -/
def ValueCoder.Sound (ok : String → Prop) : ValueCoder → Prop
  | .call _ => True
  | .nested name => Reads ok .code name .code

def Step.Sound (ok : String → Prop) : Step → Prop
  | .tag _ => True
  | .count member => isName member = true
  | .value coder operand => coder.Sound ok ∧ operand.Named

def Statement.Sound (ok : String → Prop) : Statement → Prop
  | .step s => s.Sound ok
  | .ifSet member steps | .forEach member steps =>
    isName member = true ∧ ∀ s ∈ steps, s.Sound ok

def Case.Sound (ok : String → Prop) : Case → Prop
  | .store member coder | .collect member coder => isName member = true ∧ coder.Sound ok

section

variable {s : Schema}

theorem reads_member {name : String} (h : isName name = true) :
    Reads (Expected s) .code (memberText name) .code :=
  ((Fills.start _).silent h).readsCode expected_of_isOwn (by decide)

/-- An operand is a member or the item of a loop. -/
theorem reads_operand {operand : Operand} (h : operand.Named) :
    Reads (Expected s) .code operand.text .code := by
  cases operand with
  | member name => exact reads_member h
  | element => exact (Fills.start _).readsCode expected_of_isOwn (by decide)

/-- A sound step refers to expected names. -/
theorem refers_step {step : Step} (h : step.Sound (Expected s)) :
    Refers (Expected s) step.text := by
  cases step with
  | tag n =>
    exact (((Fills.start _).phrase (reads_nat n)).text _).refers expected_of_isOwn (by decide)
  | count member =>
    exact (((Fills.start _).phrase (reads_member h)).text _).refers expected_of_isOwn (by decide)
  | value coder operand =>
    obtain ⟨hcoder, hoperand⟩ := h
    have hoperand : Reads (Expected s) .code operand.text .code := reads_operand hoperand
    cases coder with
    | call coder =>
      exact (((((Fills.start _).silent (isName_writer coder)).text _).phrase hoperand).text
        _).refers expected_of_isOwn (by decide)
    | nested name =>
      exact ((((Fills.startPhrase hcoder).text _).phrase hoperand).text _).refers expected_of_isOwn
        (by decide)

/-- So does a sound statement, with all its lines. -/
theorem refers_statement {statement : Statement} (h : statement.Sound (Expected s)) :
    ∀ line ∈ statement.lines, Refers (Expected s) line := by
  have hsteps : ∀ {steps : List Step}, (∀ step ∈ steps, step.Sound (Expected s)) →
      ∀ line ∈ indented (steps.map Step.text), Refers (Expected s) line := by
    intro steps hsteps
    exact refers_indentedLines (List.forall_mem_map.mpr fun step hstep =>
      refers_step (hsteps step hstep))
  have hclose : ∀ line ∈ ["\x7d"], Refers (Expected s) line :=
    Spelled.refers (by repeat constructor) expected_of_isOwn (by decide)
  cases statement with
  | step step => exact List.forall_mem_singleton.mpr (refers_step h)
  | ifSet member steps =>
    refine List.forall_mem_append.mpr ⟨List.forall_mem_cons.mpr ⟨?_, hsteps h.2⟩, hclose⟩
    exact (((Fills.start _).phrase (reads_member h.1)).text _).refers expected_of_isOwn (by decide)
  | forEach member steps =>
    refine List.forall_mem_append.mpr ⟨List.forall_mem_cons.mpr ⟨?_, hsteps h.2⟩, hclose⟩
    exact (((Fills.start _).phrase (reads_member h.1)).text _).refers expected_of_isOwn (by decide)

/-- Reading a value names expected things if the coder is sound. -/
theorem reads_coder {coder : ValueCoder} (h : coder.Sound (Expected s)) :
    Reads (Expected s) .code coder.readText .code := by
  cases coder with
  | call coder =>
    exact (((Fills.start _).silent (isName_reader coder)).text _).readsCode expected_of_isOwn
      (by decide)
  | nested name => exact ((Fills.startPhrase h).text _).readsCode expected_of_isOwn (by decide)

/-- So does a case of a decoder. -/
theorem refers_caseLines (tag : Nat) {body : Case} (h : body.Sound (Expected s)) :
    ∀ line ∈ caseLines tag body, Refers (Expected s) line := by
  cases body with
  | store member coder =>
    obtain ⟨hmember, hcoder⟩ := h
    exact Shaped.refers expected_of_isOwn
      (.cons (((Fills.start _).phrase (reads_nat tag)).text _) <|
        .cons (((((Fills.start _).phrase (reads_member hmember)).text _).phrase
          (reads_coder hcoder)).text _) <| .cons (.start _) .nil) (by decide)
  | collect member coder =>
    obtain ⟨hmember, hcoder⟩ := h
    exact Shaped.refers expected_of_isOwn
      (.cons (((Fills.start _).phrase (reads_nat tag)).text _) <| .cons (.start _) <|
        .cons (.start _) <| .cons (.start _) <|
        .cons (((Fills.start _).phrase (reads_coder hcoder)).text _) <| .cons (.start _) <|
        .cons (((Fills.start _).phrase (reads_member hmember)).text _) <| .cons (.start _) <|
        .cons (.start _) .nil) (by decide)

/-- Every value is written by a method of the writer, or by a class of the module. -/
theorem sound_valueWriter (h : Legible s) {type : TypeRef} (htype : s.Refers type) :
    (valueWriter s (.ofType type)).Sound (Expected s) := by
  cases type with
  | primitive p => cases p <;> trivial
  | enum index => trivial
  | message index =>
    obtain ⟨m, hm, hname⟩ := htype
    rw [Wire.Kind.ofType, valueWriter, hname]
    exact reads_moduleName h (mem_moduleNames_message (List.mem_of_getElem? hm))

/-- Every value is read by a method of the reader, or by a class of the module. -/
theorem sound_valueReader (h : Legible s) {type : TypeRef} (htype : s.Refers type) :
    (valueReader s (.ofType type)).Sound (Expected s) := by
  have hwriter := sound_valueWriter h htype
  cases type with
  | primitive p => cases p <;> trivial
  | enum index => trivial
  | message index => exact hwriter

/-- The encoder of a field is sound. -/
theorem sound_writeField (h : Legible s) {f : Wire.Field} (hkind : f.kind = .ofType f.field.type)
    (htype : s.Refers f.field.type) (hname : isName (property f.field) = true) :
    ∀ statement ∈ writeField s f, statement.Sound (Expected s) := by
  have hwriter := sound_valueWriter h htype
  rw [writeField, hkind]
  split
  · exact List.forall_mem_cons.mpr ⟨trivial, List.forall_mem_cons.mpr ⟨hname,
      List.forall_mem_singleton.mpr ⟨hname, List.forall_mem_singleton.mpr ⟨hwriter, trivial⟩⟩⟩⟩
  · split
    · exact List.forall_mem_cons.mpr ⟨trivial, List.forall_mem_singleton.mpr ⟨hwriter, hname⟩⟩
    · exact List.forall_mem_singleton.mpr ⟨hname, List.forall_mem_cons.mpr ⟨trivial,
        List.forall_mem_singleton.mpr ⟨hwriter, hname⟩⟩⟩

/-- The decoder of a field is sound. -/
theorem sound_readField (h : Legible s) {f : Wire.Field} (hkind : f.kind = .ofType f.field.type)
    (htype : s.Refers f.field.type) (hname : isName (property f.field) = true) :
    (readField s f).Sound (Expected s) := by
  have hreader := sound_valueReader h htype
  rw [readField, hkind]
  split <;> exact ⟨hname, hreader⟩

end

/-! ## Classes -/

section

variable {s : Schema}

/-- A default names nothing. -/
theorem reads_defaultValue (f : Wire.Field) : Reads (Expected s) .code (defaultValue f) .code := by
  rw [defaultValue]
  split
  · exact (Fills.start _).readsCode expected_of_isOwn (by decide)
  · split
    · exact (Fills.start _).readsCode expected_of_isOwn (by decide)
    · split
      · exact (Fills.start _).readsCode expected_of_isOwn (by decide)
      · exact (Fills.start _).readsCode expected_of_isOwn (by decide)
      · exact (Fills.start _).readsCode expected_of_isOwn (by decide)
      · split <;> exact (Fills.start _).readsCode expected_of_isOwn (by decide)

/-- A constructor refers to its own properties only. -/
theorem refers_constructor {properties : List (String × String)}
    (h : ∀ p ∈ properties, isName p.1 = true ∧ Reads (Expected s) .code p.2 .code) :
    ∀ line ∈ constructorLines properties, Refers (Expected s) line := by
  refine List.forall_mem_append.mpr ⟨List.forall_mem_append.mpr ⟨?_,
    List.forall_mem_map.mpr fun p hp => ?_⟩, ?_⟩
  · exact Spelled.refers (by repeat constructor) expected_of_isOwn (by decide)
  · obtain ⟨hname, hdefault⟩ := h p hp
    exact (((((((Fills.start _).silent hname).text _).silent hname).text _).phrase
      hdefault).text _).refers expected_of_isOwn (by decide)
  · exact Spelled.refers (by repeat constructor) expected_of_isOwn (by decide)

/-- The method that writes a message refers to what its statements refer to. -/
theorem refers_writeLines {statements : List Statement}
    (h : ∀ statement ∈ statements, statement.Sound (Expected s)) :
    ∀ line ∈ writeLines statements, Refers (Expected s) line := by
  refine List.forall_mem_append.mpr ⟨List.forall_mem_append.mpr ⟨?_, ?_⟩, ?_⟩
  · exact Spelled.refers (by repeat constructor) expected_of_isOwn (by decide)
  · exact refers_indentedLines (List.forall_mem_flatMap.mpr fun statement hstatement =>
      refers_statement (h statement hstatement))
  · exact Spelled.refers (by repeat constructor) expected_of_isOwn (by decide)

section

variable {name : String} (hclass : Reads (Expected s) .code name .code)

include hclass

theorem refers_encodeLines : ∀ line ∈ encodeLines name, Refers (Expected s) line :=
  Shaped.refers expected_of_isOwn
    (.cons (.start _) <| .cons (((Fills.start _).text _).text _) <|
      .cons (((Fills.start _).phrase hclass).text _) <| .cons (.start _) <| .cons (.start _) .nil)
    (by decide)

theorem refers_decodeLines : ∀ line ∈ decodeLines name, Refers (Expected s) line :=
  Shaped.refers expected_of_isOwn
    (.cons (.start _) <| .cons (((Fills.start _).text _).text _) <|
      .cons (((Fills.start _).phrase hclass).text _) <|
      .cons (((Fills.start _).phrase (reads_quote name)).text _) <| .cons (.start _) <|
      .cons (.start _) .nil) (by decide)

/-- The method that reads a message refers to what its cases refer to. -/
theorem refers_readLines (hname : isName name = true) {cases : List (Nat × Case)}
    (h : ∀ c ∈ cases, c.2.Sound (Expected s)) :
    ∀ line ∈ readLines name cases, Refers (Expected s) line := by
  refine List.forall_mem_append.mpr ⟨List.forall_mem_append.mpr ⟨?_, ?_⟩, ?_⟩
  · exact Shaped.refers expected_of_isOwn
      (.cons (.start _) <| .cons (((Fills.start _).phrase hclass).text _) <| .cons (.start _) <|
        .cons (.start _) <| .cons (.start _) <| .cons (.start _) <| .cons (.start _) .nil)
          (by decide)
  · exact refers_indented rfl rfl (List.forall_mem_flatMap.mpr fun c hc =>
      refers_caseLines c.1 (h c hc))
  · exact Shaped.refers expected_of_isOwn
      (.cons (.start _) <| .cons (((Fills.start _).silent hname).text _) <| .cons (.start _) <|
        .cons (.start _) <| .cons (.start _) .nil) (by decide)

end

/-- **The class of a planned message refers to expected names only.** -/
theorem refers_class (h : Legible s) {m : Wire.Message} (hm : m ∈ s.plan) (hordered : m.Ordered) :
    ∀ line ∈ (messageClass s m).lines, Refers (Expected s) line := by
  have hmessage := Schema.message_mem_of_mem_plan hm
  have hname := h.moduleNames _ (mem_moduleNames_message hmessage)
  have hclass := reads_moduleName h (mem_moduleNames_message hmessage)
  have hblank : ∀ line ∈ [""], Refers (Expected s) line :=
    List.forall_mem_singleton.mpr refers_blank
  have hproperty : ∀ f ∈ m.fields, isName (property f.field) = true := fun f hf =>
    h.properties _ hmessage _ (Schema.field_mem_of_mem_plan hm hf)
  have htype : ∀ f ∈ m.fields, s.Refers f.field.type := fun f hf =>
    h.types _ hmessage _ (Schema.field_mem_of_mem_plan hm hf)
  have hconstructor : ∀ line ∈ constructorLines (messageClass s m).properties,
      Refers (Expected s) line := by
    refine refers_constructor (List.forall_mem_map.mpr fun f hf => ?_)
    exact ⟨h.properties _ hmessage f hf, reads_defaultValue _⟩
  have hwriter : ∀ line ∈ writeLines (messageClass s m).writer, Refers (Expected s) line :=
    refers_writeLines (List.forall_mem_flatMap.mpr fun f hf =>
      sound_writeField h (hordered.kind_eq hf) (htype f hf) (hproperty f hf))
  have hreader : ∀ line ∈ readLines (messageClass s m).name (messageClass s m).reader,
      Refers (Expected s) line :=
    refers_readLines hclass hname (List.forall_mem_map.mpr fun f hf =>
      sound_readField h (hordered.kind_eq hf) (htype f hf) (hproperty f hf))
  have hhead : ∀ line ∈ ["export class " ++ (messageClass s m).name ++ " \x7b"],
      Refers (Expected s) line :=
    Shaped.refers expected_of_isOwn (.cons (((Fills.start _).phrase hclass).text _) .nil)
      (by decide)
  have hend : ∀ line ∈ ["\x7d"], Refers (Expected s) line :=
    Spelled.refers (by repeat constructor) expected_of_isOwn (by decide)
  rw [MessageClass.lines]
  simp only [List.forall_mem_append, and_assoc]
  exact ⟨hhead, refers_indentedLines hconstructor, hblank,
    refers_indentedLines (refers_encodeLines hclass), hblank,
    refers_indentedLines (refers_decodeLines hclass), hblank, refers_indentedLines hwriter, hblank,
    refers_indentedLines hreader, hend⟩

end

/-! ## Support code -/

section

variable {s : Schema}

/-- The methods of the two classes, with and without `BigInt`. -/
def supportMethods : List SupportMethod :=
  writerMethods ++ writerMethods64 ++ (readerMethods ++ readerMethods64)

/-- The bodies of the support methods, read one by one. -/
theorem refers_methodTexts : ∀ line ∈ supportMethods.flatMap fun m => m.comment ++ m.body,
    Refers (Expected s) line :=
  Spelled.refers (by repeat constructor) expected_of_isOwn (by decide +kernel)

/-- The name and the parameters of a method. -/
theorem reads_methodHead : ∀ m ∈ supportMethods,
    Reads (Expected s) .code m.name .code ∧ Reads (Expected s) .code m.parameters .code := by
  have hown : ∀ {w : String}, isName w = true → isOwn w.toList = true →
      Reads (Expected s) .code w .code := by
    intro w hw hown
    have hexpected : Expected s (String.ofList w.toList) := expected_of_isOwn _ hown
    rw [String.ofList_toList] at hexpected
    exact reads_name hw fun _ => hexpected
  have hmethods : ∀ m ∈ supportMethods, (isName m.name = true ∧ isOwn m.name.toList = true) ∧
      (m.parameters = "" ∨ isName m.parameters = true ∧ isOwn m.parameters.toList = true) := by
    decide +kernel
  intro m hm
  obtain ⟨⟨hname, hnameOwn⟩, hempty | ⟨hparameters, hparametersOwn⟩⟩ := hmethods m hm
  · rw [hempty]
    exact ⟨hown hname hnameOwn, Fills.nil.readsCode expected_of_isOwn (by decide)⟩
  · exact ⟨hown hname hnameOwn, hown hparameters hparametersOwn⟩

/-- A method of the support code refers to expected names. -/
theorem refers_method {m : SupportMethod} (hm : m ∈ supportMethods) :
    ∀ line ∈ m.lines, Refers (Expected s) line := by
  have htexts : ∀ line ∈ m.comment ++ m.body, Refers (Expected s) line :=
    List.forall_mem_flatMap.mp refers_methodTexts m hm
  obtain ⟨hcomment, hbody⟩ := List.forall_mem_append.mp htexts
  obtain ⟨hname, hparameters⟩ := reads_methodHead (s := s) m hm
  refine List.forall_mem_append.mpr ⟨List.forall_mem_append.mpr ⟨refers_indented rfl rfl hcomment,
    List.forall_mem_cons.mpr ⟨?_, refers_indented rfl rfl hbody⟩⟩, ?_⟩
  · exact (((((Fills.start _).phrase hname).text _).phrase hparameters).text _).refers
      expected_of_isOwn (by decide)
  · exact Spelled.refers (by repeat constructor) expected_of_isOwn (by decide)

/-- Blank lines between blocks add no reference. -/
theorem refers_intercalate {blocks : List (List String)}
    (h : ∀ block ∈ blocks, ∀ line ∈ block, Refers (Expected s) line) :
    ∀ line ∈ List.intercalate [""] blocks, Refers (Expected s) line := by
  induction blocks with
  | nil => exact nofun
  | cons block blocks ih =>
    obtain ⟨hblock, hblocks⟩ := List.forall_mem_cons.mp h
    cases blocks with
    | nil => simpa [List.intercalate] using hblock
    | cons next blocks =>
      have hcons : List.intercalate [""] (block :: next :: blocks) =
          block ++ "" :: List.intercalate [""] (next :: blocks) := rfl
      rw [hcons]
      exact List.forall_mem_append.mpr ⟨hblock, List.forall_mem_cons.mpr ⟨refers_blank, ih hblocks⟩⟩

/-- A class of the support code refers to what its methods refer to. -/
theorem refers_classLines {name : String} (hname : Reads (Expected s) .code name .code)
    {methods : List SupportMethod} (hmethods : methods ⊆ supportMethods) :
    ∀ line ∈ classLines name methods, Refers (Expected s) line := by
  refine List.forall_mem_append.mpr ⟨List.forall_mem_cons.mpr ⟨?_, refers_intercalate
    (List.forall_mem_map.mpr fun m hm => refers_method (hmethods hm))⟩, ?_⟩
  · exact (((Fills.start _).phrase hname).text _).refers expected_of_isOwn (by decide)
  · exact Spelled.refers (by repeat constructor) expected_of_isOwn (by decide)

theorem refers_supportLines (bigint : Bool) :
    ∀ line ∈ supportLines bigint, Refers (Expected s) line := by
  have hwriter : writerMethodsFor bigint ⊆ supportMethods := by
    refine List.append_subset.mpr ⟨?_, ?_⟩
    · exact List.subset_append_of_subset_left _ (List.subset_append_left _ _)
    · split
      · exact List.subset_append_of_subset_left _ (List.subset_append_right _ _)
      · exact List.nil_subset _
  have hreader : readerMethodsFor bigint ⊆ supportMethods := by
    refine List.append_subset.mpr ⟨?_, ?_⟩
    · exact List.subset_append_of_subset_right _ (List.subset_append_left _ _)
    · split
      · exact List.subset_append_of_subset_right _ (List.subset_append_right _ _)
      · exact List.nil_subset _
  have hblank : ∀ line ∈ [""], Refers (Expected s) line :=
    List.forall_mem_singleton.mpr refers_blank
  rw [supportLines]
  simp only [List.forall_mem_append, and_assoc]
  refine ⟨?_, hblank, refers_classLines ?_ hwriter, hblank, refers_classLines ?_ hreader⟩
  · exact Spelled.refers (by repeat constructor) expected_of_isOwn (by decide)
  · exact (Fills.start _).readsCode expected_of_isOwn (by decide)
  · exact (Fills.start _).readsCode expected_of_isOwn (by decide)

end

/-! ## The module -/

section

variable {s : Schema}

/-- **Every name in the module is expected.** -/
theorem refers_moduleLines (h : Legible s) (hordered : ∀ m ∈ s.plan, m.Ordered)
    (version : Fingerprint) (bigint : Bool) :
    ∀ line ∈ moduleLines s version bigint, Refers (Expected s) line := by
  have hblank : ∀ line ∈ [""], Refers (Expected s) line :=
    List.forall_mem_singleton.mpr refers_blank
  rw [moduleLines, declarationLines]
  simp only [List.forall_mem_append, and_assoc]
  refine ⟨?_, ?_, ?_, ?_, hblank, refers_supportLines bigint, hblank⟩
  · exact Shaped.refers expected_of_isOwn
      (.cons (((Fills.start _).silent h.name).text _) <| .cons .nil <|
        .cons (((((Fills.start _).text _).text _).phrase (reads_quote _)).text _) .nil) (by decide)
  · split
    · exact List.forall_mem_nil _
    · exact List.forall_mem_cons.mpr ⟨refers_blank,
        List.forall_mem_map.mpr fun c hc => refers_constant h hc⟩
  · exact List.forall_mem_flatMap.mpr fun e he =>
      List.forall_mem_cons.mpr ⟨refers_blank, refers_enum h he⟩
  · exact List.forall_mem_flatMap.mpr fun m hm =>
      List.forall_mem_cons.mpr ⟨refers_blank, refers_class h hm (hordered m hm)⟩

/-- The module of an accepted schema can be read. -/
theorem legible_of_ofText {mode : ErrorMode} {text : String} (h : Schema.ofText mode text = .ok s)
    {scope : Naming.Scope} (hnames : checkNames s = .ok scope) : Legible s := by
  have hs := Schema.ofText_worded h
  refine ⟨isName_of_isWord hs.name, fun p hp => ?_, fun e he v hv => ?_, fun m hm f hf => ?_,
    Schema.ofText_refers h, fun c hc x hx => Schema.ofText_constants_isNaN h hc hx⟩
  · exact isName_of_isWord (moduleNames_checked hnames p hp).1
  · exact isName_of_isWord ((hs.enums e he).2 v hv)
  · exact isName_of_isWord ((isWord_of_checkNames hnames m hm).2 f hf)

/-- **Every name in the generated file is expected.** -/
theorem refers_of_generate {mode : ErrorMode} {text : String} (h : Schema.ofText mode text = .ok s)
    {bigint : Bool} {files : List GeneratedFile} (hfiles : generate bigint s = .ok files) :
    ∀ file ∈ files, ∀ line ∈ linesOf file.contents, Refers (Expected s) line := by
  obtain ⟨⟨path, rfl⟩, scope, hnames⟩ := generate_eq_ok hfiles
  refine List.forall_mem_singleton.mpr ?_
  exact refers_linesOf (List.cons_ne_nil _ _) (refers_moduleLines (legible_of_ofText h hnames)
    (Schema.ofText_plan_ordered h) s.fingerprint bigint) path

end

end WireSchema.JavaScript
