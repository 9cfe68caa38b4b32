import WireSchema.Proofs.JavaScriptReferences
import WireSchema.Proofs.ObjectUses

/-!
# Calls of the writer and of the reader

Message classes know the writer as `w` and the reader as `r`. All that they do with them is to call
methods that the support code has under the same `BigInt` setting, and to pass them on
(`callsIn_class`). Which methods these are is decided where the coder of a value is chosen: a coder
for 64-bit integers is chosen for 64-bit kinds only (`coder_of_valueWriter`).
-/

namespace WireSchema.JavaScript

open Source

/-! ## Methods of the support code -/

/-- The writer and the reader, as message classes name them. -/
def codecs : List (List Char) :=
  [['w'], ['r']]

/-- The methods that the class of a codec has under a `BigInt` setting. -/
def methodsOf (bigint : Bool) (codec : List Char) : List SupportMethod :=
  if codec = ['w'] then writerMethodsFor bigint
  else if codec = ['r'] then readerMethodsFor bigint
  else []

/-- What follows a codec that is a parameter, is passed on, or is declared. -/
def passing : List Mark :=
  [.sign ',', .sign ')', .sign '=']

/-- The use of a codec is provided for: a method that the support code has, or no use of its own. -/
def Provided (bigint : Bool) (codec : List Char) : Use → Prop
  | .member name => ∃ m ∈ methodsOf bigint codec, m.name = String.ofList name
  | .other next => next ∈ passing

instance (bigint : Bool) (codec : List Char) : DecidablePred (Provided bigint codec)
  | .member name =>
    inferInstanceAs (Decidable (∃ m ∈ methodsOf bigint codec, m.name = String.ofList name))
  | .other next => inferInstanceAs (Decidable (next ∈ passing))

/-- Is the use provided for under both settings? -/
def isProvided (codec : List Char) (use : Use) : Bool :=
  Provided false codec use

/-- With `BigInt` there are more methods, not fewer. -/
theorem methodsOf_subset (bigint : Bool) (codec : List Char) :
    methodsOf false codec ⊆ methodsOf bigint codec := by
  rw [methodsOf, methodsOf]
  split
  · exact List.append_subset.mpr ⟨List.subset_append_left _ _, List.nil_subset _⟩
  · split
    · exact List.append_subset.mpr ⟨List.subset_append_left _ _, List.nil_subset _⟩
    · exact List.Subset.refl _

/-- What can be checked without the setting is provided in both settings. -/
theorem provided_of_isProvided {bigint : Bool} (codec : List Char) (use : Use)
    (h : isProvided codec use = true) : Provided bigint codec use := by
  have hfalse : Provided false codec use := of_decide_eq_true h
  cases use with
  | member name =>
    obtain ⟨m, hm, hname⟩ := hfalse
    exact ⟨m, methodsOf_subset bigint codec hm, hname⟩
  | other next => exact hfalse

/-! ## Coders -/

/-- Are the methods of the coder those for 64-bit integers? -/
def Coder.is64Bit : Coder → Bool
  | .varUint64 | .varInt64 => true
  | _ => false

/-- **The coders of values.** Only the reader has a method for signed bytes, and the methods for
64-bit integers are used for 64-bit kinds only. -/
theorem coder_of_valueWriter {s : Schema} {kind : Wire.Kind} {coder : Coder}
    (h : valueWriter s kind = .call coder) :
    coder ≠ .int8 ∧ (kind.is64Bit = false → coder.is64Bit = false) := by
  cases kind with
  | signedVarint type => cases type <;> cases h <;> decide
  | unsignedVarint type => cases type <;> cases h <;> decide
  | message index => cases h
  | _ =>
    cases h
    refine ⟨?_, fun _ => rfl⟩
    rintro ⟨⟩

/-- Only 64-bit kinds are read by 64-bit coders. -/
theorem coder_of_valueReader {s : Schema} {kind : Wire.Kind} {coder : Coder}
    (h : valueReader s kind = .call coder) (h64 : kind.is64Bit = false) :
    coder.is64Bit = false := by
  cases kind with
  | signedVarint type =>
    cases type with
    | int64 => cases h64
    | _ =>
      cases h
      rfl
  | unsignedVarint type =>
    cases type with
    | uint64 => cases h64
    | _ =>
      cases h
      rfl
  | message index => cases h
  | _ =>
    cases h
    rfl

/-- The methods of all coders are in the support code, those for 64-bit integers with `BigInt`. -/
theorem provided_method {bigint : Bool} {codec : List Char} {coder : Coder} {name : String}
    (h64 : bigint = false → coder.is64Bit = false)
    (hname : ∃ m ∈ methodsOf (coder.is64Bit) codec, m.name = name) :
    Provided bigint codec (.member name.toList) := by
  have hprovided : ∃ m ∈ methodsOf bigint codec, m.name = name := by
    cases bigint with
    | false => rwa [h64 rfl] at hname
    | true =>
      cases hcoder : coder.is64Bit with
      | true => rwa [hcoder] at hname
      | false =>
        rw [hcoder] at hname
        obtain ⟨m, hm, hname⟩ := hname
        exact ⟨m, methodsOf_subset true codec hm, hname⟩
  rwa [Provided, String.ofList_toList]

section

variable {bigint : Bool} {coder : Coder} (h64 : bigint = false → coder.is64Bit = false)

include h64

/-- Every coder has a method of the writer, signed bytes apart. -/
theorem provided_writer (hne : coder ≠ .int8) :
    Provided bigint ['w'] (.member coder.writer.toList) := by
  refine provided_method h64 ?_
  cases coder with
  | int8 => exact absurd rfl hne
  | _ => decide +kernel

/-- Every coder has a method of the reader. -/
theorem provided_reader : Provided bigint ['r'] (.member coder.reader.toList) := by
  refine provided_method h64 ?_
  cases coder <;> decide +kernel

end

/-! ## Parts of lines -/

/-- A text that leads from code to code, with uses of the codecs that are provided for. -/
def Calls (bigint : Bool) (text : String) : Prop :=
  Uses codecs (Provided bigint) .start text .start

/-- The lines can be read, and all uses of the codecs in them are provided for. -/
def CallsIn (bigint : Bool) (lines : List String) : Prop :=
  ∀ line ∈ lines, UsesOnly codecs (Provided bigint) line

section

variable {bigint : Bool} {text text' : String} {cs : List Char}

/-! ### Fixed texts -/

/-- A fixed text calls what it is seen to call. -/
theorem calls_fixed (h : isLink codecs isProvided cs = true) : Calls bigint (String.ofList cs) :=
  uses_link provided_of_isProvided h

/-- A text that does not end in a word may be put in front. -/
theorem Calls.after (h : Calls bigint text)
    (hcheck : isLink codecs isProvided cs = true ∧ endsInWord cs = false) :
    Calls bigint (String.ofList cs ++ text) :=
  Uses.after provided_of_isProvided hcheck h

/-- A text that does not start in a word may be put behind. -/
theorem Calls.close (h : Calls bigint text)
    (hcheck : isLink codecs isProvided cs = true ∧ startsInWord cs = false) :
    Calls bigint (text ++ String.ofList cs) :=
  Uses.close provided_of_isProvided h hcheck

/-- Two texts can be put together with a sign between them. -/
theorem Calls.link (h : Calls bigint text) (h' : Calls bigint text')
    (hcheck : cs ≠ [] ∧ isLink codecs isProvided cs = true ∧ startsInWord cs = false ∧
      endsInWord cs = false) : Calls bigint (text ++ String.ofList cs ++ text') :=
  Uses.link provided_of_isProvided h hcheck h'

theorem Calls.usesOnly (h : Calls bigint text) : UsesOnly codecs (Provided bigint) text :=
  Uses.usesOnly h rfl

/-- Fixed lines call what they are seen to call. -/
theorem callsIn_fixed {lines : List String} {css : List (List Char)} (h : Source.Spelled lines css)
    (hcheck : (css.all fun cs =>
      (usesOf? codecs cs).any (·.all fun u => isProvided u.1 u.2)) = true) :
    CallsIn bigint lines :=
  h.usesOnly provided_of_isProvided hcheck

theorem CallsIn.indented {lines : List String} (h : CallsIn bigint lines) :
    CallsIn bigint (indented lines) :=
  usesOnly_indented rfl rfl h

/-- Lines behind lines. -/
theorem CallsIn.append {lines lines' : List String} (h : CallsIn bigint lines)
    (h' : CallsIn bigint lines') : CallsIn bigint (lines ++ lines') :=
  List.forall_mem_append.mpr ⟨h, h'⟩

theorem Calls.cons (h : Calls bigint text) {lines : List String} (h' : CallsIn bigint lines) :
    CallsIn bigint (text :: lines) :=
  List.forall_mem_cons.mpr ⟨h.usesOnly, h'⟩

/-! ### Open places -/

/-- A text in which the writer and the reader do not occur calls nothing. -/
theorem calls_of_reads (h : Reads (·.toList ∉ codecs) .code text .code) :
    Calls bigint text :=
  h.uses (by decide)

theorem notMem_codecs (cs : List Char) (h : (!codecs.contains cs) = true) :
    (String.ofList cs).toList ∉ codecs := by
  simpa using h

theorem calls_member {name : String} (h : isName name = true) : Calls bigint (memberText name) :=
  calls_of_reads (((Fills.start _).silent h).readsCode notMem_codecs (by decide))

/-- An operand is neither the writer nor the reader. -/
theorem calls_operand {operand : Operand} (h : operand.Named) : Calls bigint operand.text := by
  cases operand with
  | member name => exact calls_member h
  | element => exact calls_of_reads ((Fills.start _).readsCode notMem_codecs (by decide))

/-- A class is no codec. -/
theorem calls_name {name : String} (hname : isName name = true)
    (hstart : Naming.StartsCapital name) :
    Calls bigint name := by
  refine calls_of_reads (reads_name hname fun _ hmem => ?_)
  obtain ⟨c, hc, hcapital⟩ := hstart
  have hcodecs : ∀ o ∈ codecs, o.head?.any (fun c => c.isUpper || c = '_') = false := by decide
  have hnone := hcodecs _ hmem
  rw [Option.mem_def.mp hc, Option.any_some, Bool.or_eq_false_iff, decide_eq_false_iff_not] at hnone
  rcases hcapital with hupper | hunderscore
  · rw [hnone.1] at hupper
    cases hupper
  · exact hnone.2 hunderscore

/-- A method of a codec. -/
theorem calls_method {codec : List Char} (hcodec : codec ∈ codecs) {name : String}
    (hname : isName name = true) (hprovided : Provided bigint codec (.member name.toList)) :
    Calls bigint (String.ofList (codec ++ ['.']) ++ name) := by
  have hlead : ∀ o ∈ codecs, endsInWord (o ++ ['.']) = false ∧
      Stand.start.through codecs (marks (o ++ ['.'])) = ⟨.dot, .selecting o⟩ ∧
      usesFrom codecs .start (marks (o ++ ['.'])) = [] := by decide
  obtain ⟨hcut, hstand, huses⟩ := hlead codec hcodec
  have hobject : Uses codecs (Provided bigint) .start (String.ofList (codec ++ ['.']))
      ⟨.dot, .selecting codec⟩ := by
    refine ⟨by rw [String.toList_ofList, hstand], ?_⟩
    rw [String.toList_ofList, huses]
    exact List.forall_mem_nil _
  refine hobject.append (uses_member hname hprovided) (.inl ?_)
  rw [String.toList_ofList, hcut]

/-! ## Writers -/

/-- How a value is written is provided for. -/
def ValueCoder.Writable (bigint : Bool) : ValueCoder → Prop
  | .call coder => Provided bigint ['w'] (.member coder.writer.toList)
  | .nested name => Calls bigint name

/-- How a value is read is provided for. -/
def ValueCoder.Readable (bigint : Bool) : ValueCoder → Prop
  | .call coder => Provided bigint ['r'] (.member coder.reader.toList)
  | .nested name => Calls bigint name

/-- Writing a tag calls a method that is there. -/
theorem calls_tag (n : Nat) : Calls bigint (Step.tag n).text :=
  ((calls_of_reads (reads_nat n)).after (by decide)).close (by decide)

theorem calls_count {member : String} (h : isName member = true) :
    Calls bigint (Step.count member).text :=
  ((calls_member h).after (by decide)).close (by decide)

/-- Writing a value calls a method that is there, or passes the writer on. -/
theorem calls_value {coder : ValueCoder} (hcoder : coder.Writable bigint) {operand : Operand}
    (hoperand : operand.Named) : Calls bigint (Step.value coder operand).text := by
  have hoperand : Calls bigint operand.text := calls_operand hoperand
  cases coder with
  | call coder =>
    have hmethod : Calls bigint ("w." ++ coder.writer) :=
      calls_method (by decide) (isName_writer coder) hcoder
    exact (hmethod.link hoperand (by decide)).close (by decide)
  | nested name =>
    have hclass : Calls bigint name := hcoder
    exact (hclass.link hoperand (by decide)).close (by decide)

/-- Reading a value calls a method that is there, or passes the reader on. -/
theorem calls_read {coder : ValueCoder} (hcoder : coder.Readable bigint) :
    Calls bigint coder.readText := by
  cases coder with
  | call coder =>
    have hmethod : Calls bigint ("r." ++ coder.reader) :=
      calls_method (by decide) (isName_reader coder) hcoder
    exact hmethod.close (by decide)
  | nested name =>
    have hclass : Calls bigint name := hcoder
    exact hclass.close (by decide)

theorem callsIn_steps {steps : List Step} (h : ∀ step ∈ steps, Calls bigint step.text) :
    CallsIn bigint (indented (steps.map Step.text)) :=
  CallsIn.indented (List.forall_mem_map.mpr fun step hstep => (h step hstep).usesOnly)

theorem callsIn_close : CallsIn bigint ["\x7d"] :=
  callsIn_fixed (by repeat constructor) (by decide)

/-- The statements that write a field call nothing but methods of the writer. -/
theorem callsIn_writeField {s : Schema} {f : Wire.Field} (hname : isName (property f.field) = true)
    (hcoder : (valueWriter s f.kind).Writable bigint) :
    ∀ statement ∈ writeField s f, CallsIn bigint statement.lines := by
  have htag : Calls bigint (Step.tag f.tag).text := calls_tag f.tag
  have hmember :
      Calls bigint (Step.value (valueWriter s f.kind) (.member (property f.field))).text :=
    calls_value hcoder hname
  have hstep : ∀ {step : Step}, Calls bigint step.text →
      CallsIn bigint (Statement.step step).lines :=
    fun hstep => List.forall_mem_singleton.mpr hstep.usesOnly
  rw [writeField]
  split
  · -- the count stands before the elements
    have helement : Calls bigint (Step.value (valueWriter s f.kind) .element).text :=
      calls_value hcoder trivial
    have hhead : Calls bigint ("for (const v of " ++ memberText (property f.field) ++ ") \x7b") :=
      ((calls_member hname).after (by decide)).close (by decide)
    have hloop : CallsIn bigint
        (Statement.forEach (property f.field) [.value (valueWriter s f.kind) .element]).lines :=
      (hhead.cons (callsIn_steps (List.forall_mem_singleton.mpr helement))).append callsIn_close
    exact List.forall_mem_cons.mpr ⟨hstep htag, List.forall_mem_cons.mpr ⟨hstep (calls_count hname),
      List.forall_mem_singleton.mpr hloop⟩⟩
  · split
    · exact List.forall_mem_cons.mpr ⟨hstep htag, List.forall_mem_singleton.mpr (hstep hmember)⟩
    · have hhead : Calls bigint ("if (" ++ memberText (property f.field) ++ " != null) \x7b") :=
        ((calls_member hname).after (by decide)).close (by decide)
      have hsteps : CallsIn bigint (indented ([Step.tag f.tag,
          .value (valueWriter s f.kind) (.member (property f.field))].map Step.text)) :=
        callsIn_steps (List.forall_mem_cons.mpr ⟨htag, List.forall_mem_singleton.mpr hmember⟩)
      exact List.forall_mem_singleton.mpr ((hhead.cons hsteps).append callsIn_close)

/-- So does the whole method that writes a message. -/
theorem callsIn_writeLines {statements : List Statement}
    (h : ∀ statement ∈ statements, CallsIn bigint statement.lines) :
    CallsIn bigint (writeLines statements) := by
  have hstatements : CallsIn bigint (statements.flatMap Statement.lines) :=
    List.forall_mem_flatMap.mpr h
  refine List.forall_mem_append.mpr ⟨List.forall_mem_append.mpr ⟨?_, hstatements.indented⟩, ?_⟩
  · exact callsIn_fixed (by repeat constructor) (by decide)
  · exact callsIn_fixed (by repeat constructor) (by decide)

/-! ## Readers -/

/-- The case that reads a field calls nothing but methods of the reader. -/
theorem callsIn_readField {s : Schema} {f : Wire.Field} (hname : isName (property f.field) = true)
    (hcoder : (valueReader s f.kind).Readable bigint) :
    CallsIn bigint (caseLines f.tag (readField s f)) := by
  have hread : Calls bigint (valueReader s f.kind).readText := calls_read hcoder
  have hmember : Calls bigint ("  " ++ memberText (property f.field)) :=
    (calls_member hname).after (by decide)
  have htag : Calls bigint ("case " ++ toString f.tag) :=
    (calls_of_reads (reads_nat f.tag)).after (by decide)
  rw [readField]
  split
  · have hhead : Calls bigint ("case " ++ toString f.tag ++ ": \x7b") := htag.close (by decide)
    have hcount : CallsIn bigint ["  const n = r.readLength();", "  const items = [];",
        "  for (let i = 0; i < n; i++) \x7b"] := callsIn_fixed (by repeat constructor) (by decide)
    have hpush : Calls bigint ("    items.push(" ++ (valueReader s f.kind).readText ++ ");") :=
      (hread.after (by decide)).close (by decide)
    have hloop : Calls bigint "  \x7d" := calls_fixed (by decide)
    have hstore : Calls bigint ("  " ++ memberText (property f.field) ++ " = items;") :=
      hmember.close (by decide)
    have hbreak : CallsIn bigint ["  break;", "\x7d"] :=
      callsIn_fixed (by repeat constructor) (by decide)
    exact hhead.cons (hcount.append (hpush.cons (hloop.cons (hstore.cons hbreak))))
  · have hhead : Calls bigint ("case " ++ toString f.tag ++ ":") := htag.close (by decide)
    have hstore : Calls bigint ("  " ++ memberText (property f.field) ++ " = " ++
        (valueReader s f.kind).readText ++ ";") :=
          (hmember.link hread (by decide)).close (by decide)
    have hbreak : CallsIn bigint ["  break;"] := callsIn_fixed (by repeat constructor) (by decide)
    exact hhead.cons (hstore.cons hbreak)

/-- So does the whole method that reads a message. -/
theorem callsIn_readLines {name : String} (hname : isName name = true) (hclass : Calls bigint name)
    {cases : List (Nat × Case)} (h : ∀ c ∈ cases, CallsIn bigint (caseLines c.1 c.2)) :
    CallsIn bigint (readLines name cases) := by
  have hhead : Calls bigint "static _read(r) \x7b" := calls_fixed (by decide)
  have hnew : Calls bigint ("  const m = new " ++ name ++ "();") :=
    (hclass.after (by decide)).close (by decide)
  have hdefault : Calls bigint "      default:" := calls_fixed (by decide)
  have hunknown : Calls bigint
      ("        throw new Error(`ango: unknown tag $\x7btag\x7d in " ++ name ++ "`);") :=
    calls_of_reads ((((Fills.start _).silent hname).text _).readsCode notMem_codecs (by decide))
  refine List.forall_mem_append.mpr ⟨List.forall_mem_append.mpr ⟨hhead.cons (hnew.cons ?_), ?_⟩,
    hdefault.cons (hunknown.cons ?_)⟩
  · exact callsIn_fixed (by repeat constructor) (by decide)
  · exact usesOnly_indented rfl rfl (List.forall_mem_flatMap.mpr h)
  · exact callsIn_fixed (by repeat constructor) (by decide)

/-! ## Classes -/

/-- A constructor calls no method of either. -/
theorem callsIn_constructor {properties : List (String × String)}
    (h : ∀ p ∈ properties, isName p.1 = true ∧ Calls bigint p.2) :
    CallsIn bigint (constructorLines properties) := by
  refine List.forall_mem_append.mpr ⟨List.forall_mem_append.mpr ⟨?_, ?_⟩, callsIn_close⟩
  · exact callsIn_fixed (by repeat constructor) (by decide)
  · refine List.forall_mem_map.mpr fun p hp => Calls.usesOnly ?_
    obtain ⟨hname, hdefault⟩ := h p hp
    have hassigned : Calls bigint ("  this." ++ p.1 ++ " = init." ++ p.1) :=
      calls_of_reads (((((Fills.start _).silent hname).text _).silent hname).readsCode notMem_codecs
        (by decide))
    exact (hassigned.link hdefault (by decide)).close (by decide)

/-- Encoding makes a writer and passes it on. -/
theorem callsIn_encodeLines {name : String} (hclass : Calls bigint name) :
    CallsIn bigint (encodeLines name) := by
  have hhead : Calls bigint "encode() \x7b" := calls_fixed (by decide)
  have hwriter : Calls bigint writerClass := calls_name (by decide) ⟨'A', rfl, .inl rfl⟩
  have hnew : Calls bigint ("  const w = new " ++ writerClass ++ "();") :=
    (hwriter.after (by decide)).close (by decide)
  have hwrite : Calls bigint ("  " ++ name ++ "._write(w, this);") :=
    (hclass.after (by decide)).close (by decide)
  have hend : CallsIn bigint ["  return w.finish();", "\x7d"] :=
    callsIn_fixed (by repeat constructor) (by decide)
  exact hhead.cons (hnew.cons (hwrite.cons hend))

/-- Decoding makes a reader and passes it on. -/
theorem callsIn_decodeLines {name : String} (hclass : Calls bigint name) :
    CallsIn bigint (decodeLines name) := by
  have hhead : Calls bigint "static decode(bytes) \x7b" := calls_fixed (by decide)
  have hreader : Calls bigint readerClass := calls_name (by decide) ⟨'A', rfl, .inl rfl⟩
  have hnew : Calls bigint ("  const r = new " ++ readerClass ++ "(bytes);") :=
    (hreader.after (by decide)).close (by decide)
  have hread : Calls bigint ("  const m = " ++ name ++ "._read(r);") :=
    (hclass.after (by decide)).close (by decide)
  have hexpect : Calls bigint ("  r.expectEnd(" ++ Text.quote name ++ ");") :=
    ((calls_of_reads (reads_quote name)).after (by decide)).close (by decide)
  have hend : CallsIn bigint ["  return m;", "\x7d"] :=
    callsIn_fixed (by repeat constructor) (by decide)
  exact hhead.cons (hnew.cons (hread.cons (hexpect.cons hend)))

/-- The defaults of properties that are no 64-bit integers. -/
def plainDefaults : List String :=
  ["[]", "null", "false", "\"\"", "new Uint8Array(0)", "0"]

/-- A default is one of a few words, and a `BigInt` for 64-bit integers only. -/
theorem defaultValue_cases (f : Wire.Field) :
    defaultValue f ∈ plainDefaults ∨ f.kind.is64Bit = true ∧ defaultValue f = "0n" := by
  rw [defaultValue]
  split
  · exact .inl (by decide)
  · split
    · exact .inl (by decide)
    · split
      · exact .inl (by decide)
      · exact .inl (by decide)
      · exact .inl (by decide)
      · split
        · rename_i h64
          exact .inr ⟨h64, rfl⟩
        · exact .inl (by decide)

theorem calls_defaultValue (f : Wire.Field) : Calls bigint (defaultValue f) := by
  have hlinks : ∀ text ∈ "0n" :: plainDefaults, isLink codecs isProvided text.toList = true := by
    decide +kernel
  have hmem : defaultValue f ∈ "0n" :: plainDefaults := by
    rcases defaultValue_cases f with h | ⟨-, h⟩
    · exact List.mem_cons_of_mem _ h
    · exact h ▸ List.mem_cons_self
  have hlink : Calls bigint (String.ofList (defaultValue f).toList) :=
    calls_fixed (hlinks _ hmem)
  rwa [String.ofList_toList] at hlink

section

variable {s : Schema} (hclass : ∀ m ∈ s.messages, Calls bigint (className m)) {type : TypeRef}
  (htype : s.Refers type)

include hclass htype

/-- A nested class is called by a name of its own. -/
theorem calls_nested {name : String} (h : valueWriter s (.ofType type) = .nested name) :
    Calls bigint name := by
  cases type with
  | primitive p => cases p <;> cases h
  | enum index => cases h
  | message index =>
    obtain ⟨m, hm, hname⟩ := htype
    rw [Wire.Kind.ofType, valueWriter, hname] at h
    cases h
    exact hclass m (List.mem_of_getElem? hm)

variable (h64 : bigint = false → (Wire.Kind.ofType type).is64Bit = false)

include h64

/-- Every kind of value is written by a method of the writer. -/
theorem writable_valueWriter : (valueWriter s (.ofType type)).Writable bigint := by
  cases hcoder : valueWriter s (.ofType type) with
  | call coder =>
    obtain ⟨hne, hkind⟩ := coder_of_valueWriter hcoder
    exact provided_writer (fun hbigint => hkind (h64 hbigint)) hne
  | nested name => exact calls_nested hclass htype hcoder

/-- Every kind of value is read by a method of the reader. -/
theorem readable_valueReader : (valueReader s (.ofType type)).Readable bigint := by
  cases hcoder : valueReader s (.ofType type) with
  | call coder =>
    exact provided_reader fun hbigint => coder_of_valueReader hcoder (h64 hbigint)
  | nested name => exact calls_nested hclass htype (valueReader_eq_nested_iff.mp hcoder)

end

/-- **The codecs are used as provided for.** In the class of a message, all methods that are called
on the writer and on the reader are in the support code under the same setting. -/
theorem callsIn_class {s : Schema} (h : Legible s)
    (hclass : ∀ m ∈ s.messages, Calls bigint (className m)) {m : Wire.Message} (hm : m ∈ s.plan)
    (hordered : m.Ordered) (h64 : bigint = false → ∀ f ∈ m.fields, f.kind.is64Bit = false) :
    CallsIn bigint (messageClass s m).lines := by
  have hmessage := Schema.message_mem_of_mem_plan hm
  have hname := h.moduleNames _ (mem_moduleNames_message hmessage)
  have hown := hclass _ hmessage
  have hproperty : ∀ f ∈ m.fields, isName (property f.field) = true := fun f hf =>
    h.properties _ hmessage _ (Schema.field_mem_of_mem_plan hm hf)
  have htype : ∀ f ∈ m.fields, s.Refers f.field.type := fun f hf =>
    h.types _ hmessage _ (Schema.field_mem_of_mem_plan hm hf)
  have hkind : ∀ f ∈ m.fields, bigint = false → (Wire.Kind.ofType f.field.type).is64Bit = false :=
    fun f hf hbigint => hordered.kind_eq hf ▸ h64 hbigint f hf
  have hblank : CallsIn bigint [""] := callsIn_fixed (by repeat constructor) (by decide)
  have hconstructor : CallsIn bigint (constructorLines (messageClass s m).properties) := by
    refine callsIn_constructor (List.forall_mem_map.mpr fun f hf => ?_)
    exact ⟨h.properties _ hmessage f hf, calls_defaultValue _⟩
  have hwriter : CallsIn bigint (writeLines (messageClass s m).writer) := by
    refine callsIn_writeLines (List.forall_mem_flatMap.mpr fun f hf => ?_)
    refine callsIn_writeField (hproperty f hf) ?_
    rw [hordered.kind_eq hf]
    exact writable_valueWriter hclass (htype f hf) (hkind f hf)
  have hreader : CallsIn bigint (readLines (messageClass s m).name (messageClass s m).reader) := by
    refine callsIn_readLines hname hown (List.forall_mem_map.mpr fun f hf => ?_)
    refine callsIn_readField (hproperty f hf) ?_
    rw [hordered.kind_eq hf]
    exact readable_valueReader hclass (htype f hf) (hkind f hf)
  have hhead : Calls bigint ("export class " ++ (messageClass s m).name ++ " \x7b") :=
    (hown.after (by decide)).close (by decide)
  rw [MessageClass.lines]
  simp only [CallsIn, List.forall_mem_append, and_assoc]
  exact ⟨List.forall_mem_singleton.mpr hhead.usesOnly, hconstructor.indented, hblank,
    (callsIn_encodeLines hown).indented, hblank, (callsIn_decodeLines hown).indented, hblank,
    hwriter.indented, hblank, hreader.indented, callsIn_close⟩

end

end WireSchema.JavaScript
