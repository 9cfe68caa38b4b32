import WireSchema.Proofs.MethodCalls
import WireSchema.Proofs.NameProblems

/-!
# The `BigInt` setting

A generated module fits its `BigInt` setting. Its message classes call only methods that the support
code in the same file has (`callsIn_of_generate`, `served_of_provided`). Without `BigInt` there is
no `BigInt` literal among the defaults and constants (`isBigIntLiteral_literal`,
`isBigIntLiteral_defaultValue`), and the file with `BigInt` is the same but for the helpers that are
inserted (`contents_insert`).
-/

namespace WireSchema.JavaScript

open Source

/-! ## Literals -/

/-- Does the text look like a `BigInt` literal: from a digit to an `n`, with a sign or without? -/
def isBigIntLiteral (text : String) : Bool :=
  let cs := text.toList.dropWhile (· = '-')
  cs.head?.any Char.isDigit && cs.getLast? = some 'n'

example : isBigIntLiteral "-12n" = true ∧ isBigIntLiteral "\"12n" = false := by
  decide +kernel

theorem isBigIntLiteral_of_notMem {text : String} (h : 'n' ∉ text.toList) :
    isBigIntLiteral text = false := by
  have hlast : (text.toList.dropWhile (· = '-')).getLast? ≠ some 'n' := fun hlast =>
    h ((List.dropWhile_sublist _).mem (List.mem_of_getLast? hlast))
  rw [isBigIntLiteral, decide_eq_false hlast, Bool.and_false]

theorem notMem_of_digital {cs : List Char} (h : Decimal.Digital cs) : 'n' ∉ cs :=
  fun hmem => absurd (h _ hmem) (by decide)

theorem notMem_toString_nat (n : Nat) : 'n' ∉ (toString n).toList :=
  notMem_of_digital fun _ hc => Decimal.isDigit_of_mem_toString hc

theorem notMem_toString_int (i : Int) : 'n' ∉ (toString i).toList := by
  cases i with
  | ofNat n => exact notMem_toString_nat n
  | negSucc n =>
    have htext : toString (Int.negSucc n) = "-" ++ toString (n + 1) := rfl
    rw [htext, String.toList_append, List.mem_append, not_or]
    exact ⟨by decide, notMem_toString_nat _⟩

/-- A double is not written as a `BigInt`. -/
theorem isBigIntLiteral_display (x : Binary64) : isBigIntLiteral x.display = false := by
  have hmagnitude : 'n' ∉ Decimal.Layout.plain.magnitude x.magnitude := by
    obtain ⟨whole, hwhole, -, heq | ⟨fraction, hfraction, heq⟩⟩ :=
      Decimal.magnitude_shape x.magnitude
    · rw [heq]
      exact notMem_of_digital hwhole
    · rw [heq, List.mem_append, List.mem_cons, not_or, not_or]
      exact ⟨notMem_of_digital hwhole, by decide, notMem_of_digital hfraction⟩
  rw [Binary64.display]
  split
  · decide
  · split
    · apply isBigIntLiteral_of_notMem
      rw [Decimal.Layout.write, String.toList_ofList, List.mem_append, not_or]
      refine ⟨?_, hmagnitude⟩
      split <;> decide
    · split <;> decide

/-- **Constants.** Only that of a 64-bit integer is a `BigInt` literal. -/
theorem isBigIntLiteral_literal {c : Constant} (h : c.type.is64Bit = false) :
    isBigIntLiteral (literal c) = false := by
  rw [literal]
  cases c.value with
  | integer i =>
    rw [h]
    exact isBigIntLiteral_of_notMem (notMem_toString_int i)
  | number x => exact isBigIntLiteral_display x
  | string text =>
    change isBigIntLiteral (Text.quote text) = false
    rw [isBigIntLiteral, Text.toList_quote, Text.quoteChars]
    rfl
  | bool b =>
    cases b with
    | false => exact (by decide : isBigIntLiteral "false" = false)
    | true => exact (by decide : isBigIntLiteral "true" = false)

/-- Neither is a default that is no 64-bit integer. -/
theorem isBigIntLiteral_defaultValue {f : Wire.Field} (h : f.kind.is64Bit = false) :
    isBigIntLiteral (defaultValue f) = false := by
  have hplain : ∀ text ∈ plainDefaults, isBigIntLiteral text = false := by decide
  rcases defaultValue_cases f with hmem | ⟨h64, -⟩
  · exact hplain _ hmem
  · rw [h] at h64
    cases h64

/-! ## Inserted helpers -/

/-- The text of lines that are added to others. -/
def addedText (lines : List String) : String :=
  String.join (lines.map ("\n" ++ ·))

theorem contents_append (path : String) {lines : List String} (hne : lines ≠ [])
    (added : List String) :
    (GeneratedFile.ofLines path (lines ++ added)).contents =
      (GeneratedFile.ofLines path lines).contents ++ addedText added := by
  rw [← String.toList_inj]
  have hmap : lines.map String.toList ≠ [] := by simpa using hne
  simp [GeneratedFile.ofLines, addedText, String.toList_intercalate, String.toList_join,
    Text.intercalate_append '\n' hmap, List.flatMap_map]

/-- The lines of methods behind other methods. -/
def helperLines (methods : List SupportMethod) : List String :=
  methods.flatMap fun m => "" :: m.lines

/-- More methods stand behind the others of a class. -/
theorem classLines_append (name : String) (methods more : List SupportMethod) (hne : methods ≠ []) :
    classLines name (methods ++ more) =
      (("class " ++ name ++ " \x7b") :: List.intercalate [""] (methods.map SupportMethod.lines))
        ++ helperLines more ++ ["\x7d"] := by
  have hmap : methods.map SupportMethod.lines ≠ [] := by simpa using hne
  rw [classLines, List.map_append, Text.intercalate_append "" hmap, List.flatMap_map, ← helperLines]
  rfl

/-- **The setting only adds lines**, and both files start alike. -/
theorem moduleLines_insert (s : Schema) (version : Fingerprint) :
    ∃ before between after, before ≠ [] ∧
      moduleLines s version false = before ++ between ++ after ∧
      moduleLines s version true = before ++ helperLines writerMethods64 ++ between
        ++ helperLines readerMethods64 ++ after := by
  have hwriter := classLines_append writerClass writerMethods writerMethods64 (by rintro ⟨⟩)
  have hreader := classLines_append readerClass readerMethods readerMethods64 (by rintro ⟨⟩)
  -- both modules are cut in front of the ends of the two classes
  refine ⟨declarationLines s version ++ [""] ++ supportConstants ++ [""]
    ++ ("class " ++ writerClass ++ " \x7b") ::
      List.intercalate [""] (writerMethods.map SupportMethod.lines),
    ["\x7d"] ++ [""] ++ ("class " ++ readerClass ++ " \x7b") ::
      List.intercalate [""] (readerMethods.map SupportMethod.lines),
    ["\x7d"] ++ [""], ?_, ?_, ?_⟩
  · simp
  · simp [moduleLines, supportLines, writerMethodsFor, readerMethodsFor, classLines]
  · simp [moduleLines, supportLines, writerMethodsFor, readerMethodsFor, hwriter, hreader]

/-- **With `BigInt` a module has two insertions**, one in the writer and one in the reader. -/
theorem contents_insert (path : String) (s : Schema) (version : Fingerprint) :
    ∃ head middle tail,
      GeneratedFile.ofLines path (moduleLines s version false) = ⟨path, head ++ middle ++ tail⟩ ∧
      GeneratedFile.ofLines path (moduleLines s version true) =
        ⟨path, head ++ addedText (helperLines writerMethods64) ++ middle
          ++ addedText (helperLines readerMethods64) ++ tail⟩ := by
  obtain ⟨before, between, after, hne, hfalse, htrue⟩ := moduleLines_insert s version
  have hparts : ∀ {lines added : List String}, lines ≠ [] →
      "\n".intercalate (lines ++ added) = "\n".intercalate lines ++ addedText added :=
    fun h => contents_append path h _
  refine ⟨"\n".intercalate before, addedText between, addedText after, ?_, ?_⟩
  · rw [GeneratedFile.ofLines, hfalse, hparts (by simp [hne]), hparts hne]
  · rw [GeneratedFile.ofLines, htrue, hparts (by simp [hne]), hparts (by simp [hne]),
      hparts (by simp [hne]), hparts hne]

/-- When a module is generated, and what it is. -/
theorem generate_eq_ok_iff {bigint : Bool} {s : Schema} {files : List GeneratedFile} :
    generate bigint s = .ok files ↔ (bigint = false → check64 s = .ok ()) ∧
      (∃ scope, checkNames s = .ok scope) ∧
      files = [.ofLines (GeneratedFile.stem s ++ ".js") (moduleLines s s.fingerprint bigint)] := by
  cases bigint with
  | true =>
    rw [generate, if_neg (by simp)]
    refine ⟨fun h => ?_, ?_⟩
    · obtain ⟨scope, hscope, hfiles⟩ := bind_eq_ok_iff.mp h
      cases hfiles
      exact ⟨by rintro ⟨⟩, ⟨scope, hscope⟩, rfl⟩
    · rintro ⟨-, ⟨scope, hscope⟩, rfl⟩
      rw [hscope]
      rfl
  | false =>
    rw [generate, if_pos (by rfl)]
    refine ⟨fun h => ?_, ?_⟩
    · obtain ⟨_, h64, h⟩ := bind_eq_ok_iff.mp h
      obtain ⟨scope, hscope, hfiles⟩ := bind_eq_ok_iff.mp h
      cases hfiles
      exact ⟨fun _ => h64, ⟨scope, hscope⟩, rfl⟩
    · rintro ⟨h64, ⟨scope, hscope⟩, rfl⟩
      rw [h64 rfl, hscope]
      rfl

/-! ## Defined methods -/

/-- The class of a codec. -/
def codecClass (codec : List Char) : String :=
  if codec = ['w'] then writerClass else readerClass

/-- The lines define a method of a class: its head stands behind the head of the class, before the
line that closes the class. -/
def DefinesMethod (lines : List String) (name method : String) : Prop :=
  ∃ before body after parameters,
    lines = before ++ ("class " ++ name ++ " \x7b") :: (body ++ after) ∧ "\x7d" ∉ body ∧
    "  " ++ method ++ "(" ++ parameters ++ ") \x7b" ∈ body

/-- The use of a codec is served by the lines of a file. -/
def Served (lines : List String) (codec : List Char) : Use → Prop
  | .member name => DefinesMethod lines (codecClass codec) (String.ofList name)
  | .other next => next ∈ passing

/-- The lines of a method are indented. -/
theorem close_notMem_lines (m : SupportMethod) : "\x7d" ∉ m.lines := by
  have hblank : ∀ blank text : String, blank.toList.head? = some ' ' → "\x7d" ≠ blank ++ text := by
    intro blank text hhead heq
    have hfirst := congrArg (fun line => line.toList.head?) heq
    rw [String.toList_append, List.head?_append, hhead] at hfirst
    cases hfirst
  intro hmem
  rcases List.mem_append.mp hmem with hmem | hmem
  · rcases List.mem_append.mp hmem with hmem | hmem
    · obtain ⟨text, -, heq⟩ := List.mem_map.mp hmem
      exact hblank _ _ rfl heq.symm
    · rcases List.mem_cons.mp hmem with heq | hmem
      · simp only [String.append_assoc] at heq
        exact hblank _ _ rfl heq
      · obtain ⟨text, -, heq⟩ := List.mem_map.mp hmem
        exact hblank _ _ rfl heq.symm
  · exact absurd (List.mem_singleton.mp hmem) (by decide)

/-- No line of a method ends its class. -/
theorem close_notMem_methods (methods : List SupportMethod) :
    "\x7d" ∉ List.intercalate [""] (methods.map SupportMethod.lines) := by
  cases methods with
  | nil => rintro ⟨⟩
  | cons m methods =>
    rw [List.map_cons, Text.intercalate_cons, List.mem_append, List.flatMap_map, List.mem_flatMap,
      not_or]
    refine ⟨close_notMem_lines m, ?_⟩
    rintro ⟨m', -, hmem⟩
    rcases List.mem_cons.mp hmem with heq | hmem
    · exact absurd heq (by decide)
    · exact close_notMem_lines m' hmem

/-- A class defines the methods that it is written from. -/
theorem definesMethod_of_mem {methods : List SupportMethod} {m : SupportMethod} (hm : m ∈ methods)
    {name : String} {lines : List String} (h : classLines name methods <:+: lines) :
    DefinesMethod lines name m.name := by
  obtain ⟨before, after, rfl⟩ := h
  refine ⟨before, _, "\x7d" :: after, m.parameters, ?_, close_notMem_methods methods,
    Text.mem_intercalate (List.mem_map_of_mem hm) ?_⟩
  · rw [classLines]
    simp
  · exact List.mem_append_left _ (List.mem_append_right _ List.mem_cons_self)

/-- The classes of the writer and the reader stand in the module. -/
theorem classLines_infix_moduleLines (s : Schema) (version : Fingerprint) (bigint : Bool)
    {codec : List Char} (hcodec : codec ∈ codecs) :
    classLines (codecClass codec) (methodsOf bigint codec) <:+: moduleLines s version bigint := by
  rw [moduleLines, supportLines]
  rcases List.mem_cons.mp hcodec with rfl | hcodec
  · exact ⟨declarationLines s version ++ [""] ++ supportConstants ++ [""],
      [""] ++ classLines readerClass (readerMethodsFor bigint) ++ [""], by
        simp [codecClass, methodsOf]⟩
  · obtain rfl := List.mem_singleton.mp hcodec
    exact ⟨declarationLines s version ++ [""] ++ supportConstants ++ [""]
      ++ classLines writerClass (writerMethodsFor bigint) ++ [""], [""], by
        simp [codecClass, methodsOf]⟩

/-- A method that is provided is defined in the module. -/
theorem served_of_provided {s : Schema} {version : Fingerprint} {bigint : Bool} (codec : List Char)
    (use : Use) (h : Provided bigint codec use) :
    Served (moduleLines s version bigint) codec use := by
  cases use with
  | other next => exact h
  | member name =>
    obtain ⟨m, hm, hname⟩ := h
    have hcodec : codec ∈ codecs := by
      rw [methodsOf] at hm
      split at hm
      · rename_i heq
        exact heq ▸ List.mem_cons_self
      · split at hm
        · rename_i heq
          exact heq ▸ List.mem_cons_of_mem _ List.mem_cons_self
        · cases hm
    rw [Served, ← hname]
    exact definesMethod_of_mem hm (classLines_infix_moduleLines s version bigint hcodec)

/-- The names of the methods for 64-bit integers. -/
def methodNames64 : List String :=
  (writerMethods64 ++ readerMethods64).map SupportMethod.name

/-- Without `BigInt` no method for 64-bit integers is provided. -/
theorem notMem_of_provided (codec : List Char) (use : Use) (h : Provided false codec use) :
    ∀ name ∈ methodNames64, use ≠ .member name.toList := by
  have hplain : ∀ m ∈ writerMethods ++ readerMethods, m.name ∉ methodNames64 := by decide +kernel
  rintro name hname rfl
  obtain ⟨m, hm, heq⟩ := h
  have hmethod : m ∈ writerMethods ++ readerMethods := by
    rw [methodsOf] at hm
    split at hm
    · exact List.mem_append_left _ (by simpa [writerMethodsFor] using hm)
    · split at hm
      · exact List.mem_append_right _ (by simpa [readerMethodsFor] using hm)
      · cases hm
  rw [String.ofList_toList] at heq
  exact hplain m hmethod (heq ▸ hname)

/-! ## The setting -/

section

variable {mode : ErrorMode} {text : String} {s : Schema} (h : Schema.ofText mode text = .ok s)

include h

/-- A schema that passes the check has no 64-bit field. -/
theorem is64Bit_of_check64 (hcheck : check64 s = .ok ()) {m : Wire.Message} (hm : m ∈ s.plan) :
    (∀ f ∈ m.fields, f.kind.is64Bit = false) ∧
      ∀ f ∈ m.message.fields, (Wire.Field.ofField f).kind.is64Bit = false := by
  have hmessage := Schema.message_mem_of_mem_plan hm
  have htype : ∀ f ∈ m.message.fields, (Wire.Kind.ofType f.type).is64Bit = false := by
    intro f hf
    refine Bool.eq_false_iff.mpr fun h64 => ?_
    obtain ⟨p, hp, h64⟩ := is64Bit_ofType_iff.mp h64
    rw [(check64_eq_ok_iff.mp hcheck).2 _ hmessage f hf p hp] at h64
    cases h64
  refine ⟨fun f hf => ?_, htype⟩
  rw [(Schema.ofText_plan_ordered h m hm).kind_eq hf]
  exact htype _ (Schema.field_mem_of_mem_plan hm hf)

/-- **The codecs of a generated module** are used as its setting provides. -/
theorem callsIn_of_generate {bigint : Bool} {files : List GeneratedFile}
    (hfiles : generate bigint s = .ok files) {m : Wire.Message} (hm : m ∈ s.plan) :
    CallsIn bigint (messageClass s m).lines := by
  obtain ⟨h64, ⟨scope, hnames⟩, -⟩ := generate_eq_ok_iff.mp hfiles
  have hlegible := legible_of_ofText h hnames
  refine callsIn_class hlegible (fun message hmessage => ?_) hm (Schema.ofText_plan_ordered h m hm)
    fun hbigint => (is64Bit_of_check64 h (h64 hbigint) hm).1
  have hname := mem_moduleNames_message hmessage
  exact calls_name (hlegible.moduleNames _ hname)
    (startsCapital_moduleNames hnames (Schema.ofText_worded h) _ hname).1

/-- The lines of a generated file are the lines that it was made of. -/
theorem linesOf_of_generate {bigint : Bool} {files : List GeneratedFile}
    (hfiles : generate bigint s = .ok files) :
    ∃ file, files = [file] ∧ linesOf file.contents = moduleLines s s.fingerprint bigint := by
  obtain ⟨-, ⟨scope, hnames⟩, rfl⟩ := generate_eq_ok_iff.mp hfiles
  refine ⟨_, rfl, linesOf_ofLines (List.cons_ne_nil _ _) (fun line hline => ?_) _⟩
  exact (refers_moduleLines (legible_of_ofText h hnames) (Schema.ofText_plan_ordered h) _ bigint
    line hline).newline_notMem

/-- **Modules fit their `BigInt` setting.** A generated module has a class for every message, and
these do nothing with the writer and the reader but call methods that the module defines, or pass
them on. Without `BigInt` no constant and no default is a `BigInt` literal and no method for 64-bit
integers is called, and the module with `BigInt` has the same path and the same contents, but for
the helpers that are inserted in the two classes. -/
theorem generate_fits_bigint :
    (∀ bigint files, generate bigint s = .ok files → ∃ file, files = [file] ∧
      linesOf file.contents = moduleLines s s.fingerprint bigint ∧
      ∀ index message, s.messages[index]? = some message →
        (messageClass s (.ofMessage index message)).lines <:+: linesOf file.contents ∧
        ∀ line ∈ (messageClass s (.ofMessage index message)).lines,
          UsesOnly codecs (Served (linesOf file.contents)) line) ∧
    ∀ files, generate false s = .ok files →
      (∀ c ∈ s.constants, isBigIntLiteral (literal c) = false) ∧
      (∀ index message, s.messages[index]? = some message →
        (∀ p ∈ (messageClass s (.ofMessage index message)).properties,
          isBigIntLiteral p.2 = false) ∧
        ∀ line ∈ (messageClass s (.ofMessage index message)).lines,
          UsesOnly codecs (fun _ use => ∀ name ∈ methodNames64, use ≠ .member name.toList) line) ∧
      ∃ path head middle tail, files = [⟨path, head ++ middle ++ tail⟩] ∧
        generate true s = .ok [⟨path, head ++ addedText (helperLines writerMethods64) ++ middle
          ++ addedText (helperLines readerMethods64) ++ tail⟩] := by
  refine ⟨fun bigint files hfiles => ?_, fun files hfiles => ?_⟩
  · obtain ⟨file, hfile, hlines⟩ := linesOf_of_generate h hfiles
    refine ⟨file, hfile, hlines, fun index message hmessage => ?_⟩
    have hm := Schema.ofMessage_mem_plan hmessage
    rw [hlines]
    refine ⟨lines_infix_moduleLines hm _ _, fun line hline => ?_⟩
    exact (callsIn_of_generate h hfiles hm line hline).imp served_of_provided
  · -- without `BigInt` the schema has passed the check for 64-bit integers
    obtain ⟨h64, hnames, rfl⟩ := generate_eq_ok_iff.mp hfiles
    refine ⟨fun c hc => ?_, fun index message hmessage => ?_, ?_⟩
    · exact isBigIntLiteral_literal ((check64_eq_ok_iff.mp (h64 rfl)).1 c hc)
    · have hm := Schema.ofMessage_mem_plan hmessage
      refine ⟨List.forall_mem_map.mpr fun f hf => ?_, fun line hline => ?_⟩
      · exact isBigIntLiteral_defaultValue ((is64Bit_of_check64 h (h64 rfl) hm).2 f hf)
      · exact (callsIn_of_generate h hfiles hm line hline).imp notMem_of_provided
    · obtain ⟨head, middle, tail, hfalse, htrue⟩ :=
        contents_insert (GeneratedFile.stem s ++ ".js") s s.fingerprint
      refine ⟨_, head, middle, tail, by rw [hfalse], ?_⟩
      rw [← htrue]
      exact generate_eq_ok_iff.mpr ⟨by rintro ⟨⟩, hnames, rfl⟩

end

/-- A text with a module that needs `BigInt`. -/
def longText : String :=
  "message A \x7b at: int64 = 1; of: repeated B = 2; \x7d message B \x7b to: int8 = 1; \x7d"

/-- A text with a module that does not. -/
def shortText : String :=
  "const n: int32 = -5; message B \x7b to: int8 = 1; \x7d"

/-- Modules with the classes of all messages, in both settings. -/
theorem generate_fits_bigint_samples :
    (∃ s file, Schema.ofText .collect longText = .ok s ∧ generate true s = .ok [file] ∧
      s.messages.map (·.name) = ["A", "B"] ∧
      ∀ index message, s.messages[index]? = some message →
        (messageClass s (.ofMessage index message)).lines <:+: linesOf file.contents ∧
        ∀ line ∈ (messageClass s (.ofMessage index message)).lines,
          UsesOnly codecs (Served (linesOf file.contents)) line) ∧
    ∃ s path head middle tail, Schema.ofText .collect shortText = .ok s ∧
      generate false s = .ok [⟨path, head ++ middle ++ tail⟩] ∧
      generate true s = .ok [⟨path, head ++ addedText (helperLines writerMethods64) ++ middle
        ++ addedText (helperLines readerMethods64) ++ tail⟩] ∧
      (∀ c ∈ s.constants, isBigIntLiteral (literal c) = false) ∧
      s.messages.map (·.name) = ["B"] ∧
      ∀ index message, s.messages[index]? = some message →
        (∀ p ∈ (messageClass s (.ofMessage index message)).properties,
          isBigIntLiteral p.2 = false) ∧
        ∀ line ∈ (messageClass s (.ofMessage index message)).lines,
          UsesOnly codecs
            (fun _ use => ∀ name ∈ methodNames64, use ≠ .member name.toList) line := by
  have hlong : ∃ s ∈ (Schema.ofText .collect longText).toOption,
      s.messages.map (·.name) = ["A", "B"] ∧ (checkNames s).toOption.isSome := by decide +kernel
  have hshort : ∃ s ∈ (Schema.ofText .collect shortText).toOption,
      s.messages.map (·.name) = ["B"] ∧ (checkNames s).toOption.isSome ∧
        (∀ c ∈ s.constants, c.type.is64Bit = false) ∧
          ∀ m ∈ s.messages, ∀ f ∈ m.fields, (Wire.Kind.ofType f.type).is64Bit = false := by
    decide +kernel
  refine ⟨?_, ?_⟩
  · obtain ⟨s, hs, hmessages, hnames⟩ := hlong
    have hs := eq_ok_of_mem_toOption hs
    obtain ⟨scope, hscope⟩ := Option.isSome_iff_exists.mp hnames
    have hfiles : generate true s = .ok _ :=
      generate_eq_ok_iff.mpr ⟨by rintro ⟨⟩, ⟨scope, eq_ok_of_mem_toOption hscope⟩, rfl⟩
    obtain ⟨file, hfile, -, huses⟩ := (generate_fits_bigint hs).1 true _ hfiles
    exact ⟨s, file, hs, hfile ▸ hfiles, hmessages, huses⟩
  · obtain ⟨s, hs, hmessages, hnames, hconstants, hfields⟩ := hshort
    have hs := eq_ok_of_mem_toOption hs
    obtain ⟨scope, hscope⟩ := Option.isSome_iff_exists.mp hnames
    have h64 : check64 s = .ok () := by
      refine check64_eq_ok_iff.mpr ⟨hconstants, fun m hm f hf p hp => Bool.eq_false_iff.mpr ?_⟩
      intro hlong
      have hkind := is64Bit_ofType_iff.mpr ⟨p, hp, hlong⟩
      rw [hfields m hm f hf] at hkind
      cases hkind
    have hfiles : generate false s = .ok _ :=
      generate_eq_ok_iff.mpr ⟨fun _ => h64, ⟨scope, eq_ok_of_mem_toOption hscope⟩, rfl⟩
    obtain ⟨hliterals, hclasses, path, head, middle, tail, heq, htrue⟩ :=
      (generate_fits_bigint hs).2 _ hfiles
    exact ⟨s, path, head, middle, tail, hs, heq ▸ hfiles, htrue, hliterals, hmessages, hclasses⟩

end WireSchema.JavaScript
