import WireSchema.Proofs.AcceptedPlan
import WireSchema.Proofs.TapeFollows
import WireSchema.Target

/-!
# No index is out of range

From a text to the files of a target there are three kinds of access that could go wrong: cutting
the text into segments, reading tokens by index, and looking a message or an enum up by its index in
the schema. The first two are settled by what segments make up and by what a tape is read as. The
third rests on the schema being closed: the functions that look names up give the same for a schema
with further messages and enums behind its own (`Schema.texts_eq_of_extends`), so they never look
there.
-/

namespace WireSchema

namespace Segment

/-- The segments of a text make it up. -/
theorem split_flatMap_chars (cs : List Char) : (split cs).flatMap chars = cs := by
  induction cs using split.induct with
  | case1 => simp
  | case2 c cs ih => rw [split_cons, List.flatMap_cons, ih, (first_append c cs).1]

theorem chars_ne_nil_of_mem_split {cs : List Char} : ∀ s ∈ split cs, s.chars ≠ [] := by
  induction cs using split.induct with
  | case1 => simp
  | case2 c cs ih =>
    rw [split_cons]
    intro s hs
    rcases List.mem_cons.mp hs with rfl | hs
    · exact (first_append c cs).2
    · exact ih s hs

end Segment

namespace Schema

/-! ## Lookups -/

/-- The second schema has the messages and enums of the first, and perhaps more behind them. -/
structure Extends (s s' : Schema) : Prop where
  messages : s.messages <+: s'.messages
  enums : s.enums <+: s'.enums

/-- Everything that looks names up gives the same in both schemas for the messages of the first. -/
structure SameTexts (s s' : Schema) : Prop where
  canonical : ∀ m ∈ s.messages, s'.canonicalMessage m = s.canonicalMessage m
  structs : ∀ m ∈ s.messages, Go.structLines s' m = Go.structLines s m
  codecs : ∀ m ∈ s.plan, Go.codec s' m = Go.codec s m
  classes : ∀ m ∈ s.plan, JavaScript.messageClass s' m = JavaScript.messageClass s m

section

variable {s s' : Schema}

/-- A message that is there keeps its name when a schema is extended. -/
theorem messageName_eq_of_extends (h : s.Extends s') {index : Nat}
    (hindex : s.hasType (.message index) = true) : s'.messageName index = s.messageName index := by
  obtain ⟨later, hlater⟩ := h.messages
  rw [messageName, messageName, ← hlater,
    List.getElem?_append_left (of_decide_eq_true hindex)]

theorem enumName_eq_of_extends (h : s.Extends s') {index : Nat}
    (hindex : s.hasType (.enum index) = true) : s'.enumName index = s.enumName index := by
  obtain ⟨later, hlater⟩ := h.enums
  rw [enumName, enumName, ← hlater, List.getElem?_append_left (of_decide_eq_true hindex)]

/-- So does a type. -/
theorem typeLabel_eq_of_extends (h : s.Extends s') {type : TypeRef}
    (htype : s.hasType type = true) : s'.typeLabel type = s.typeLabel type := by
  cases type with
  | primitive p => rfl
  | message index => rw [typeLabel, typeLabel, messageName_eq_of_extends h htype]
  | enum index => rw [typeLabel, typeLabel, enumName_eq_of_extends h htype]

theorem elementType_eq_of_extends (h : s.Extends s') {type : TypeRef}
    (htype : s.hasType type = true) : Go.elementType s' type = Go.elementType s type := by
  cases type with
  | primitive p => rfl
  | message index => rw [Go.elementType, Go.elementType, messageName_eq_of_extends h htype]
  | enum index => rw [Go.elementType, Go.elementType, enumName_eq_of_extends h htype]

/-- A value is read in the same way in an extended schema. -/
theorem goReader_eq_of_extends (h : s.Extends s') {type : TypeRef}
    (htype : s.hasType type = true) :
    Go.valueReader s' (.ofType type) = Go.valueReader s (.ofType type) := by
  cases type with
  | primitive p => cases p <;> rfl
  | message index =>
    rw [Wire.Kind.ofType, Go.valueReader, Go.valueReader, messageName_eq_of_extends h htype]
  | enum index =>
    rw [Wire.Kind.ofType, Go.valueReader, Go.valueReader, enumName_eq_of_extends h htype]

theorem javaScriptWriter_eq_of_extends (h : s.Extends s') {type : TypeRef}
    (htype : s.hasType type = true) :
    JavaScript.valueWriter s' (.ofType type) = JavaScript.valueWriter s (.ofType type) := by
  cases type with
  | primitive p => cases p <;> rfl
  | message index =>
    rw [Wire.Kind.ofType, JavaScript.valueWriter, JavaScript.valueWriter,
      messageName_eq_of_extends h htype]
  | enum index => rfl

theorem javaScriptReader_eq_of_extends (h : s.Extends s') {type : TypeRef}
    (htype : s.hasType type = true) :
    JavaScript.valueReader s' (.ofType type) = JavaScript.valueReader s (.ofType type) := by
  cases type with
  | primitive p => cases p <;> rfl
  | message index =>
    rw [Wire.Kind.ofType, JavaScript.valueReader, JavaScript.valueReader,
      messageName_eq_of_extends h htype]
  | enum index => rfl

/-- What is rendered for a field that refers to something in the schema. -/
theorem fieldType_eq_of_extends (h : s.Extends s') {f : Field} (htype : s.hasType f.type = true) :
    Go.fieldType s' (.ofField f) = Go.fieldType s (.ofField f) := by
  have helement : Go.elementType s' (Wire.Field.ofField f).field.type =
      Go.elementType s (Wire.Field.ofField f).field.type := elementType_eq_of_extends h htype
  rw [Go.fieldType, Go.fieldType, helement]

/-- A field is decoded in the same way in an extended schema. -/
theorem decodeField_eq_of_extends (h : s.Extends s') {f : Field}
    (htype : s.hasType f.type = true) :
    Go.decodeField s' (.ofField f) = Go.decodeField s (.ofField f) := by
  have helement : Go.elementType s' (Wire.Field.ofField f).field.type =
      Go.elementType s (Wire.Field.ofField f).field.type := elementType_eq_of_extends h htype
  have hreader : Go.valueReader s' (Wire.Field.ofField f).kind =
      Go.valueReader s (Wire.Field.ofField f).kind := goReader_eq_of_extends h htype
  rw [Go.decodeField, Go.decodeField, helement, hreader]

/-- And it is written in the same way. -/
theorem writeField_eq_of_extends (h : s.Extends s') {f : Field}
    (htype : s.hasType f.type = true) :
    JavaScript.writeField s' (.ofField f) = JavaScript.writeField s (.ofField f) := by
  have hwriter : JavaScript.valueWriter s' (Wire.Field.ofField f).kind =
      JavaScript.valueWriter s (Wire.Field.ofField f).kind := javaScriptWriter_eq_of_extends h htype
  rw [JavaScript.writeField, JavaScript.writeField, hwriter]

/-- And read. -/
theorem readField_eq_of_extends (h : s.Extends s') {f : Field} (htype : s.hasType f.type = true) :
    JavaScript.readField s' (.ofField f) = JavaScript.readField s (.ofField f) := by
  have hreader : JavaScript.valueReader s' (Wire.Field.ofField f).kind =
      JavaScript.valueReader s (Wire.Field.ofField f).kind := javaScriptReader_eq_of_extends h htype
  rw [JavaScript.readField, JavaScript.readField, hreader]

/-- **Names are looked up among the messages and enums of the schema only.** -/
theorem texts_eq_of_extends (hclosed : s.closed = true) (h : s.Extends s') : s.SameTexts s' := by
  have htypes : ∀ m ∈ s.messages, ∀ f ∈ m.fields, s.hasType f.type = true := fun m hm =>
    List.all_eq_true.mp (List.all_eq_true.mp hclosed m hm)
  have hplanned : ∀ m ∈ s.plan, ∀ f ∈ m.fields, ∃ g, f = .ofField g ∧ s.hasType g.type = true := by
    intro m hm f hf
    obtain ⟨index, message, hget, rfl⟩ := mem_plan_iff.mp hm
    obtain ⟨g, hg, rfl⟩ := List.mem_map.mp hf
    exact ⟨g, rfl, htypes message (List.mem_of_getElem? hget) g (mem_fieldsByTag_iff.mp hg)⟩
  refine ⟨fun m hm => ?_, fun m hm => ?_, fun m hm => ?_, fun m hm => ?_⟩
  · have hfields : m.fieldsByTag.map s'.canonicalField = m.fieldsByTag.map s.canonicalField := by
      refine List.map_congr_left fun f hf => ?_
      rw [canonicalField, canonicalField,
        typeLabel_eq_of_extends h (htypes m hm f (mem_fieldsByTag_iff.mp hf))]
    rw [canonicalMessage, canonicalMessage, hfields]
  · have hrows : m.fields.map (Go.fieldRow s') = m.fields.map (Go.fieldRow s) := by
      refine List.map_congr_left fun f hf => ?_
      rw [Go.fieldRow, Go.fieldRow, fieldType_eq_of_extends h (htypes m hm f hf)]
    rw [Go.structLines, Go.structLines, hrows]
  · have hcases : m.fields.map (fun f => (f.tag, Go.decodeField s' f)) =
        m.fields.map fun f => (f.tag, Go.decodeField s f) := by
      refine List.map_congr_left fun f hf => ?_
      obtain ⟨g, rfl, hg⟩ := hplanned m hm f hf
      rw [decodeField_eq_of_extends h hg]
    rw [Go.codec, Go.codec, hcases]
  · have hwriter : m.fields.flatMap (JavaScript.writeField s') =
        m.fields.flatMap (JavaScript.writeField s) := by
      refine List.flatMap_congr fun f hf => ?_
      obtain ⟨g, rfl, hg⟩ := hplanned m hm f hf
      exact writeField_eq_of_extends h hg
    have hreader : m.fields.map (fun f => (f.tag, JavaScript.readField s' f)) =
        m.fields.map fun f => (f.tag, JavaScript.readField s f) := by
      refine List.map_congr_left fun f hf => ?_
      obtain ⟨g, rfl, hg⟩ := hplanned m hm f hf
      rw [readField_eq_of_extends h hg]
    rw [JavaScript.messageClass, JavaScript.messageClass, hwriter, hreader]

end

/-- **No text leads out of range.** In either mode, a text is cut into segments that make it up; the
tokens are read by index without leaving the tape, skips after a failure included, and strings have
the quotes that they are cut at; every type of an accepted schema and of its plan refers to
something that is there; and nothing that is rendered for its messages depends on what stands after
the last message or enum. -/
theorem compiling_stays_in_range (mode : ErrorMode) (text : String) :
    ((Segment.split text.toList).flatMap Segment.chars = text.toList ∧
      ∀ segment ∈ Segment.split text.toList, segment.chars ≠ []) ∧
    (∀ stream, TokenStream.ofText text = .ok stream →
      Tape.Quoted stream.tokens ∧
      (Tape.ofTokens stream.tokens).declarationsFrom mode 0 =
        .ok ((Parser.declarations mode stream.tokens).1,
          Tape.placedFailures stream.tokens (Parser.declarations mode stream.tokens).2)) ∧
    ∀ s, Schema.ofText mode text = .ok s →
      (∀ m ∈ s.messages, ∀ f ∈ m.fields, s.Refers f.type) ∧
      (∀ m ∈ s.plan, ∀ f ∈ m.fields, ∃ type, f.kind = .ofType type ∧ s.Refers type) ∧
      ∀ s', s.Extends s' → s.SameTexts s' := by
  refine ⟨⟨Segment.split_flatMap_chars _, Segment.chars_ne_nil_of_mem_split⟩, ?_, ?_⟩
  · intro stream h
    have hquoted := Tape.quoted_of_lexical (TokenStream.ofText_lexical h)
    exact ⟨hquoted, Tape.declarationsFrom_eq hquoted mode (Nat.zero_le _)⟩
  · intro s h
    have hrefers := ofText_refers h
    refine ⟨hrefers, fun m hm f hf => ?_, fun s' => texts_eq_of_extends (ofText_closed h)⟩
    obtain ⟨index, message, hget, rfl⟩ := mem_plan_iff.mp hm
    obtain ⟨f, hmem, rfl⟩ := List.mem_map.mp hf
    exact ⟨f.type, rfl, hrefers message (List.mem_of_getElem? hget) f (mem_fieldsByTag_iff.mp hmem)⟩

/-- A text with a declaration that breaks off inside a brace, one that closes too many, a string and
a keyword at the end. -/
def brokenText : String :=
  "message M \x7b x: \x7b y \x7d \x7d enum E \x7b a = 1; \x7d; \x7d const c: string = \"\"; const"

/-- A broken text, and the places that are blamed in it. -/
theorem brokenText_stays_in_range :
    ∃ stream, TokenStream.ofText brokenText = .ok stream ∧
      (Parser.declarations .collect stream.tokens).1.length = 2 ∧
      (Tape.placedFailures stream.tokens (Parser.declarations .collect stream.tokens).2).map
        Prod.snd = [5, 18, 27] ∧
      (Tape.ofTokens stream.tokens).declarationsFrom .collect 0 =
        .ok ((Parser.declarations .collect stream.tokens).1,
          Tape.placedFailures stream.tokens (Parser.declarations .collect stream.tokens).2) := by
  have hrun : (TokenStream.ofText brokenText).map (fun stream =>
      ((Parser.declarations .collect stream.tokens).1.length,
        (Tape.placedFailures stream.tokens (Parser.declarations .collect stream.tokens).2).map
          Prod.snd)) = .ok (2, [5, 18, 27]) := by decide +kernel
  obtain ⟨stream, h, hresult⟩ := map_eq_ok_iff.mp hrun
  obtain ⟨hlength, hplaces⟩ := Prod.mk.inj hresult
  exact ⟨stream, h, hlength, hplaces,
    ((compiling_stays_in_range .collect brokenText).2.1 stream h).2⟩

end Schema

end WireSchema
