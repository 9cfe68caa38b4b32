import WireSchema.Proofs.GoProgram
import WireSchema.Proofs.JavaScriptProgram
import WireSchema.Target

/-!
# Both targets emit the same wire program

What is left to show is that the names in generated code are words, which is the first thing that a
scope checks of a claim. Then the Go codecs and the JavaScript module hold, for every message, a
program that follows the message's plan, and the two cannot be told apart on the wire
(`Schema.targets_emit_same_program`).
-/

namespace WireSchema

open Source

/-! ## Checked names are words -/

namespace Naming.Scope

theorem isWord_of_claim {scope scope' : Scope} {c : Claim} (h : scope.claim c = .ok scope') :
    Text.isWord c.identifier = true := by
  rw [claim] at h
  split at h
  · cases h
  · rename_i hword
    simpa using hword

theorem isWord_of_claimAll {scope scope' : Scope} {claims : List Claim}
    (h : scope.claimAll claims = .ok scope') : ∀ c ∈ claims, Text.isWord c.identifier = true := by
  induction claims generalizing scope with
  | nil => exact nofun
  | cons c claims ih =>
    rw [claimAll] at h
    cases hc : scope.claim c with
    | error e => simp [hc] at h
    | ok next =>
      rw [hc] at h
      exact List.forall_mem_cons.mpr ⟨isWord_of_claim hc, ih h⟩

theorem isWord_of_claimGroups {scope scope' : Scope} {groups : List Group}
    (h : scope.claimGroups groups = .ok scope') :
    ∀ g ∈ groups, Text.isWord g.head.identifier = true ∧
      ∀ c ∈ g.members, Text.isWord c.identifier = true := by
  induction groups generalizing scope with
  | nil => exact nofun
  | cons g groups ih =>
    rw [claimGroups] at h
    cases hhead : scope.claim g.head with
    | error e => simp [hhead] at h
    | ok next =>
      rw [hhead] at h
      cases hmembers : g.inner.claimAll g.members with
      | error e => simp [hmembers] at h
      | ok inner =>
        simp only [hmembers] at h
        exact List.forall_mem_cons.mpr
          ⟨⟨isWord_of_claim hhead, isWord_of_claimAll hmembers⟩, ih h⟩

end Naming.Scope

theorem isName_of_isWord {text : String} (h : Text.isWord text = true) : isName text = true := by
  refine isName_iff.mpr ⟨?_, isWordRest_of_isWord h⟩
  intro hnil
  rw [Text.isWord, hnil] at h
  cases h

namespace Go

theorem isWord_of_checkNames {s : Schema} {scope : Naming.Scope} (h : checkNames s = .ok scope) :
    (∀ e ∈ s.enums, Text.isWord (enumType e) = true) ∧
      ∀ m ∈ s.messages, Text.isWord (structName m) = true ∧
        ∀ f ∈ m.fields, Text.isWord (fieldName f) = true := by
  rw [checkNames] at h
  obtain ⟨package, hpackage, hmessages⟩ := bind_eq_ok_iff.mp h
  have hclaims := Naming.Scope.isWord_of_claimAll hpackage
  have hgroups := Naming.Scope.isWord_of_claimGroups hmessages
  refine ⟨fun e he => ?_, fun m hm => ?_⟩
  · exact hclaims ⟨e.declared, enumType e⟩ (List.mem_append_right _
      (List.mem_flatMap.mpr ⟨e, he, List.mem_cons_self⟩))
  · obtain ⟨hhead, hmembers⟩ := hgroups (messageGroup m) (List.mem_map_of_mem hm)
    exact ⟨hhead, fun f hf => hmembers ⟨m.fieldDeclared f, fieldName f⟩ (List.mem_map_of_mem hf)⟩

/-- A schema whose names are checked has codecs made of words. -/
theorem named_of_checkNames {s : Schema} {scope : Naming.Scope} (h : checkNames s = .ok scope)
    (hrefers : ∀ m ∈ s.messages, ∀ f ∈ m.fields, s.Refers f.type) {m : Wire.Message}
    (hm : m ∈ s.plan) (hordered : m.Ordered) : Named s m := by
  obtain ⟨henums, hmessages⟩ := isWord_of_checkNames h
  have hmessage := Schema.message_mem_of_mem_plan hm
  refine ⟨isName_of_isWord (hmessages _ hmessage).1, fun f hf => ?_, fun f hf => ?_⟩
  · exact isName_of_isWord ((hmessages _ hmessage).2 _ (Schema.field_mem_of_mem_plan hm hf))
  · have htype := hrefers _ hmessage _ (Schema.field_mem_of_mem_plan hm hf)
    rw [hordered.kind_eq hf]
    -- the words of a reader are its method and the type that it converts to or reads into
    cases hcase : f.field.type with
    | primitive p =>
      cases p with
      | int8 =>
        exact List.forall_mem_cons.mpr
          ⟨isName_reader _, List.forall_mem_singleton.mpr (isName_primitive .int8)⟩
      | int16 | int32 | uint16 | uint32 =>
        exact List.forall_mem_cons.mpr
          ⟨isName_reader _, List.forall_mem_singleton.mpr (isName_primitive _)⟩
      | _ => exact List.forall_mem_singleton.mpr (isName_reader _)
    | enum index =>
      rw [hcase] at htype
      obtain ⟨e, he, hname⟩ := htype
      have hword := isName_of_isWord (henums e (List.mem_of_getElem? he))
      rw [Wire.Kind.ofType, valueReader, hname]
      exact List.forall_mem_cons.mpr ⟨isName_reader .varInt, List.forall_mem_singleton.mpr hword⟩
    | message index =>
      rw [hcase] at htype
      obtain ⟨nested, hnested, hname⟩ := htype
      have hword := isName_of_isWord (hmessages nested (List.mem_of_getElem? hnested)).1
      rw [Wire.Kind.ofType, valueReader, hname]
      exact List.forall_mem_singleton.mpr hword

/-- The second of the two files holds the codecs, and the names have been checked. -/
theorem generate_eq_ok {package : String} {s : Schema} {files : List GeneratedFile}
    (h : generate package s = .ok files) :
    (∃ types path, files = [types, .ofLines path (codecLines s package)]) ∧
      ∃ scope, checkNames s = .ok scope := by
  rw [generate] at h
  split at h
  · cases h
  · obtain ⟨scope, hscope, hfiles⟩ := bind_eq_ok_iff.mp h
    cases hfiles
    exact ⟨⟨_, _, rfl⟩, scope, hscope⟩

end Go

namespace JavaScript

theorem isWord_of_checkNames {s : Schema} {scope : Naming.Scope} (h : checkNames s = .ok scope) :
    ∀ m ∈ s.messages, Text.isWord (className m) = true ∧
      ∀ f ∈ m.fields, Text.isWord (property f) = true := by
  rw [checkNames] at h
  obtain ⟨module, -, hdeclared⟩ := bind_eq_ok_iff.mp h
  have hgroups := Naming.Scope.isWord_of_claimGroups hdeclared
  intro m hm
  obtain ⟨hhead, hmembers⟩ := hgroups (messageGroup m)
    (List.mem_append_right _ (List.mem_map_of_mem hm))
  exact ⟨hhead, fun f hf => hmembers ⟨m.fieldDeclared f, property f⟩ (List.mem_map_of_mem hf)⟩

/-- A schema whose names are checked has classes made of words. -/
theorem named_of_checkNames {s : Schema} {scope : Naming.Scope} (h : checkNames s = .ok scope)
    (hrefers : ∀ m ∈ s.messages, ∀ f ∈ m.fields, s.Refers f.type) {m : Wire.Message}
    (hm : m ∈ s.plan) (hordered : m.Ordered) : Named s m := by
  have hmessages := isWord_of_checkNames h
  have hmessage := Schema.message_mem_of_mem_plan hm
  refine ⟨isName_of_isWord (hmessages _ hmessage).1, fun f hf => ?_, fun f hf name hname => ?_⟩
  · exact isName_of_isWord ((hmessages _ hmessage).2 f hf)
  · have htype := hrefers _ hmessage _ (Schema.field_mem_of_mem_plan hm hf)
    rw [hordered.kind_eq hf] at hname
    cases hcase : f.field.type with
    | primitive p =>
      rw [hcase] at hname
      cases p <;> cases hname
    | enum index =>
      rw [hcase] at hname
      cases hname
    | message index =>
      rw [hcase] at htype hname
      obtain ⟨nested, hnested, hlabel⟩ := htype
      have hword := isName_of_isWord (hmessages nested (List.mem_of_getElem? hnested)).1
      rw [Wire.Kind.ofType, valueWriter, hlabel] at hname
      cases hname
      exact hword

/-- The only file is the module, and the names have been checked. -/
theorem generate_eq_ok {bigint : Bool} {s : Schema} {files : List GeneratedFile}
    (h : generate bigint s = .ok files) :
    (∃ path, files = [.ofLines path (moduleLines s s.fingerprint bigint)]) ∧
      ∃ scope, checkNames s = .ok scope := by
  rw [generate] at h
  split at h
  · obtain ⟨_, -, h⟩ := bind_eq_ok_iff.mp h
    obtain ⟨scope, hscope, hfiles⟩ := bind_eq_ok_iff.mp h
    cases hfiles
    exact ⟨⟨_, rfl⟩, scope, hscope⟩
  · obtain ⟨scope, hscope, hfiles⟩ := bind_eq_ok_iff.mp h
    cases hfiles
    exact ⟨⟨_, rfl⟩, scope, hscope⟩

end JavaScript

/-! ## Agreement -/

/-- `SameProgram s m go js` says that the Go program and the JavaScript program of a planned message
are one program on the wire, for all fields of the message. -/
structure SameProgram (s : Schema) (m : Wire.Message) (go js : Program) : Prop where
  fields : (m.fields.map Wire.Field.field).Perm m.message.fields
  ascending : (m.fields.map Wire.Field.tag).Pairwise (· < ·)
  bounds : ∀ f ∈ m.fields, 1 ≤ f.tag ∧ f.tag ≤ 2 ^ 29 - 1
  goFollows : go.Follows s m Go.fieldName
  jsFollows : js.Follows s m JavaScript.property
  nested : js.writes.map (·.transfer.nested?) = js.reads.map (·.transfer.nested?)

/-- Encoders of the same program write the tags of all fields, in ascending order. -/
theorem SameProgram.tags {s : Schema} {m : Wire.Message} {go js : Program}
    (h : SameProgram s m go js) {tags : List Nat} (hascending : tags.Pairwise (· < ·))
    (htags : (m.message.fields.map Field.tag).Perm tags) :
    go.writes.map WriteStep.tag = tags ∧ js.writes.map WriteStep.tag = tags := by
  have hplanned : m.fields.map Wire.Field.tag = tags := by
    have hperm := (h.fields.map Field.tag).trans htags
    rw [List.map_map] at hperm
    exact hperm.eq_of_pairwise (fun _ _ _ _ hlt hlt' => absurd hlt' (Nat.lt_asymm hlt)) h.ascending
      hascending
  exact ⟨h.goFollows.tags.trans hplanned, h.jsFollows.tags.trans hplanned⟩

namespace Schema

/-- **Both targets emit the same wire program.** If a schema that comes from a text can be generated
in Go and in JavaScript, then for every message the encoder and the decoder that stand in the Go
codecs and those that stand in the JavaScript module are one program: both encoders take the steps
of the plan, whose tags ascend, and every case of a decoder reads back what its tag is written with.
-/
theorem targets_emit_same_program {mode : ErrorMode} {text : String} {s : Schema}
    (h : Schema.ofText mode text = .ok s) {package : String} {goFiles : List GeneratedFile}
    (hgo : Go.generate package s = .ok goFiles) {bigint : Bool} {jsFiles : List GeneratedFile}
    (hjs : JavaScript.generate bigint s = .ok jsFiles) :
    ∃ types codecs module, goFiles = [types, codecs] ∧ jsFiles = [module] ∧
      ∀ index message, s.messages[index]? = some message →
        ∃ go js, Go.Emits codecs (Go.structName message) go ∧
          JavaScript.Emits module (JavaScript.className message) js ∧
            SameProgram s (.ofMessage index message) go js := by
  obtain ⟨⟨types, goPath, rfl⟩, goScope, hgoNames⟩ := Go.generate_eq_ok hgo
  obtain ⟨⟨jsPath, rfl⟩, jsScope, hjsNames⟩ := JavaScript.generate_eq_ok hjs
  refine ⟨types, _, _, rfl, rfl, fun index message hmessage => ?_⟩
  have hm := ofMessage_mem_plan hmessage
  have hordered := ofText_plan_ordered h _ hm
  have hrefers := ofText_refers h
  have hfields : ∀ f ∈ (Wire.Message.ofMessage index message).fields, s.Refers f.field.type :=
    fun f hf => hrefers _ (message_mem_of_mem_plan hm) _ (field_mem_of_mem_plan hm hf)
  refine ⟨Go.program s (.ofMessage index message), JavaScript.program s (.ofMessage index message),
    ?_, ?_, ?_⟩
  · exact Go.emits_codecLines hm hordered (Go.named_of_checkNames hgoNames hrefers hm hordered) _ _
  · exact JavaScript.emits_moduleLines hm hordered
      (JavaScript.named_of_checkNames hjsNames hrefers hm hordered) _ _ _
  · exact ⟨perm_fields_ofMessage index message, List.pairwise_map.mpr hordered.ascending,
      hordered.bounds, Go.follows_program hordered hfields,
      JavaScript.follows_program hordered hfields, JavaScript.nested?_writes s _⟩

/-- A text with all ways of writing a field, not in the order of the tags. -/
def cellText : String :=
  "enum Mode \x7b off = -1; \x7d message Cell \x7b next: repeated Cell = 4; up: Cell = 3; " ++
    "low: int8 = 1; mode: optional Mode = 300; big: repeated uint64 = 2; \x7d"

/-- Its one message has an encoder in both targets, and both write the five tags. -/
theorem cellText_same_program :
    ∃ s goFiles jsFiles, Schema.ofText .collect cellText = .ok s ∧
      s.messages.map (·.fields.map (·.tag)) = [[4, 3, 1, 300, 2]] ∧
      Go.generate "cells" s = .ok goFiles ∧ JavaScript.generate true s = .ok jsFiles ∧
      ∃ types codecs module message, goFiles = [types, codecs] ∧ jsFiles = [module] ∧
        s.messages = [message] ∧
        ∃ go js, Go.Emits codecs (Go.structName message) go ∧
          JavaScript.Emits module (JavaScript.className message) js ∧
          SameProgram s (.ofMessage 0 message) go js ∧
          go.writes.map WriteStep.tag = [1, 2, 3, 4, 300] ∧
          js.writes.map WriteStep.tag = [1, 2, 3, 4, 300] := by
  have hrun : ∃ s ∈ (Schema.ofText .collect cellText).toOption,
      s.messages.map (·.fields.map (·.tag)) = [[4, 3, 1, 300, 2]] ∧
        (Go.generate "cells" s).toOption.isSome ∧ (JavaScript.generate true s).toOption.isSome := by
    decide +kernel
  obtain ⟨s, hs, htags, hgo, hjs⟩ := hrun
  obtain ⟨goFiles, hgoFiles⟩ := Option.isSome_iff_exists.mp hgo
  obtain ⟨jsFiles, hjsFiles⟩ := Option.isSome_iff_exists.mp hjs
  have h := eq_ok_of_mem_toOption hs
  have hgo := eq_ok_of_mem_toOption hgoFiles
  have hjs := eq_ok_of_mem_toOption hjsFiles
  obtain ⟨types, codecs, module, hgoFile, hjsFile, hprograms⟩ := targets_emit_same_program h hgo hjs
  obtain ⟨message, hmessages, hmessage⟩ := List.map_eq_singleton_iff.mp htags
  obtain ⟨go, js, hgoEmits, hjsEmits, hsame⟩ := hprograms 0 message (by rw [hmessages]; rfl)
  have hperm : (message.fields.map Field.tag).Perm [1, 2, 3, 4, 300] := by
    rw [hmessage]
    decide
  obtain ⟨hgoTags, hjsTags⟩ := hsame.tags (by decide) hperm
  exact ⟨s, goFiles, jsFiles, h, htags, hgo, hjs, types, codecs, module, message, hgoFile, hjsFile,
    hmessages, go, js, hgoEmits, hjsEmits, hsame, hgoTags, hjsTags⟩

end Schema

end WireSchema
