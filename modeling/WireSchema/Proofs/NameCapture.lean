import WireSchema.Proofs.GoReferences
import WireSchema.Proofs.JavaScriptReferences

/-!
# Declarations capture no names

A declaration of a schema may get any name that its checks let through, and generated code is
compiled with names of its own: those of the support code, of imported packages and of the language,
globals, and local variables. The two never meet (`Schema.names_uncaptured`). Few of these names are
reserved; the others are out of reach because of the letters that a spelled name can start with.
-/

namespace WireSchema

open Naming Source

/-! ## Go -/

namespace Go

/-- The name by which the package at a path is used: the last part of the path. -/
def importedName (path : String) : String :=
  String.ofList ((Text.pieces '/' path.toList).getLast?.getD [])

/-- The names of the packages that generated code imports. -/
def importedNames : List String :=
  supportImports.map importedName

example : importedNames = ["binary", "errors", "fmt", "math", "utf8"] := by decide +kernel

/-- The identifiers that the language declares in every file. -/
def predeclared : List String :=
  ["any", "bool", "byte", "comparable", "complex64", "complex128", "error", "float32", "float64",
    "int", "int8", "int16", "int32", "int64", "rune", "string", "uint", "uint8", "uint16", "uint32",
    "uint64", "uintptr", "true", "false", "iota", "nil", "append", "cap", "clear", "close",
    "complex", "copy", "delete", "imag", "len", "make", "max", "min", "new", "panic", "print",
    "println", "real", "recover"]

/-- The methods that structs call on each other. -/
def codecMethods : List String :=
  ["encodeTo", "decodeFrom"]

/-- The names that generated code relies on and no declaration may have. -/
def outerNames : List String :=
  supportNames ++ importedNames ++ keywords ++ predeclared

/-- `Uncaptured s package files` says that no declaration of the schema has a name that the
generated files use in another sense. -/
structure Uncaptured (s : Schema) (package : String) (files : List GeneratedFile) : Prop where
  packageNames : ∀ p ∈ packageNames s, Capital p ∧ p ≠ versionConstant ∧ p ∉ outerNames
  fieldNames : ∀ f ∈ fieldNames s,
    Capital f ∧ f ∉ outerNames ∧ f ∉ messageMethods ∧ f ∉ codecMethods
  /-- a name in the files is one of these, or starts with no capital, or is among a few others -/
  references : ∀ file ∈ files, ∀ line ∈ linesOf file.contents,
    ∃ names, references? line = some names ∧ ∀ w ∈ names, Expected s package w

theorem notMem_of_capital {p : String} (hp : Capital p) {names : List String}
    (hnames : (names.all fun w => !w.toList.head?.any Char.isUpper) = true) : p ∉ names := by
  intro hmem
  obtain ⟨⟨c, hc, hupper⟩, -⟩ := hp
  have hlow := List.all_eq_true.mp hnames p hmem
  rw [Option.mem_def.mp hc, Option.any_some, hupper] at hlow
  cases hlow

theorem uncaptured_of_generate {mode : ErrorMode} {text : String} {s : Schema}
    (h : Schema.ofText mode text = .ok s) {package : String} {files : List GeneratedFile}
    (hfiles : generate package s = .ok files) : Uncaptured s package files := by
  have hs := Schema.ofText_worded h
  obtain ⟨-, scope, hnames⟩ := generate_eq_ok hfiles
  have houter : (outerNames.all fun w => !w.toList.head?.any Char.isUpper) = true := by
    decide +kernel
  have hmethods : (codecMethods.all fun w => !w.toList.head?.any Char.isUpper) = true := by
    decide +kernel
  refine ⟨fun p hp => ?_, fun f hf => ?_, refers_of_generate h hfiles⟩
  · have hcapital := capital_packageNames hnames hs p hp
    exact ⟨hcapital, (packageNames_checked hnames p hp).2, notMem_of_capital hcapital houter⟩
  · have hcapital := capital_fieldNames hnames hs f hf
    exact ⟨hcapital, notMem_of_capital hcapital houter, (fieldNames_checked hnames f hf).2,
      notMem_of_capital hcapital hmethods⟩

end Go

/-! ## JavaScript -/

namespace JavaScript

/-- The names of the constants that the support code declares. -/
def supportConstantNames : List String :=
  ["angoTextEncoder", "angoTextDecoder"]

/-- `Uncaptured s files` says that no declaration of the schema has a name that the generated file
uses in another sense. The reserved names are those of the version, of the support classes and of
the globals. -/
structure Uncaptured (s : Schema) (files : List GeneratedFile) : Prop where
  moduleNames : ∀ p ∈ moduleNames s,
    StartsCapital p ∧ p ∉ reservedNames ∧ p ∉ supportConstantNames ∧ p ∉ privateMethods
  properties : ∀ p ∈ properties s, Small p ∧ p ∉ classMembers
  /-- a name in the file is one of the module, reserved, or starts with a small letter, or is one of
  two others -/
  references : ∀ file ∈ files, ∀ line ∈ linesOf file.contents,
    ∃ names, references? line = some names ∧ ∀ w ∈ names, Expected s w

theorem isLower_of_capital {c : Char} (hc : Text.isWordRest c = true)
    (hcapital : c.isUpper = true ∨ c = '_') : c.isLower = false :=
  forall_ascii (P := fun c => c.isUpper = true ∨ c = '_' → c.isLower = false) (by decide +kernel)
    (ascii_of_isWordRest hc) hcapital

theorem uncaptured_of_generate {mode : ErrorMode} {text : String} {s : Schema}
    (h : Schema.ofText mode text = .ok s) {bigint : Bool} {files : List GeneratedFile}
    (hfiles : generate bigint s = .ok files) : Uncaptured s files := by
  have hs := Schema.ofText_worded h
  obtain ⟨-, scope, hnames⟩ := generate_eq_ok hfiles
  refine ⟨fun p hp => ?_, fun p hp => ?_, refers_of_generate h hfiles⟩
  · obtain ⟨hstart, hletters⟩ := startsCapital_moduleNames hnames hs p hp
    obtain ⟨hword, hreserved⟩ := moduleNames_checked hnames p hp
    refine ⟨hstart, hreserved, fun hmem => ?_, fun hmem => ?_⟩
    · -- these start with a small letter
      have hsmall : (supportConstantNames.all fun w => w.toList.head?.any Char.isLower) = true := by
        decide +kernel
      obtain ⟨c, hc, hcapital⟩ := hstart
      have hlower := List.all_eq_true.mp hsmall p hmem
      rw [Option.mem_def.mp hc, Option.any_some,
        isLower_of_capital (wordly_of_isWord hword c (List.mem_of_mem_head? hc)) hcapital] at hlower
      cases hlower
    · -- these have an underscore and small letters
      have hmixed : (privateMethods.all fun w =>
          w.toList.any Char.isLower && w.toList.contains '_') = true := by
        decide +kernel
      have hboth := List.all_eq_true.mp hmixed p hmem
      rw [Bool.and_eq_true, List.any_eq_true, List.contains_iff_mem] at hboth
      obtain ⟨⟨c, hc, hlower⟩, hunderscore⟩ := hboth
      rcases hletters with hletters | hletters
      · rw [hletters c hc] at hlower
        cases hlower
      · exact hletters hunderscore
  · exact ⟨small_properties hnames hs p hp, (properties_checked hnames p hp).2⟩

end JavaScript

/-! ## Both -/

/-- **Declarations capture no names.** If a schema that comes from a text can be generated in Go,
then every name that it declares in the package or in a struct starts with a capital and has no
underscore, so it is no name of the support code, no imported package, no keyword, no predeclared
identifier and no other name in the files. If it can be generated in JavaScript, then every name
that it declares in the module starts with a capital or an underscore and is neither a name of the
support code nor a global that the module refers to, and every property starts with a small letter
and hides no member. -/
theorem Schema.names_uncaptured {mode : ErrorMode} {text : String} {s : Schema}
    (h : Schema.ofText mode text = .ok s) :
    (∀ package files, Go.generate package s = .ok files → Go.Uncaptured s package files) ∧
      ∀ bigint files, JavaScript.generate bigint s = .ok files → JavaScript.Uncaptured s files :=
  ⟨fun _ _ hfiles => Go.uncaptured_of_generate h hfiles,
    fun _ _ hfiles => JavaScript.uncaptured_of_generate h hfiles⟩

/-- A text whose names have acronyms, digits and more underscores than they need. -/
def badgeText : String :=
  "const __max_2: int8 = -7; enum URLKind \x7b x__9 = 1; \x7d " ++
    "message HTTPBadge \x7b user_ID: URLKind = 1; \x7d"

theorem badgeText_uncaptured :
    ∃ s goFiles jsFiles, Schema.ofText .collect badgeText = .ok s ∧
      (Go.packageNames s = ["Max2", "URLKind", "URLKindX9", "HTTPBadge"] ∧
        Go.fieldNames s = ["UserId"] ∧
        JavaScript.moduleNames s = ["MAX_2", "URLKind", "HTTPBadge"] ∧
        JavaScript.properties s = ["userId"]) ∧
      Go.generate "badges" s = .ok goFiles ∧ JavaScript.generate true s = .ok jsFiles ∧
      Go.Uncaptured s "badges" goFiles ∧ JavaScript.Uncaptured s jsFiles := by
  have hrun : ∃ s ∈ (Schema.ofText .collect badgeText).toOption,
      (Go.packageNames s = ["Max2", "URLKind", "URLKindX9", "HTTPBadge"] ∧
        Go.fieldNames s = ["UserId"] ∧
        JavaScript.moduleNames s = ["MAX_2", "URLKind", "HTTPBadge"] ∧
        JavaScript.properties s = ["userId"]) ∧
      (Go.generate "badges" s).toOption.isSome ∧ (JavaScript.generate true s).toOption.isSome := by
    decide +kernel
  obtain ⟨s, hs, hnames, hgo, hjs⟩ := hrun
  obtain ⟨goFiles, hgoFiles⟩ := Option.isSome_iff_exists.mp hgo
  obtain ⟨jsFiles, hjsFiles⟩ := Option.isSome_iff_exists.mp hjs
  have h := eq_ok_of_mem_toOption hs
  have hgo := eq_ok_of_mem_toOption hgoFiles
  have hjs := eq_ok_of_mem_toOption hjsFiles
  obtain ⟨hgoNames, hjsNames⟩ := Schema.names_uncaptured h
  exact ⟨s, goFiles, jsFiles, h, hnames, hgo, hjs, hgoNames _ _ hgo, hjsNames _ _ hjs⟩

end WireSchema
