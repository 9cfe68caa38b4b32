import Mathlib.Data.List.DropRight
import WireSchema.Proofs.NameProblems

/-!
# What a spelling keeps of a name

A name is **folded** by putting it in small letters and dropping its underscores (`folded`). All
four spellings of a word fold to the same letters and digits as the word itself (`folded_spelling`):
none is lost, doubled or moved.

So what an identifier folds to is what the name in the text of its owner folds to, values of enums
in Go apart (`spells_of_mem_claimOrder`), and declarations whose identifiers clash have names that
fold to the same.
-/

namespace WireSchema

open Text (isWord isWordRest lowercase)

namespace Naming

/-! ## Letters -/

/-- The name in small letters, without its underscores. -/
def folded (name : String) : String :=
  String.ofList ((lowercase name.toList).filter (· ≠ '_'))

/-- The characters in small letters, without underscores. -/
def letters (cs : List Char) : List Char :=
  (cs.map Char.toLower).filter (· ≠ '_')

/-- The folded form of a word is made of its letters and digits. -/
theorem folded_eq {name : String} (h : Wordly name.toList) :
    folded name = String.ofList (letters name.toList) := by
  rw [folded, lowercase_eq_map h, letters]

@[simp]
theorem letters_nil : letters [] = [] :=
  rfl

/-- The letters of two texts stand behind each other. -/
@[simp]
theorem letters_append (cs ds : List Char) : letters (cs ++ ds) = letters cs ++ letters ds := by
  rw [letters, List.map_append, List.filter_append, letters, letters]

theorem letters_cons (c : Char) (cs : List Char) : letters (c :: cs) = letters [c] ++ letters cs :=
  letters_append [c] cs

@[simp]
theorem letters_underscore : letters ['_'] = [] := by
  decide

section

variable {c : Char} (h : isWordRest c = true)

include h

/-- Raising a character keeps its letter. -/
theorem letters_toUpper : letters [c.toUpper] = letters [c] :=
  forall_ascii (P := fun c => letters [c.toUpper] = letters [c]) (by decide +kernel)
    (ascii_of_isWordRest h)

/-- Lowering a character keeps its letter. -/
theorem letters_toLower : letters [c.toLower] = letters [c] :=
  forall_ascii (P := fun c => letters [c.toLower] = letters [c]) (by decide +kernel)
    (ascii_of_isWordRest h)

end

/-- So does any change of case, throughout a word. -/
theorem letters_map {f : Char → Char}
    (hf : ∀ {c}, isWordRest c = true → letters [f c] = letters [c])
    {cs : List Char} (h : Wordly cs) :
    letters (cs.map f) = letters cs := by
  induction cs with
  | nil => rfl
  | cons c cs ih =>
    obtain ⟨hc, hcs⟩ := List.forall_mem_cons.mp h
    rw [List.map_cons, letters_cons, hf hc, ih hcs, ← letters_cons]

/-! ## Pascal case -/

/-- A title word has the letters of the word. -/
theorem letters_titleWord {cs : List Char} (h : Wordly cs) :
    letters (titleWord cs) = letters cs := by
  cases cs with
  | nil => rfl
  | cons c cs =>
    obtain ⟨hc, hcs⟩ := List.forall_mem_cons.mp h
    rw [titleWord, upperOf_eq hc, lowercase_eq_map hcs, letters_append, letters_toUpper hc,
      letters_map letters_toLower hcs, ← letters_cons]

/-- So has a word whose first letter is raised. -/
theorem letters_raiseFirst {cs : List Char} (h : Wordly cs) :
    letters (raiseFirst cs) = letters cs := by
  cases cs with
  | nil => rfl
  | cons c cs =>
    rw [raiseFirst, upperOf_eq (h c List.mem_cons_self), letters_append,
      letters_toUpper (h c List.mem_cons_self), ← letters_cons]

/-- Underscores between words are no letters. -/
theorem letters_intercalate (words : List (List Char)) :
    letters (['_'].intercalate words) = words.flatMap letters := by
  induction words with
  | nil => rfl
  | cons word words ih =>
    cases words with
    | nil => simp
    | cons next words =>
      rw [List.intercalate_cons_cons, letters_append, letters_append, ih, letters_underscore,
        List.append_nil, ← List.flatMap_cons]

/-- Words without an empty one among them, each with one capital. -/
theorem letters_titleWords {words : List (List Char)} (h : ∀ word ∈ words, Wordly word) :
    letters ((words.filter (!·.isEmpty)).flatMap titleWord) = words.flatMap letters := by
  induction words with
  | nil => rfl
  | cons word words ih =>
    obtain ⟨hword, hwords⟩ := List.forall_mem_cons.mp h
    cases word with
    | nil =>
      -- between two underscores, or at either end
      simpa using ih hwords
    | cons c cs =>
      rw [List.filter_cons_of_pos (by simp), List.flatMap_cons, letters_append,
        letters_titleWord hword, ih hwords, List.flatMap_cons]

/-- **Pascal case keeps the letters of a word.** -/
theorem letters_pascalChars {cs : List Char} (h : Wordly cs) :
    letters (pascalChars cs) = letters cs := by
  rw [pascalChars]
  split
  · have hwords : ∀ word ∈ Text.pieces '_' cs, Wordly word := fun word hword c hc =>
      h c (mem_of_mem_pieces hword hc)
    rw [letters_titleWords hwords, ← letters_intercalate, Text.intercalate_pieces]
  · split
    · exact letters_titleWord h
    · exact letters_raiseFirst h

/-! ## Camel case -/

/-- Lowering an acronym keeps the letters. -/
theorem letters_lowerAcronym {cs : List Char} (h : Wordly cs) :
    letters (lowerAcronym cs) = letters cs := by
  induction cs with
  | nil => rfl
  | cons c cs ih =>
    obtain ⟨hc, hcs⟩ := List.forall_mem_cons.mp h
    rw [lowerAcronym]
    split
    · split
      · rfl
      · rw [lowerOf_eq hc, letters_append, letters_toLower hc, ih hcs, ← letters_cons]
    · rfl

/-- Lowering a leading acronym keeps the letters. -/
theorem letters_lowerLeading {cs : List Char} (h : Wordly cs) :
    letters (lowerLeading cs) = letters cs := by
  cases cs with
  | nil => rfl
  | cons c cs =>
    obtain ⟨hc, hcs⟩ := List.forall_mem_cons.mp h
    rw [lowerLeading]
    split
    · rw [lowerOf_eq hc, letters_append, letters_toLower hc, letters_lowerAcronym hcs,
        ← letters_cons]
    · rfl

/-! ## Snake case -/

/-- An underscore in front of a character adds no letter. -/
theorem letters_snakePiece (prev last : Option Char) {c : Char} (hc : isWordRest c = true)
    (rest : List Char) : letters (snakePiece prev last c rest) = letters [c] := by
  rw [snakePiece, lowerOf_eq hc]
  split
  · split
    · rw [letters_cons, letters_underscore, List.nil_append, letters_toLower hc]
    · exact letters_toLower hc
  · split
    · rename_i hunderscore
      subst hunderscore
      split <;> rfl
    · rfl

/-- Snake case adds underscores only. -/
theorem letters_snakeFrom {cs : List Char} (h : Wordly cs) (prev last : Option Char) :
    letters (snakeFrom prev last cs) = letters cs := by
  induction cs generalizing prev last with
  | nil => rfl
  | cons c cs ih =>
    obtain ⟨hc, hcs⟩ := List.forall_mem_cons.mp h
    rw [snakeFrom, letters_append, letters_snakePiece prev last hc, ih hcs, ← letters_cons]

/-- Trimming takes underscores only. -/
theorem letters_trimUnderscores (cs : List Char) : letters (trimUnderscores cs) = letters cs := by
  have hdropped : letters (cs.rtakeWhile (· = '_')) = [] := by
    refine List.filter_eq_nil_iff.mpr (List.forall_mem_map.mpr fun c hc => ?_)
    obtain rfl : c = '_' := by simpa using List.mem_rtakeWhile_imp hc
    decide
  have hsplit : trimUnderscores cs ++ cs.rtakeWhile (· = '_') = cs :=
    List.rdropWhile_append_rtakeWhile
  rw [← List.append_nil (letters (trimUnderscores cs)), ← hdropped, ← letters_append, hsplit]

/-- **Snake case keeps the letters of a word.** -/
theorem letters_snakeChars {cs : List Char} (h : Wordly cs) :
    letters (snakeChars cs) = letters cs := by
  rw [snakeChars, letters_trimUnderscores, letters_snakeFrom h]

/-! ## The spellings -/

/-- The spellings that a name has in generated sources and files. -/
def spellings (name : String) : List String :=
  [pascal name, camel name, snake name, screaming name]

/-- **A spelling changes only case and underscores.** -/
theorem folded_spelling {name : String} (h : Wordly name.toList) :
    ∀ spelled ∈ spellings name, folded spelled = folded name := by
  have hsuffices : ∀ cs : List Char, Wordly cs → letters cs = letters name.toList →
      folded (String.ofList cs) = folded name := by
    intro cs hcs hletters
    rw [folded_eq (by rwa [String.toList_ofList]), String.toList_ofList, hletters, folded_eq h]
  have hpascal := (pascalChars_shape h).1.wordly
  have hsnake := wordly_snakeChars h
  have hscreaming : Wordly (Text.uppercase (snakeChars name.toList)) := by
    rw [uppercase_eq_map hsnake]
    exact List.forall_mem_map.mpr fun c hc => (recased_toUpper (hsnake c hc)).word
  intro spelled hspelled
  rw [spellings, List.mem_cons, List.mem_cons, List.mem_cons, List.mem_singleton] at hspelled
  rcases hspelled with rfl | rfl | rfl | rfl
  · exact hsuffices _ hpascal (letters_pascalChars h)
  · refine hsuffices _ (camelChars_shape h).1.wordly ?_
    rw [camelChars, letters_lowerLeading hpascal, letters_pascalChars h]
  · exact hsuffices _ hsnake (letters_snakeChars h)
  · refine hsuffices _ hscreaming ?_
    rw [uppercase_eq_map hsnake, letters_map letters_toUpper hsnake, letters_snakeChars h]

/-- Names that are the same in Pascal case are the same in camel case. -/
theorem camel_eq_of_pascal_eq {name name' : String} (h : pascal name = pascal name') :
    camel name = camel name' := by
  rw [camel, camelChars, String.ofList_injective h, ← camelChars, ← camel]

/-! ## The name in the text of an owner -/

/-- The word at the end of a text. -/
def lastWord (text : String) : String :=
  String.ofList (text.toList.rtakeWhile isWordRest)

/-- The last word of a description is the name at its end. -/
theorem lastWord_append {before name : String} (hname : Wordly name.toList)
    (hbefore : before.toList.getLast?.any isWordRest = false) :
    lastWord (before ++ name) = name := by
  have hspan : (name.toList.reverse ++ before.toList.reverse).takeWhile isWordRest =
      name.toList.reverse := by
    refine (Segment.span_append (fun c hc => hname c (List.mem_reverse.mp hc)) fun c hc => ?_).1
    rw [List.head?_reverse] at hc
    rwa [Option.mem_def.mp hc] at hbefore
  rw [lastWord, List.rtakeWhile, String.toList_append, List.reverse_append, hspan,
    List.reverse_reverse, String.ofList_toList]

end Naming

/-- The text names a constant, an enum, a message or a field of the schema, and which name this has.
-/
inductive Schema.Declares (s : Schema) : String → String → Prop where
  | constant {c : Constant} : c ∈ s.constants → Declares s c.declared c.name
  | enum {e : Enum} : e ∈ s.enums → Declares s e.declared e.name
  | message {m : Message} : m ∈ s.messages → Declares s m.declared m.name
  | field {m : Message} {f : Field} : m ∈ s.messages → f ∈ m.fields →
    Declares s (m.fieldDeclared f) f.name

namespace Naming

theorem count_blank {cs : List Char} (h : Wordly cs) : cs.count ' ' = 0 := by
  refine List.count_eq_zero.mpr fun hmem => ?_
  exact absurd (h _ hmem) (by decide)

/-- A text of two words. -/
theorem lastWord_of_pair {before name : String} (hname : Wordly name.toList)
    (hbefore : before.toList.getLast?.any isWordRest = false)
    (hcount : before.toList.count ' ' = 1) :
    lastWord (before ++ name) = name ∧ (before ++ name).toList.count ' ' = 1 := by
  refine ⟨lastWord_append hname hbefore, ?_⟩
  rw [String.toList_append, List.count_append, count_blank hname, hcount]

/-- The text of a declaration ends with its name, and has two words. -/
theorem lastWord_of_declares {s : Schema} (hs : s.Worded) {owner name : String}
    (h : s.Declares owner name) : lastWord owner = name ∧ owner.toList.count ' ' = 1 := by
  cases h with
  | @constant c hc =>
    exact lastWord_of_pair (wordly_of_isWord (hs.constants c hc)) (by decide) (by decide)
  | @enum e he =>
    exact lastWord_of_pair (wordly_of_isWord (hs.enums e he).1) (by decide) (by decide)
  | @message m hm =>
    exact lastWord_of_pair (wordly_of_isWord (hs.messages m hm).1) (by decide) (by decide)
  | @field m f hm hf =>
    obtain ⟨hmessage, hfields⟩ := hs.messages m hm
    have hpoint : ".".toList = ['.'] := rfl
    refine lastWord_of_pair (wordly_of_isWord (hfields f hf)) ?_ ?_
    · rw [String.toList_append, hpoint, List.getLast?_concat]
      decide
    · rw [String.toList_append, String.toList_append, List.count_append, List.count_append,
        count_blank (wordly_of_isWord hmessage)]
      decide

/-- The identifier is the name at the end of the owner's text in some case, unless the owner is the
value of an enum, whose text has three words. -/
def Spells (owner identifier : String) : Prop :=
  folded identifier = folded (lastWord owner) ∨ 2 ≤ owner.toList.count ' '

/-- An identifier folds to the name of what it stands for. -/
theorem Spells.folded {s : Schema} (hs : s.Worded) {owner identifier name : String}
    (h : Spells owner identifier) (howner : s.Declares owner name) :
    Naming.folded identifier = Naming.folded name := by
  obtain ⟨hlast, hcount⟩ := lastWord_of_declares hs howner
  rcases h with h | h
  · rwa [hlast] at h
  · omega

theorem spells_variant (e : Enum) (v : Variant) (identifier : String) :
    Spells (e.variantDeclared v) identifier := by
  refine .inr ?_
  rw [Enum.variantDeclared, String.toList_append, String.toList_append, String.toList_append,
    List.count_append, List.count_append, List.count_append]
  have hwords : "enum value ".toList.count ' ' = 2 := by decide
  omega

/-- Reserved identifiers spell themselves. -/
theorem spells_of_mem_reserving {language : Language} {identifiers : List String}
    (h : ∀ w ∈ identifiers, isWord w = true) (space : Space) :
    ∀ a ∈ (Scope.reserving language identifiers).entries space, Spells a.owner a.identifier := by
  rw [Scope.entries_reserving]
  refine List.forall_mem_map.mpr fun w hw => .inl ?_
  rw [Entry.generated, lastWord_append (wordly_of_isWord (h w hw)) (by decide)]

/-- A spelling of a declared name spells its owner. -/
theorem spells_of_declares {s : Schema} (hs : s.Worded) {owner name identifier : String}
    (h : s.Declares owner name) (hname : isWord name = true)
    (hspelled : identifier ∈ spellings name) : Spells owner identifier := by
  refine .inl ?_
  rw [folded_spelling (wordly_of_isWord hname) _ hspelled, (lastWord_of_declares hs h).1]

/-- What holds of all claims and of all that is reserved holds of all entries. -/
theorem spells_of_mem_claimOrder {reserved : Scope} {claims : List Claim} {groups : List Group}
    (hreserved : ∀ a ∈ reserved.entries .outer, Spells a.owner a.identifier)
    (hclaims : ∀ c ∈ claims, Spells c.declaration c.identifier)
    (hgroups : ∀ g ∈ groups, Spells g.head.declaration g.head.identifier ∧
      (∀ space, ∀ a ∈ g.inner.entries space, Spells a.owner a.identifier) ∧
      ∀ c ∈ g.members, Spells c.declaration c.identifier) :
    ∀ a ∈ claimOrder reserved claims groups, Spells a.owner a.identifier := by
  refine List.forall_mem_append.mpr ⟨List.forall_mem_append.mpr ⟨hreserved, ?_⟩, ?_⟩
  · exact List.forall_mem_map.mpr hclaims
  · intro a ha
    obtain ⟨⟨g, index⟩, hg, ha⟩ := List.mem_flatMap.mp ha
    obtain ⟨hhead, hinner, hmembers⟩ := hgroups g (List.fst_mem_of_mem_zipIdx hg)
    rcases List.mem_cons.mp ha with rfl | ha
    · exact hhead
    · rcases List.mem_append.mp ha with ha | ha
      · exact hinner _ a ha
      · obtain ⟨c, hc, rfl⟩ := List.mem_map.mp ha
        exact hmembers c hc

end Naming

open Naming

/-! ## The entries of a schema -/

section

variable {s : Schema} (hs : s.Worded)

include hs

/-- All identifiers of a package spell what they stand for. -/
theorem Go.spells_of_mem_claimOrder : ∀ a ∈ Go.claimOrder s, Spells a.owner a.identifier := by
  refine Naming.spells_of_mem_claimOrder (spells_of_mem_reserving (by decide +kernel) _)
    (List.forall_mem_append.mpr ⟨?_, ?_⟩) ?_
  · refine List.forall_mem_map.mpr fun c hc => ?_
    exact spells_of_declares hs (.constant hc) (hs.constants c hc)
      (by simp [spellings, constantName])
  · refine List.forall_mem_flatMap.mpr fun e he => List.forall_mem_cons.mpr ⟨?_, ?_⟩
    · exact spells_of_declares hs (.enum he) (hs.enums e he).1 (by simp [spellings, enumType])
    · exact List.forall_mem_map.mpr fun v _ => spells_variant e v _
  · refine List.forall_mem_map.mpr fun m hm => ⟨?_, ?_, ?_⟩
    · exact spells_of_declares hs (.message hm) (hs.messages m hm).1
        (by simp [messageGroup, spellings, structName])
    · exact spells_of_mem_reserving (by decide +kernel)
    · refine List.forall_mem_map.mpr fun f hf => ?_
      exact spells_of_declares hs (.field hm hf) ((hs.messages m hm).2 f hf)
        (by simp [spellings, fieldName])

/-- So do all identifiers of a module. -/
theorem JavaScript.spells_of_mem_claimOrder :
    ∀ a ∈ JavaScript.claimOrder s, Spells a.owner a.identifier := by
  refine Naming.spells_of_mem_claimOrder (spells_of_mem_reserving (by decide +kernel) _) ?_
    (List.forall_mem_append.mpr ⟨?_, ?_⟩)
  · refine List.forall_mem_map.mpr fun c hc => ?_
    exact spells_of_declares hs (.constant hc) (hs.constants c hc)
      (by simp [spellings, constantName])
  · refine List.forall_mem_map.mpr fun e he => ⟨?_, ?_, ?_⟩
    · exact spells_of_declares hs (.enum he) (hs.enums e he).1
        (by simp [enumGroup, spellings, enumObject])
    · exact spells_of_mem_reserving (by decide +kernel)
    · exact List.forall_mem_map.mpr fun v _ => spells_variant e v _
  · refine List.forall_mem_map.mpr fun m hm => ⟨?_, ?_, ?_⟩
    · exact spells_of_declares hs (.message hm) (hs.messages m hm).1
        (by simp [messageGroup, spellings, className])
    · exact spells_of_mem_reserving (by decide +kernel)
    · refine List.forall_mem_map.mpr fun f hf => ?_
      exact spells_of_declares hs (.field hm hf) ((hs.messages m hm).2 f hf)
        (by simp [spellings, property])

/-- Entries that clash belong to declarations whose names fold to the same. -/
theorem Naming.folded_eq_of_clashes {entries : List Entry}
    (hentries : ∀ a ∈ entries, Spells a.owner a.identifier) {a b : Entry} (ha : a ∈ entries)
    (hb : b ∈ entries) (hclash : a.Clashes b) {name name' : String}
    (hname : s.Declares a.owner name) (hname' : s.Declares b.owner name') :
    folded name = folded name' := by
  rw [← (hentries a ha).folded hs hname, ← (hentries b hb).folded hs hname', hclash.2]

/-- **Names that clash differ in case and underscores only.** -/
theorem Naming.folded_eq_of_firstClash {entries : List Entry}
    (hentries : ∀ a ∈ entries, Spells a.owner a.identifier) {first second identifier : String}
    (h : FirstClash entries first second identifier) {name name' : String}
    (hname : s.Declares first name) (hname' : s.Declares second name') :
    folded name = folded name' := by
  obtain ⟨before, a, between, b, after, rfl, -, hclash, rfl, rfl, -⟩ := h
  exact folded_eq_of_clashes hs hentries (by simp) (by simp) hclash hname hname'

end

theorem Naming.not_nodup_map_of_sublist {α β : Type} {x y : α} {xs : List α}
    (h : [x, y].Sublist xs) {f : α → β} (heq : f x = f y) : ¬ (xs.map f).Nodup := by
  intro hnodup
  have hpair := (h.map f).nodup hnodup
  simp [heq] at hpair

/-- **Spellings only change case and underscores.** Folded, each spelling of a word is the word
folded. So constants, enums, messages and fields whose names fold to different words have
identifiers that do not clash in either language, and no collision is reported of them; and fields
of a message that clash in Go clash in JavaScript, so that neither language has sources for them. -/
theorem Naming.spellings_only_recase :
    (∀ name : String, Wordly name.toList → ∀ spelled ∈ spellings name,
      folded spelled = folded name) ∧
    ∀ mode text s, Schema.ofText mode text = .ok s →
      (∀ entries ∈ [Go.claimOrder s, JavaScript.claimOrder s], ∀ a ∈ entries, ∀ b ∈ entries,
        a.Clashes b → ∀ name name', s.Declares a.owner name → s.Declares b.owner name' →
          folded name = folded name') ∧
      (∀ e first second identifier, e.cause = .nameCollision first second identifier →
        (∃ package, Go.generate package s = .error e) ∨
          (∃ bigint, JavaScript.generate bigint s = .error e) →
        ∀ name name', s.Declares first name → s.Declares second name' →
          folded name = folded name') ∧
      ∀ m ∈ s.messages, ∀ f g, [f, g].Sublist m.fields → Go.fieldName f = Go.fieldName g →
        JavaScript.property f = JavaScript.property g ∧
        (∀ package files, Go.generate package s ≠ .ok files) ∧
        ∀ bigint files, JavaScript.generate bigint s ≠ .ok files := by
  refine ⟨fun name hname => folded_spelling hname, fun mode text s h => ?_⟩
  have hs := Schema.ofText_worded h
  have hgo := Go.spells_of_mem_claimOrder hs
  have hjs := JavaScript.spells_of_mem_claimOrder hs
  refine ⟨?_, ?_, ?_⟩
  · refine List.forall_mem_cons.mpr ⟨?_, List.forall_mem_singleton.mpr ?_⟩
    · exact fun a ha b hb hclash _ _ => folded_eq_of_clashes hs hgo ha hb hclash
    · exact fun a ha b hb hclash _ _ => folded_eq_of_clashes hs hjs ha hb hclash
  · -- a reported collision is a clash of two entries
    rintro e first second identifier hcause (⟨package, hgen⟩ | ⟨bigint, hgen⟩) name name'
    · exact folded_eq_of_firstClash hs hgo (Go.firstClash_of_generate hgen hcause)
    · exact folded_eq_of_firstClash hs hjs (JavaScript.firstClash_of_generate hgen hcause)
  · intro m hm f g hfields heq
    have hproperty : JavaScript.property f = JavaScript.property g := camel_eq_of_pascal_eq heq
    refine ⟨hproperty, fun package files hgen => ?_, fun bigint files hgen => ?_⟩
    · have hnames := Go.exists_generate_iff.mp ⟨files, hgen⟩
      exact not_nodup_map_of_sublist hfields heq (hnames.fields m hm).distinct
    · have hnames := (JavaScript.exists_generate_iff h).mp ⟨files, hgen⟩
      exact not_nodup_map_of_sublist hfields hproperty (hnames.properties m hm).distinct

/-- Two fields that differ in case and underscores only. -/
theorem Naming.spellings_only_recase_fields :
    folded (snake "_HTTPServer2") = folded "_HTTPServer2" ∧
    ∃ s, Schema.ofText .collect "message M \x7b a_b: int32 = 1; aB: int32 = 2; \x7d" = .ok s ∧
    ∃ m ∈ s.messages, ∃ f g, [f, g].Sublist m.fields ∧ f.name = "a_b" ∧ g.name = "aB" ∧
      Go.generate "wire" s = .error ⟨.go, m.fieldDeclared g,
        .nameCollision (m.fieldDeclared f) (m.fieldDeclared g) "AB"⟩ ∧
      folded f.name = folded g.name ∧ JavaScript.property f = JavaScript.property g ∧
      ∀ bigint files, JavaScript.generate bigint s ≠ .ok files := by
  have hrun : ∃ s ∈ (Schema.ofText .collect
      "message M \x7b a_b: int32 = 1; aB: int32 = 2; \x7d").toOption, ∃ m ∈ s.messages,
      ∃ f ∈ m.fields, ∃ g ∈ m.fields, m.fields = [f, g] ∧ f.name = "a_b" ∧ g.name = "aB" ∧
      Go.fieldName f = Go.fieldName g ∧ Go.generate "wire" s = .error ⟨.go, m.fieldDeclared g,
        .nameCollision (m.fieldDeclared f) (m.fieldDeclared g) "AB"⟩ := by decide +kernel
  obtain ⟨s, hs, m, hm, f, hf, g, hg, hfields, hname, hname', heq, hgo⟩ := hrun
  have hs := eq_ok_of_mem_toOption hs
  have hword : Wordly "_HTTPServer2".toList := wordly_of_isWord (by decide +kernel)
  have hsublist : [f, g].Sublist m.fields := hfields ▸ List.Sublist.refl _
  obtain ⟨-, hreported, hclash⟩ := spellings_only_recase.2 _ _ s hs
  obtain ⟨hproperty, -, hjs⟩ := hclash m hm f g hsublist heq
  exact ⟨spellings_only_recase.1 _ hword _ (by simp [spellings]), s, hs, m, hm, f, g,
    hsublist, hname,
    hname', hgo, hreported _ _ _ _ rfl (.inl ⟨_, hgo⟩) _ _ (.field hm hf) (.field hm hg), hproperty,
    hjs⟩

end WireSchema
