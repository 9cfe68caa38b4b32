import Mathlib.Data.List.Basic
import WireSchema.Proofs.PathSteps
import WireSchema.Target.GeneratedFile
import WireSchema.Text.Quoted
import WireSchema.Text.Word

/-!
# Forms of source code

Generated source is read back by comparing it with forms: blocks of lines in which some words are
left open. Blanks do not matter, so lines are first cut into atoms, which are words and single
signs; the end of a line is a sign too. A form is given a meaning for each choice of its open words.

Two forms clash if at some place no atom suits both. The main result is `read?_of_renders`: if the
forms of a list clash with each other, lines that are put together from them are read as exactly the
meanings of their blocks, whatever the open words are. `infix_linesOf` finds the lines again in the
file that they are written to.
-/

namespace WireSchema.Source

open Text

/-! ## Atoms -/

/-- The smallest parts of source code. -/
inductive Atom where
  /-- a run of letters, digits and underscores -/
  | word (text : String)
  /-- any other character but a blank -/
  | sign (c : Char)
  deriving DecidableEq, Repr

/-- Is the text a single word? Unlike an identifier it may start with a digit. -/
def isName (text : String) : Bool :=
  !text.toList.isEmpty && text.toList.all isWordRest

/-- Puts a word, unless it is empty, before the atoms that follow it. -/
def join : List Char × List Atom → List Atom
  | ([], atoms) => atoms
  | (c :: word, atoms) => .word (String.ofList (c :: word)) :: atoms

/-- Puts a character before a word and the atoms that follow it. -/
def push (c : Char) : List Char × List Atom → List Char × List Atom
  | (word, atoms) =>
    if isWordRest c then (c :: word, atoms)
    else if c = ' ' || c = '\t' then ([], join (word, atoms))
    else ([], .sign c :: join (word, atoms))

/-- The word that characters start with, which may be empty, and the atoms after it. -/
def scan : List Char → List Char × List Atom
  | [] => ([], [])
  | c :: cs => push c (scan cs)

/-- The atoms of a text. -/
def atoms (text : String) : List Atom :=
  join (scan text.toList)

/-- The end of a line. -/
def lineEnd : Atom :=
  .sign '\n'

/-- The atoms of a line with its end. -/
def lineAtoms (line : String) : List Atom :=
  atoms line ++ [lineEnd]

/-- Do the characters start inside a word? -/
def startsInWord (cs : List Char) : Bool :=
  cs.head?.any isWordRest

/-- Do the characters end inside a word? -/
def endsInWord (cs : List Char) : Bool :=
  cs.getLast?.any isWordRest

/-- Scanning goes from right to left. -/
theorem scan_cons (c : Char) (cs : List Char) : scan (c :: cs) = push c (scan cs) :=
  rfl

/-- A character of a word is added to the word that is open. -/
theorem push_of_word {c : Char} (hc : isWordRest c = true) (p : List Char × List Atom) :
    push c p = (c :: p.1, p.2) := by
  obtain ⟨word, atoms⟩ := p
  exact if_pos hc

/-- A sign ends the word before it, whatever follows. -/
theorem push_of_sign {c : Char} (hc : isWordRest c = false) (p : List Char × List Atom) :
    push c p = ([], (push c ([], [])).2 ++ join p) := by
  obtain ⟨word, atoms⟩ := p
  simp only [push, hc, Bool.false_eq_true, if_false]
  split <;> rfl

/-- No word is open in front of characters that do not start one. -/
theorem scan_fst {cs : List Char} (h : startsInWord cs = false) : (scan cs).1 = [] := by
  cases cs with
  | nil => rfl
  | cons c cs =>
    rw [scan_cons, push_of_sign h]

/-- Closing the open word does not reach the atoms behind it. -/
theorem join_append (word : List Char) (xs ys : List Atom) :
    join (word, xs ++ ys) = join (word, xs) ++ ys := by
  cases word <;> rfl

/-- Characters can be cut where no word is cut. -/
theorem scan_append {a b : List Char} (ha : a ≠ [])
    (h : endsInWord a = false ∨ startsInWord b = false) :
    scan (a ++ b) = ((scan a).1, (scan a).2 ++ join (scan b)) := by
  induction a with
  | nil => exact absurd rfl ha
  | cons c a ih =>
    cases a with
    | nil =>
      rw [List.singleton_append, scan_cons, scan_cons, scan]
      cases hc : isWordRest c with
      | false => rw [push_of_sign hc (scan b), push_of_sign hc ([], []), join, List.append_nil]
      | true =>
        have hb : startsInWord b = false := h.resolve_left (by simp [endsInWord, hc])
        have hscan : scan b = ([], (scan b).2) := Prod.ext (scan_fst hb) rfl
        rw [push_of_word hc, push_of_word hc, hscan]
        rfl
    | cons d a =>
      have ih := ih (List.cons_ne_nil d a) (by simpa [endsInWord] using h)
      rw [List.cons_append, scan_cons, ih, scan_cons c (d :: a)]
      cases hc : isWordRest c with
      | false =>
        rw [push_of_sign hc, push_of_sign hc (scan (d :: a)), join_append, List.append_assoc]
      | true => rw [push_of_word hc, push_of_word hc]

/-- **Texts can be cut into atoms one by one** if no word goes across the border. -/
theorem atoms_append {a b : String}
    (h : endsInWord a.toList = false ∨ startsInWord b.toList = false) :
    atoms (a ++ b) = atoms a ++ atoms b := by
  rw [atoms, String.toList_append]
  cases ha : a.toList with
  | nil =>
    rw [String.toList_eq_nil_iff.mp ha]
    rfl
  | cons c cs =>
    rw [ha] at h
    rw [scan_append (List.cons_ne_nil c cs) h, join_append, atoms, ha, atoms]

/-- A name is one open word. -/
theorem scan_name {cs : List Char} (h : ∀ c ∈ cs, isWordRest c = true) : scan cs = (cs, []) := by
  induction cs with
  | nil => rfl
  | cons c cs ih =>
    obtain ⟨hc, hcs⟩ := List.forall_mem_cons.mp h
    rw [scan_cons, ih hcs, push_of_word hc]

/-- A name has characters, and all of them belong to words. -/
theorem isName_iff {w : String} :
    isName w = true ↔ w.toList ≠ [] ∧ ∀ c ∈ w.toList, isWordRest c = true := by
  rw [isName, Bool.and_eq_true, List.all_eq_true, Bool.not_eq_true', List.isEmpty_eq_false_iff]

theorem newline_notMem_name {w : String} (h : isName w = true) : '\n' ∉ w.toList :=
  fun hmem => absurd ((isName_iff.mp h).2 _ hmem) (by decide)

/-- A name is one atom. -/
theorem atoms_name {w : String} (h : isName w = true) : atoms w = [.word w] := by
  obtain ⟨hne, hw⟩ := isName_iff.mp h
  rw [atoms, scan_name hw]
  cases hcs : w.toList with
  | nil => exact absurd hcs hne
  | cons c cs => rw [join, ← hcs, String.ofList_toList]

/-! ## Lines with open words -/

/-- A part of a line. -/
inductive Part where
  /-- the same in every line of the form -/
  | text (literal : String)
  /-- an open word -/
  | word
  deriving DecidableEq, Repr

instance : Coe String Part :=
  ⟨.text⟩

/-- `SpellsLine parts words line` says that `line` is made of the parts, with `words` in its open
places. -/
inductive SpellsLine : List Part → List String → String → Prop
  | nil : SpellsLine [] [] ""
  | text (literal : String) {parts words line} :
    SpellsLine parts words line → SpellsLine (.text literal :: parts) words (literal ++ line)
  | word {w parts words line} :
    isName w = true → SpellsLine parts words line →
      SpellsLine (.word :: parts) (w :: words) (w ++ line)

namespace SpellsLine

/-- Lines that are spelled by parts can be put behind each other. -/
theorem append {parts parts' : List Part} {words words' : List String} {line line' : String}
    (h : SpellsLine parts words line) (h' : SpellsLine parts' words' line') :
    SpellsLine (parts ++ parts') (words ++ words') (line ++ line') := by
  induction h with
  | nil => rwa [String.empty_append]
  | text literal _ ih =>
    rw [String.append_assoc]
    exact .text literal ih
  | word hw _ ih =>
    rw [String.append_assoc]
    exact .word hw ih

/-- A fixed text spells itself. -/
theorem literal (text : String) : SpellsLine [.text text] [] text := by
  simpa using SpellsLine.text text .nil

/-- A name fills a gap. -/
theorem name {w : String} (hw : isName w = true) : SpellsLine [.word] [w] w := by
  simpa using SpellsLine.word hw .nil

/-- A fixed text may follow. -/
theorem before (text : String) {parts : List Part} {words : List String} {line : String}
    (h : SpellsLine parts words line) :
    SpellsLine (parts ++ [.text text]) words (line ++ text) := by
  simpa using h.append (.literal text)

end SpellsLine

/-- `Spells block words lines` says that the lines are those of the block, with `words` in their
open places. -/
inductive Spells : List (List Part) → List String → List String → Prop
  | nil : Spells [] [] []
  | cons {parts ws line block words lines} :
    SpellsLine parts ws line → Spells block words lines →
      Spells (parts :: block) (ws ++ words) (line :: lines)

namespace Spells

/-- Blocks can be put behind each other. -/
theorem append {block block' : List (List Part)} {words words' lines lines' : List String}
    (h : Spells block words lines) (h' : Spells block' words' lines') :
    Spells (block ++ block') (words ++ words') (lines ++ lines') := by
  induction h with
  | nil => exact h'
  | cons hline _ ih =>
    rw [List.append_assoc]
    exact .cons hline ih

/-- Indenting a block is putting a text in front of every line. -/
theorem indent (blank : String) {block : List (List Part)} {words lines : List String}
    (h : Spells block words lines) :
    Spells (block.map (.text blank :: ·)) words (lines.map (blank ++ ·)) := by
  induction h with
  | nil => exact .nil
  | cons hline _ ih => exact .cons (.text blank hline) ih

end Spells

/-- What must stand at each place of a line: an atom, or any word. -/
def slots (parts : List Part) : List (Option Atom) :=
  parts.flatMap fun
    | .text literal => (atoms literal).map some
    | .word => [none]

/-- The same with the end of the line. -/
def lineSlots (parts : List Part) : List (Option Atom) :=
  slots parts ++ [some lineEnd]

namespace Part

def startsInWord : Part → Bool
  | .text literal => Source.startsInWord literal.toList
  | .word => true

def endsInWord : Part → Bool
  | .text literal => Source.endsInWord literal.toList
  | .word => true

/-- Is the part within one line, and there whatever word is put in? -/
def isSolid : Part → Bool
  | .text literal => !literal.toList.isEmpty && !literal.toList.contains '\n'
  | .word => true

end Part

/-- Are words of the line apart from each other and from its open words? -/
def isParted : List Part → Bool
  | [] => true
  | part :: parts =>
    part.isSolid && !(part.endsInWord && parts.head?.any Part.startsInWord) && isParted parts

/-- `Fits slots words text` says that `text` is what the slots ask for, with `words` where any word
may stand. -/
inductive Fits : List (Option Atom) → List String → List Atom → Prop
  | nil : Fits [] [] []
  | atom {a slots words text} : Fits slots words text → Fits (some a :: slots) words (a :: text)
  | word {w slots words text} :
    Fits slots words text → Fits (none :: slots) (w :: words) (.word w :: text)

/-- What fits one list of slots and what fits another fit both together. -/
theorem Fits.append {slots slots' : List (Option Atom)} {words words' : List String}
    {text text' : List Atom} (h : Fits slots words text) (h' : Fits slots' words' text') :
    Fits (slots ++ slots') (words ++ words') (text ++ text') := by
  induction h with
  | nil => exact h'
  | atom _ ih => exact .atom ih
  | word _ ih => exact .word ih

theorem Fits.ne_nil {slots : List (Option Atom)} {words : List String} {text : List Atom}
    (h : Fits slots words text) (hslots : slots ≠ []) : text ≠ [] := by
  cases h with
  | nil => exact absurd rfl hslots
  | atom _ => exact List.cons_ne_nil _ _
  | word _ => exact List.cons_ne_nil _ _

/-- Fixed atoms fit themselves. -/
theorem fits_atoms (text : List Atom) : Fits (text.map some) [] text := by
  induction text with
  | nil => exact .nil
  | cons a text ih => exact .atom ih

theorem startsInWord_append {a : List Char} (ha : a ≠ []) (b : List Char) :
    startsInWord (a ++ b) = startsInWord a := by
  cases a with
  | nil => exact absurd rfl ha
  | cons c a => rfl

/-- Parts are set apart if no word goes from one part to the next. -/
theorem isParted_cons {part : Part} {parts : List Part} :
    isParted (part :: parts) = true ↔ part.isSolid = true ∧
      (part.endsInWord = false ∨ parts.head?.any Part.startsInWord = false) ∧
      isParted parts = true := by
  simp [isParted, and_assoc]

theorem isSolid_text {literal : String} :
    (Part.text literal).isSolid = true ↔ literal.toList ≠ [] ∧ '\n' ∉ literal.toList := by
  simp [Part.isSolid]

/-- A line starts inside a word only if its first part does. -/
theorem SpellsLine.startsInWord {parts : List Part} {words : List String} {line : String}
    (h : SpellsLine parts words line) (hparted : isParted parts = true)
    (hstart : parts.head?.any Part.startsInWord = false) :
    Source.startsInWord line.toList = false := by
  cases h with
  | nil => rfl
  | text literal _ =>
    have hne := (isSolid_text.mp (isParted_cons.mp hparted).1).1
    rw [String.toList_append, startsInWord_append hne]
    exact hstart
  | word => exact absurd hstart (by simp [Part.startsInWord])

/-- The atoms of a line are what its slots ask for. -/
theorem SpellsLine.fits {parts : List Part} {words : List String} {line : String}
    (h : SpellsLine parts words line) (hparted : isParted parts = true) :
    Fits (slots parts) words (atoms line) := by
  induction h with
  | nil => exact .nil
  | text literal hrest ih =>
    obtain ⟨-, hcut, hparts⟩ := isParted_cons.mp hparted
    rw [atoms_append (hcut.imp_right (hrest.startsInWord hparts))]
    exact (fits_atoms _).append (ih hparts)
  | word hw hrest ih =>
    obtain ⟨-, hcut, hparts⟩ := isParted_cons.mp hparted
    have hcut := hcut.resolve_left (by simp [Part.endsInWord])
    rw [atoms_append (.inr (hrest.startsInWord hparts hcut)), atoms_name hw]
    exact .word (ih hparts)

/-- The atoms of a block are what its slots ask for. -/
theorem Spells.fits {block : List (List Part)} {words lines : List String}
    (h : Spells block words lines) (hparted : ∀ parts ∈ block, isParted parts = true) :
    Fits (block.flatMap lineSlots) words (lines.flatMap lineAtoms) := by
  induction h with
  | nil => exact .nil
  | cons hline _ ih =>
    obtain ⟨hparts, hblock⟩ := List.forall_mem_cons.mp hparted
    have hend := (hline.fits hparts).append (fits_atoms [lineEnd])
    rw [List.append_nil] at hend
    exact hend.append (ih hblock)

/-- No line has a line break in it. -/
def Unbroken (lines : List String) : Prop :=
  ∀ line ∈ lines, '\n' ∉ line.toList

instance (lines : List String) : Decidable (Unbroken lines) :=
  inferInstanceAs (Decidable (∀ line ∈ lines, _))

/-- No line of two lists has a line break if none of either list has. -/
theorem unbroken_append {lines lines' : List String} :
    Unbroken (lines ++ lines') ↔ Unbroken lines ∧ Unbroken lines' :=
  List.forall_mem_append

theorem unbroken_cons {line : String} {lines : List String} :
    Unbroken (line :: lines) ↔ '\n' ∉ line.toList ∧ Unbroken lines :=
  List.forall_mem_cons

/-- Nothing in a line breaks it. -/
theorem SpellsLine.newline_notMem {parts : List Part} {words : List String} {line : String}
    (h : SpellsLine parts words line) (hparted : isParted parts = true) :
    '\n' ∉ line.toList := by
  induction h with
  | nil => simp
  | text literal _ ih =>
    obtain ⟨hsolid, -, hparts⟩ := isParted_cons.mp hparted
    rw [String.toList_append, List.mem_append, not_or]
    exact ⟨(isSolid_text.mp hsolid).2, ih hparts⟩
  | word hw _ ih =>
    rw [String.toList_append, List.mem_append, not_or]
    exact ⟨newline_notMem_name hw, ih (isParted_cons.mp hparted).2.2⟩

/-- Lines that are spelled by parts have no line break. -/
theorem Spells.unbroken {block : List (List Part)} {words lines : List String}
    (h : Spells block words lines) (hparted : ∀ parts ∈ block, isParted parts = true) :
    Unbroken lines := by
  induction h with
  | nil => exact nofun
  | cons hline _ ih =>
    obtain ⟨hparts, hblock⟩ := List.forall_mem_cons.mp hparted
    exact List.forall_mem_cons.mpr ⟨hline.newline_notMem hparts, ih hblock⟩

/-! ## Finding forms in a text -/

/-- The words in the open places of slots that a text starts with, and the rest of the text. -/
def capture : List (Option Atom) → List Atom → Option (List String × List Atom)
  | [], text => some ([], text)
  | some a :: slots, b :: text => if a = b then capture slots text else none
  | none :: slots, .word w :: text =>
    (capture slots text).map fun (words, rest) => (w :: words, rest)
  | none :: _, .sign _ :: _ => none
  | _ :: _, [] => none

/-- Is there no atom that suits both places? -/
def areApart : Option Atom → Option Atom → Bool
  | some a, some b => a != b
  | some (.sign _), none => true
  | none, some (.sign _) => true
  | _, _ => false

/-- Is there no text that starts with both? -/
def clash : List (Option Atom) → List (Option Atom) → Bool
  | a :: slots, b :: slots' => areApart a b || clash slots slots'
  | _, _ => false

/-- **What fits slots is captured**, whatever follows. -/
theorem capture_of_fits {slots : List (Option Atom)} {words : List String} {text : List Atom}
    (h : Fits slots words text) (rest : List Atom) :
    capture slots (text ++ rest) = some (words, rest) := by
  induction h with
  | nil => rfl
  | atom _ ih => rw [List.cons_append, capture, if_pos rfl, ih]
  | word _ ih => rw [List.cons_append, capture, ih, Option.map_some]

/-- Slots find nothing in a text that fits slots they clash with. -/
theorem capture_of_clash {slots slots' : List (Option Atom)} {words : List String}
    {text : List Atom} (hclash : clash slots slots' = true) (h : Fits slots' words text)
    (rest : List Atom) : capture slots (text ++ rest) = none := by
  induction h generalizing slots with
  | nil => cases slots <;> simp [clash] at hclash
  | @atom b slots' words text _ ih =>
    cases slots with
    | nil => simp [clash] at hclash
    | cons slot slots =>
      rw [clash, Bool.or_eq_true] at hclash
      cases slot with
      | some a =>
        rw [List.cons_append, capture]
        by_cases hab : a = b
        · rw [if_pos hab]
          exact ih (hclash.resolve_left (by simp [areApart, hab]))
        · exact if_neg hab
      | none =>
        cases b with
        | sign c => rfl
        | word w =>
          rw [List.cons_append, capture, ih (hclash.resolve_left (by simp [areApart]))]
          rfl
  | @word w slots' words text _ ih =>
    cases slots with
    | nil => simp [clash] at hclash
    | cons slot slots =>
      rw [clash, Bool.or_eq_true] at hclash
      cases slot with
      | none =>
        rw [List.cons_append, capture, ih (hclash.resolve_left (by simp [areApart]))]
        rfl
      | some a =>
        rw [List.cons_append, capture]
        by_cases ha : a = .word w
        · rw [if_pos ha]
          exact ih (hclash.resolve_left (by simp [areApart, ha]))
        · exact if_neg ha

/-! ## Forms -/

/-- A block of lines with open words, and what it stands for once they are put in. -/
structure Form (α : Type) where
  lines : List (List Part)
  meaning : List String → Option α

namespace Form

variable {α : Type}

/-- What must stand at each place of the block. -/
def slots (f : Form α) : List (Option Atom) :=
  f.lines.flatMap lineSlots

/-- The meaning of the block that a text starts with, and the rest of the text. -/
def front? (f : Form α) (text : List Atom) : Option (α × List Atom) := do
  let (words, rest) ← capture f.slots text
  let a ← f.meaning words
  return (a, rest)

/-- `f.Renders lines a` says that the lines are the block with words in its open places that make
it stand for `a`. -/
def Renders (f : Form α) (lines : List String) (a : α) : Prop :=
  ∃ words, Spells f.lines words lines ∧ f.meaning words = some a

/-- Lines are the block of a form if the form is found at a place of a list. -/
theorem exists_renders {forms : List (Form α)} {f : Form α} {words lines : List String} {a : α}
    (i : Nat) (hf : forms[i]? = some f) (hlines : Spells f.lines words lines)
    (hmeaning : f.meaning words = some a) : ∃ f ∈ forms, f.Renders lines a :=
  ⟨f, List.mem_of_getElem? hf, words, hlines, hmeaning⟩

/-- Can the blocks of the forms be told apart? -/
def Distinct (forms : List (Form α)) : Prop :=
  (∀ f ∈ forms, f.slots ≠ [] ∧ ∀ line ∈ f.lines, isParted line = true) ∧
    forms.Pairwise fun f g => clash f.slots g.slots = true

instance (forms : List (Form α)) : Decidable (Distinct forms) :=
  inferInstanceAs (Decidable (_ ∧ _))

variable {forms : List (Form α)} {lines : List String} {a : α}

/-- A form is found at the front of what it renders. -/
theorem front?_of_renders {f : Form α} (hparted : ∀ line ∈ f.lines, isParted line = true)
    (h : f.Renders lines a) (rest : List Atom) :
    f.front? (lines.flatMap lineAtoms ++ rest) = some (a, rest) := by
  obtain ⟨words, hlines, hmeaning⟩ := h
  rw [front?, slots, capture_of_fits (hlines.fits hparted)]
  simp [hmeaning]

/-- The first form that finds something in a block is the block's own. -/
theorem findSome?_front?_of_renders (hforms : Distinct forms) {f : Form α} (hf : f ∈ forms)
    (h : f.Renders lines a) (rest : List Atom) :
    forms.findSome? (front? · (lines.flatMap lineAtoms ++ rest)) = some (a, rest) := by
  obtain ⟨before, after, rfl⟩ := List.append_of_mem hf
  obtain ⟨words, hlines, -⟩ := id h
  have hparted := (hforms.1 f hf).2
  refine List.findSome?_eq_some_iff.mpr
    ⟨before, f, after, rfl, front?_of_renders hparted h rest, fun g hg => ?_⟩
  have hclash : clash g.slots f.slots = true :=
    (List.pairwise_append.mp hforms.2).2.2 g hg f List.mem_cons_self
  rw [front?, capture_of_clash hclash (hlines.fits hparted)]
  rfl

end Form

/-! ## Reading texts -/

section

variable {α : Type}

/-- The meanings of the blocks that a text is put together from. -/
def readAtoms (forms : List (Form α)) (text : List Atom) : Option (List α) :=
  if text.isEmpty then some []
  else
    match forms.findSome? (·.front? text) with
    | none => none
    | some (a, rest) =>
      if rest.length < text.length then (readAtoms forms rest).map (a :: ·) else none
termination_by text.length

/-- The meanings of the blocks that lines are put together from. -/
def read? (forms : List (Form α)) (lines : List String) : Option (List α) :=
  readAtoms forms (lines.flatMap lineAtoms)

/-- Reading goes on behind the form at the front. -/
theorem readAtoms_of_front {forms : List (Form α)} {text rest : List Atom} {a : α}
    (h : forms.findSome? (·.front? text) = some (a, rest)) (hrest : rest.length < text.length) :
    readAtoms forms text = (readAtoms forms rest).map (a :: ·) := by
  have hne : text.isEmpty = false := by
    cases text with
    | nil => exact absurd hrest (Nat.not_lt_zero _)
    | cons b text => rfl
  rw [readAtoms, hne, h]
  simp [hrest]

/-- **What is put together from distinct forms is read back.** -/
theorem read?_of_renders {β : Type} {forms : List (Form α)} (hforms : Form.Distinct forms)
    {items : List β} {block : β → List String} {value : β → α}
    (h : ∀ i ∈ items, ∃ f ∈ forms, f.Renders (block i) (value i)) :
    read? forms (items.flatMap block) = some (items.map value) := by
  induction items with
  | nil =>
    rw [read?, List.flatMap_nil, List.flatMap_nil, readAtoms]
    rfl
  | cons i items ih =>
    obtain ⟨⟨f, hf, hi⟩, hitems⟩ := List.forall_mem_cons.mp h
    have ih := ih hitems
    rw [read?] at ih ⊢
    rw [List.flatMap_cons, List.flatMap_append, List.map_cons]
    have hfront := Form.findSome?_front?_of_renders hforms hf hi
      ((items.flatMap block).flatMap lineAtoms)
    rw [readAtoms_of_front hfront, ih, Option.map_some]
    -- a block has at least one atom
    obtain ⟨words, hlines, -⟩ := hi
    obtain ⟨hslots, hparted⟩ := hforms.1 f hf
    have hne : (block i).flatMap lineAtoms ≠ [] := (hlines.fits hparted).ne_nil hslots
    rw [List.length_append]
    exact Nat.lt_add_of_pos_left (List.length_pos_iff.mpr hne)

/-- Nothing in such lines breaks them. -/
theorem unbroken_of_renders {β : Type} {forms : List (Form α)} (hforms : Form.Distinct forms)
    {items : List β} {block : β → List String} {value : β → α}
    (h : ∀ i ∈ items, ∃ f ∈ forms, f.Renders (block i) (value i)) :
    Unbroken (items.flatMap block) := by
  intro line hline
  obtain ⟨i, hi, hline⟩ := List.mem_flatMap.mp hline
  obtain ⟨f, hf, words, hlines, -⟩ := h i hi
  exact hlines.unbroken (hforms.1 f hf).2 line hline

/-- Lines are read the same wherever they are indented to. -/
theorem read?_indented (forms : List (Form α)) {indent : String}
    (hcut : endsInWord indent.toList = false) (hblank : atoms indent = []) (lines : List String) :
    read? forms (lines.map (indent ++ ·)) = read? forms lines := by
  have hline : ∀ line, lineAtoms (indent ++ line) = lineAtoms line := by
    intro line
    rw [lineAtoms, atoms_append (.inl hcut), hblank, List.nil_append, lineAtoms]
  rw [read?, read?, List.flatMap_map]
  simp only [hline]

end

theorem unbroken_indented (indent : String) (hindent : '\n' ∉ indent.toList)
    {lines : List String} (h : Unbroken lines) : Unbroken (lines.map (indent ++ ·)) := by
  intro line hline
  obtain ⟨line, hmem, rfl⟩ := List.mem_map.mp hline
  rw [String.toList_append, List.mem_append, not_or]
  exact ⟨hindent, h line hmem⟩

/-! ## Lines of a file -/

/-- The lines of a text. -/
def linesOf (text : String) : List String :=
  (pieces '\n' text.toList).map String.ofList

theorem newline_notMem_quote (text : String) : '\n' ∉ (quote text).toList := by
  have hdigit : ∀ n < 16, '\n' ≠ Nat.digitChar n := by decide
  have hescape : ∀ c, '\n' ∉ escape c := by
    intro c
    by_cases hc : c = '\n'
    · rw [hc]
      decide
    · have hlow : c.toNat < 32 → '\n' ≠ Nat.digitChar (c.toNat / 16) :=
        fun h => hdigit _ (by omega)
      have hhigh := hdigit (c.toNat % 16) (by omega)
      unfold escape
      split_ifs <;> simp_all [Ne.symm hc]
  rw [toList_quote, quoteChars]
  simp [hescape]

/-- Lines that are joined are cut where they were joined. -/
theorem linesOf_intercalate {lines : List String} (hne : lines ≠ []) :
    linesOf ("\n".intercalate lines) = lines.flatMap linesOf := by
  induction lines with
  | nil => exact absurd rfl hne
  | cons line lines ih =>
    cases lines with
    | nil => simp [linesOf]
    | cons next lines =>
      have ih := ih (List.cons_ne_nil next lines)
      have hbreak : ("\n".intercalate (line :: next :: lines)).toList =
          line.toList ++ '\n' :: ("\n".intercalate (next :: lines)).toList := by
        simp [String.toList_intercalate]
      rw [linesOf, hbreak, pieces_append_cons, List.map_append, List.flatMap_cons, ← ih]
      rfl

/-- A line without a line break is one line. -/
theorem linesOf_of_notMem {line : String} (h : '\n' ∉ line.toList) : linesOf line = [line] := by
  rw [linesOf, pieces_of_notMem h, List.map_singleton, String.ofList_toList]

/-- Lines that stand together stand together in the file, if nothing breaks them. -/
theorem infix_linesOf {block lines : List String} (hblock : Unbroken block)
    (hne : lines ≠ []) (h : block <:+: lines) (path : String) :
    block <:+: linesOf (GeneratedFile.ofLines path lines).contents := by
  obtain ⟨before, after, rfl⟩ := h
  rw [GeneratedFile.ofLines, linesOf_intercalate hne, List.flatMap_append, List.flatMap_append]
  have hsame : block.flatMap linesOf = block.flatMap fun line => [line] :=
    List.flatMap_congr fun line hline => linesOf_of_notMem (hblock line hline)
  rw [hsame, List.flatMap_singleton']
  exact List.infix_append _ _ _

/-- The lines of a file are the lines that it is written from, if nothing breaks them. -/
theorem linesOf_ofLines {lines : List String} (hne : lines ≠ []) (h : Unbroken lines)
    (path : String) : linesOf (GeneratedFile.ofLines path lines).contents = lines := by
  have hsame : lines.flatMap linesOf = lines.flatMap fun line => [line] :=
    List.flatMap_congr fun line hline => linesOf_of_notMem (h line hline)
  rw [GeneratedFile.ofLines, linesOf_intercalate hne, hsame, List.flatMap_singleton']

end WireSchema.Source
