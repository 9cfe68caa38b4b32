import WireSchema.Proofs.SourceForms

/-!
# Names in source code

`references?` reads a line of generated source and gives the words in it that name something. Words
in comments and in literals name nothing, and neither does a number, a word that is selected with a
dot or the key that starts a line. A line that leaves a literal open, or that has a part the reader
does not know, has no answer. The reader follows the words and signs of a line from place to place,
and is the same for both languages.

A line with open places is checked once and for all: `check` follows its pieces, and `Fills.reads`
says that whatever is filled in, only names are there that stand in its fixed pieces or come with
the fillings.
-/

namespace WireSchema.Source

open Text

/-! ## Marks -/

/-- An atom, with the characters of its word. -/
inductive Mark where
  | word (cs : List Char)
  | sign (c : Char)
  deriving DecidableEq, Repr

namespace Mark

def atom : Mark → Atom
  | .word cs => .word (String.ofList cs)
  | .sign c => .sign c

theorem atom_injective : Function.Injective atom := by
  intro a b h
  cases a with
  | word cs =>
    cases b with
    | word ds =>
      rw [atom, atom, Atom.word.injEq, String.ofList_inj] at h
      rw [h]
    | sign d => cases h
  | sign c =>
    cases b with
    | word ds => cases h
    | sign d =>
      cases h
      rfl

/-- Puts a word, unless it is empty, before the marks that follow it. -/
def join : List Char × List Mark → List Mark
  | ([], marks) => marks
  | (c :: cs, marks) => .word (c :: cs) :: marks

/-- Puts a character before a word and the marks that follow it. -/
def push (c : Char) : List Char × List Mark → List Char × List Mark
  | (cs, marks) =>
    if isWordRest c then (c :: cs, marks)
    else if c = ' ' || c = '\t' then ([], join (cs, marks))
    else ([], .sign c :: join (cs, marks))

/-- The word that characters start with, which may be empty, and the marks after it. -/
def scan : List Char → List Char × List Mark
  | [] => ([], [])
  | c :: cs => push c (scan cs)

/-- A character of a word is added to the word that is open. -/
theorem push_of_word {c : Char} (hc : isWordRest c = true) (p : List Char × List Mark) :
    push c p = (c :: p.1, p.2) :=
  if_pos hc

end Mark

/-- The marks of a line. -/
def marks (cs : List Char) : List Mark :=
  Mark.join (Mark.scan cs)

theorem Mark.map_join (p : List Char × List Mark) :
    (Mark.join p).map atom = Source.join (p.1, p.2.map atom) := by
  obtain ⟨cs, marks⟩ := p
  cases cs <;> rfl

/-- Marks are atoms that keep their characters apart. -/
theorem Mark.scan_eq (cs : List Char) :
    Source.scan cs = ((Mark.scan cs).1, (Mark.scan cs).2.map atom) := by
  induction cs with
  | nil => rfl
  | cons c cs ih =>
    rw [Source.scan, ih, Mark.scan, Source.push, Mark.push, ← map_join]
    split_ifs <;> rfl

theorem map_atom_marks (text : String) : (marks text.toList).map Mark.atom = atoms text := by
  rw [atoms, Mark.scan_eq, marks, Mark.map_join]

/-- A line can be cut where no word is cut. -/
theorem marks_append {a b : List Char} (h : endsInWord a = false ∨ startsInWord b = false) :
    marks (a ++ b) = marks a ++ marks b := by
  have hatoms := atoms_append (a := String.ofList a) (b := String.ofList b) (by simpa using h)
  rw [← map_atom_marks, ← map_atom_marks, ← map_atom_marks, String.toList_append,
    String.toList_ofList, String.toList_ofList, ← List.map_append] at hatoms
  exact List.map_injective_iff.mpr Mark.atom_injective hatoms

/-- A name is one mark. -/
theorem marks_name {w : String} (h : isName w = true) : marks w.toList = [.word w.toList] := by
  apply List.map_injective_iff.mpr Mark.atom_injective
  rw [map_atom_marks, atoms_name h, List.map_singleton, Mark.atom, String.ofList_toList]

/-! ## Places -/

/-- Where in a line of code the reader is. -/
inductive Place where
  | code
  /-- after a dot -/
  | dot
  /-- after more than one dot -/
  | dots
  /-- after a slash -/
  | slash
  | comment
  | quoted
  /-- after a backslash in a quoted text -/
  | escaped
  /-- between backticks -/
  | raw
  /-- after a dollar sign between backticks -/
  | dollar
  /-- in the braces after it, where a single word stands -/
  | hole
  /-- nowhere that the reader knows -/
  | lost
  deriving DecidableEq, Repr

namespace Place

/-- Does a word here name something, unless it is a number? -/
def isFree : Place → Bool
  | .code | .dots | .slash | .hole => true
  | _ => false

/-- Can a line end here? -/
def isDone : Place → Bool
  | .code | .dot | .slash | .comment => true
  | _ => false

/-- The place after a word. -/
def afterWord : Place → Place
  | .code | .dot | .dots | .slash => .code
  | .comment => .comment
  | .quoted | .escaped => .quoted
  | .raw | .dollar => .raw
  | .hole => .hole
  | .lost => .lost

/-- The place after a sign in code. Single quotes are not used. -/
def codeSign (c : Char) : Place :=
  if c = '.' then .dot
  else if c = '/' then .slash
  else if c = '"' then .quoted
  else if c = '\x60' then .raw
  else if c = '\x27' then .lost
  else .code

/-- The place after a sign between backticks. A backslash there does not mean the same in both
languages. -/
def rawSign (c : Char) : Place :=
  if c = '\x60' then .code
  else if c = '$' then .dollar
  else if c = '\\' then .lost
  else .raw

/-- The place after a sign within a line. -/
def afterSign (c : Char) : Place → Place
  | .code => codeSign c
  | .dot | .dots => if c = '.' then .dots else codeSign c
  | .slash => if c = '/' then .comment else if c = '*' then .lost else codeSign c
  | .comment => .comment
  | .quoted => if c = '"' then .code else if c = '\\' then .escaped else .quoted
  | .escaped => .quoted
  | .raw => rawSign c
  | .dollar => if c = '\x7b' then .hole else rawSign c
  | .hole => if c = '\x7d' then .raw else .lost
  | .lost => .lost

/-- The place after a mark. -/
def after (p : Place) : Mark → Place
  | .word _ => p.afterWord
  | .sign c => if c = '\n' then .lost else p.afterSign c

/-- The place after marks. -/
def through (p : Place) (text : List Mark) : Place :=
  text.foldl after p

end Place

/-! ## References -/

/-- Do the characters start like a name? -/
def isNamelike (cs : List Char) : Bool :=
  cs.head?.any isWordStart

/-- The name that a mark is, if it is one. -/
def namedBy (p : Place) : Mark → List (List Char)
  | .word cs => if p.isFree && isNamelike cs then [cs] else []
  | .sign _ => []

/-- The names among marks. -/
def namesFrom : Place → List Mark → List (List Char)
  | _, [] => []
  | p, m :: text => namedBy p m ++ namesFrom (p.after m) text

/-- The marks of a line without the key or label that it starts with: a word before a colon. -/
def withoutKey : List Mark → List Mark
  | .word cs :: .sign c :: text =>
    if c = ':' && text.head? ≠ some (.sign '=')
      then .sign c :: text else .word cs :: .sign c :: text
  | text => text

/-- The names of a line, if it can be read. -/
def nameChars? (line : List Char) : Option (List (List Char)) :=
  let text := withoutKey (marks line)
  if (Place.code.through text).isDone then some (namesFrom .code text) else none

/-- The words of a line that name something. -/
def references? (line : String) : Option (List String) :=
  (nameChars? line.toList).map (·.map String.ofList)

example : references? "\tm.Items = append(m.Items, val) // New" =
    some ["m", "append", "m", "val"] := by
  decide +kernel

/-- `Refers ok line` says that the line can be read, and that every name in it is `ok`. -/
def Refers (ok : String → Prop) (line : String) : Prop :=
  ∃ names, references? line = some names ∧ ∀ w ∈ names, ok w

/-- What a line refers to, in characters. -/
theorem refers_iff {ok : String → Prop} {line : String} :
    Refers ok line ↔
      ∃ names, nameChars? line.toList = some names ∧ ∀ cs ∈ names, ok (String.ofList cs) := by
  simp [Refers, references?]

/-- The place behind two texts is the place behind the second from where the first leads. -/
theorem through_append (p : Place) (a b : List Mark) :
    p.through (a ++ b) = (p.through a).through b :=
  List.foldl_append

/-- The names in two texts are those of the first, and those of the second from where the first
leads. -/
theorem namesFrom_append (p : Place) (a b : List Mark) :
    namesFrom p (a ++ b) = namesFrom p a ++ namesFrom (p.through a) b := by
  induction a generalizing p with
  | nil => rfl
  | cons m a ih =>
    rw [List.cons_append, namesFrom, namesFrom, ih, List.append_assoc]
    rfl

/-- Leaving a key out leads to the same place. -/
theorem through_withoutKey (text : List Mark) :
    Place.code.through (withoutKey text) = Place.code.through text := by
  unfold withoutKey
  split
  · split <;> rfl
  · rfl

/-- Leaving a key out adds no name. -/
theorem mem_namesFrom_of_withoutKey {text : List Mark} {cs : List Char}
    (h : cs ∈ namesFrom .code (withoutKey text)) : cs ∈ namesFrom .code text := by
  unfold withoutKey at h
  split at h
  · split at h
    · exact List.mem_append_right _ h
    · exact h
  · exact h

/-! ## Line breaks -/

/-- A reader that is lost stays lost. -/
theorem through_lost (text : List Mark) : Place.lost.through text = .lost := by
  induction text with
  | nil => rfl
  | cons m text ih =>
    cases m with
    | word cs => exact ih
    | sign c =>
      rw [Place.through, List.foldl_cons, Place.after]
      split
      · exact ih
      · exact ih

/-- A line break in the middle of a line loses the reader. -/
theorem through_of_newline {text : List Mark} (h : .sign '\n' ∈ text) (p : Place) :
    p.through text = .lost := by
  obtain ⟨before, after, rfl⟩ := List.append_of_mem h
  rw [through_append]
  exact through_lost after

theorem newline_mem_marks {cs : List Char} (h : '\n' ∈ cs) : .sign '\n' ∈ marks cs := by
  obtain ⟨before, after, rfl⟩ := List.append_of_mem h
  rw [← List.singleton_append, marks_append (.inr rfl), marks_append (.inl rfl)]
  exact List.mem_append_right _ (List.mem_append_left _ (by decide))

/-- A line that can be read has no line break. -/
theorem Refers.newline_notMem {ok : String → Prop} {line : String} (h : Refers ok line) :
    '\n' ∉ line.toList := by
  intro hmem
  obtain ⟨names, hnames, -⟩ := refers_iff.mp h
  rw [nameChars?, through_withoutKey, through_of_newline (newline_mem_marks hmem)] at hnames
  cases hnames

/-! ## Reading part of a line -/

/-- `Reads ok p text q` says that the text leads from one place to another, and that every name in
it is `ok`. -/
structure Reads (ok : String → Prop) (p : Place) (text : String) (q : Place) : Prop where
  place : p.through (marks text.toList) = q
  names : ∀ cs ∈ namesFrom p (marks text.toList), ok (String.ofList cs)

section

variable {ok : String → Prop} {p q r : Place} {a b line : String}

/-- **Texts can be read one behind the other** if no word goes across the border. -/
theorem Reads.append (ha : Reads ok p a q) (hb : Reads ok q b r)
    (hcut : endsInWord a.toList = false ∨ startsInWord b.toList = false) :
    Reads ok p (a ++ b) r := by
  refine ⟨?_, ?_⟩
  · rw [String.toList_append, marks_append hcut, through_append, ha.place, hb.place]
  · rw [String.toList_append, marks_append hcut, namesFrom_append, ha.place]
    exact List.forall_mem_append.mpr ⟨ha.names, hb.names⟩

/-- A text that is read to a place where a line may end refers to what was read. -/
theorem Reads.refers (h : Reads ok .code line q) (hq : q.isDone = true) : Refers ok line := by
  refine refers_iff.mpr ⟨namesFrom .code (withoutKey (marks line.toList)), ?_, fun cs hcs => ?_⟩
  · rw [nameChars?, through_withoutKey, h.place, if_pos hq]
  · exact h.names cs (mem_namesFrom_of_withoutKey hcs)

/-- A name in code is read as itself. -/
theorem reads_name {w : String} (hw : isName w = true) (hok : isNamelike w.toList = true → ok w) :
    Reads ok .code w .code := by
  refine ⟨by rw [marks_name hw]; rfl, ?_⟩
  rw [marks_name hw]
  intro cs hcs
  rw [namesFrom, namesFrom, List.append_nil, namedBy] at hcs
  split at hcs
  · rename_i hfree
    rw [List.mem_singleton] at hcs
    rw [hcs, String.ofList_toList]
    exact hok (Bool.and_eq_true_iff.mp hfree).2
  · cases hcs

/-- A word names nothing where words are not free. -/
theorem reads_silent {w : String} (hw : isName w = true) (hp : p.isFree = false) :
    Reads ok p w p.afterWord := by
  refine ⟨by rw [marks_name hw]; rfl, ?_⟩
  rw [marks_name hw, namesFrom, namesFrom, namedBy, hp]
  exact nofun

theorem marks_blanks (n : Nat) : marks (List.replicate n ' ') = [] := by
  have hscan : Mark.scan (List.replicate n ' ') = ([], []) := by
    induction n with
    | zero => rfl
    | succ n ih =>
      rw [List.replicate_succ, Mark.scan, ih]
      rfl
  rw [marks, hscan]
  rfl

/-- Blanks after a text do not matter. -/
theorem Reads.padded (h : Reads ok p a q) (n : Nat) :
    Reads ok p (a ++ String.ofList (List.replicate n ' ')) q := by
  have hblanks : Reads ok q (String.ofList (List.replicate n ' ')) q := by
    refine ⟨?_, ?_⟩
    · rw [String.toList_ofList, marks_blanks]
      rfl
    · rw [String.toList_ofList, marks_blanks]
      exact nofun
  refine h.append hblanks (.inr ?_)
  rw [String.toList_ofList]
  cases n <;> rfl

end

/-! ## Quoted texts -/

/-- From inside a quoted text, what has been scanned leads out of it and names nothing. The word at
its start does not matter. -/
def Quiet (p : List Char × List Mark) : Prop :=
  Place.quoted.through p.2 = .code ∧ namesFrom .quoted p.2 = []

namespace Quiet

variable {p : List Char × List Mark} (h : Quiet p)

include h

/-- A quiet text in quotes leads back to code and names nothing. -/
theorem join :
    Place.quoted.through (Mark.join p) = .code ∧ namesFrom .quoted (Mark.join p) = [] := by
  obtain ⟨cs, text⟩ := p
  cases cs with
  | nil => exact h
  | cons c cs => exact h

/-- Characters of words are quiet in quotes. -/
theorem push_word {c : Char} (hc : isWordRest c = true) : Quiet (Mark.push c p) := by
  rw [Mark.push_of_word hc]
  exact h

/-- So are all but quotes, backslashes and line breaks. -/
theorem push_plain {c : Char} (hquote : c ≠ '"') (hbackslash : c ≠ '\\') (hbreak : c ≠ '\n') :
    Quiet (Mark.push c p) := by
  have hplace : Place.quoted.after (.sign c) = .quoted := by
    rw [Place.after, if_neg hbreak, Place.afterSign, if_neg hquote, if_neg hbackslash]
  obtain ⟨cs, text⟩ := p
  rw [Mark.push]
  split
  · exact h
  · split
    · exact h.join
    · refine ⟨?_, ?_⟩
      · rw [Place.through, List.foldl_cons, hplace]
        exact h.join.1
      · rw [namesFrom, hplace]
        exact h.join.2

/-- What follows a backslash is part of the quoted text, whatever it is. -/
theorem push_escaped {c : Char} (hc : isWordRest c = true ∨ c = '"' ∨ c = '\\') :
    Quiet (Mark.push '\\' (Mark.push c p)) := by
  obtain ⟨cs, text⟩ := p
  rcases hc with hc | rfl | rfl
  · rw [Mark.push_of_word hc]
    exact h
  · exact h.join
  · exact h.join

end Quiet

/-- An escaped character is quiet. -/
theorem quiet_escape {cs : List Char} (h : Quiet (Mark.scan cs)) (c : Char) :
    Quiet (Mark.scan (escape c ++ cs)) := by
  have hdigit : ∀ n < 16, isWordRest (Nat.digitChar n) = true := by decide
  unfold escape
  split_ifs with h1 h2 h3 h4 h5 h6 h7 h8
  · exact h.push_escaped (.inr (.inl rfl))
  · exact h.push_escaped (.inr (.inr rfl))
  · exact h.push_escaped (c := 'b') (.inl (by decide))
  · exact h.push_escaped (c := 'f') (.inl (by decide))
  · exact h.push_escaped (c := 'n') (.inl (by decide))
  · exact h.push_escaped (c := 'r') (.inl (by decide))
  · exact h.push_escaped (c := 't') (.inl (by decide))
  · -- a control character is a code of four digits
    have hlow := h.push_word (hdigit (c.toNat % 16) (by omega))
    have hcode := hlow.push_word (hdigit (c.toNat / 16) (by omega))
    have hzeros := (hcode.push_word (c := '0') (by decide)).push_word (c := '0') (by decide)
    exact hzeros.push_escaped (c := 'u') (.inl (by decide))
  · exact h.push_plain h1 h2 h5

/-- So is an escaped text with the quote behind it. -/
theorem quiet_flatMap_escape (cs : List Char) : Quiet (Mark.scan (cs.flatMap escape ++ ['"'])) := by
  induction cs with
  | nil => exact ⟨rfl, rfl⟩
  | cons c cs ih =>
    rw [List.flatMap_cons, List.append_assoc]
    exact quiet_escape ih c

/-- **A quoted text names nothing.** -/
theorem reads_quote {ok : String → Prop} (text : String) : Reads ok .code (quote text) .code := by
  obtain ⟨hplace, hnames⟩ := (quiet_flatMap_escape text.toList).join
  have hmarks : marks (quote text).toList =
      .sign '"' :: Mark.join (Mark.scan (text.toList.flatMap escape ++ ['"'])) := by
    rw [toList_quote, quoteChars, ← List.singleton_append, marks_append (.inl (by decide))]
    rfl
  refine ⟨by rw [hmarks]; exact hplace, ?_⟩
  have hnone : namesFrom .code (marks (quote text).toList) = [] := by rw [hmarks]; exact hnames
  rw [hnone]
  exact List.forall_mem_nil _

/-! ## Lines with open places -/

/-- A piece of a line. -/
inductive Piece where
  /-- the same in every line -/
  | text (literal : List Char)
  /-- an open place for code -/
  | phrase
  /-- an open place for a word that names nothing -/
  | silent
  deriving DecidableEq, Repr

/-- `Fills ok pieces line` says that the line is made of the pieces, the last of which comes first,
and that every name in what is filled in is `ok`. -/
inductive Fills (ok : String → Prop) : List Piece → String → Prop
  | nil : Fills ok [] ""
  | text {pieces line} (literal : List Char) :
    Fills ok pieces line → Fills ok (.text literal :: pieces) (line ++ String.ofList literal)
  | phrase {pieces line code} :
    Reads ok .code code .code → Fills ok pieces line → Fills ok (.phrase :: pieces) (line ++ code)
  | silent {pieces line w} :
    isName w = true → Fills ok pieces line → Fills ok (.silent :: pieces) (line ++ w)

namespace Fills

variable {ok : String → Prop}

theorem start (literal : List Char) : Fills ok [.text literal] (String.ofList literal) := by
  simpa using Fills.nil.text literal

/-- A phrase of code may start a line. -/
theorem startPhrase {code : String} (h : Reads ok .code code .code) : Fills ok [.phrase] code := by
  simpa using Fills.nil.phrase h

end Fills

/-- `Shaped ok forms lines` says that the lines are made of the pieces of the forms. -/
inductive Shaped (ok : String → Prop) : List (List Piece) → List String → Prop
  | nil : Shaped ok [] []
  | cons {pieces forms line lines} :
    Fills ok pieces line → Shaped ok forms lines → Shaped ok (pieces :: forms) (line :: lines)

/-- What is known of the beginning of a line: the place that it leads to, and whether it may end
inside a word. -/
structure Reached where
  place : Place
  inWord : Bool
  deriving DecidableEq, Repr

/-- What is known after a piece, if nothing can go wrong: words stay apart, names in fixed text are
`known`, and what is filled in stands where it may. -/
def Piece.advance (known : List Char → Bool) (piece : Piece) (before : Reached) : Option Reached :=
  match piece with
  | .text literal =>
    if literal ≠ [] ∧ (before.inWord = false ∨ startsInWord literal = false) ∧
        (namesFrom before.place (marks literal)).all known = true then
      some ⟨before.place.through (marks literal), endsInWord literal⟩
    else none
  | .phrase => if before = ⟨.code, false⟩ then some ⟨.code, true⟩ else none
  | .silent =>
    if before.inWord = false ∧ before.place.isFree = false then some ⟨before.place.afterWord, true⟩
    else none

/-- What is known at the end of a line. -/
def check (known : List Char → Bool) : List Piece → Option Reached
  | [] => some ⟨.code, false⟩
  | piece :: pieces => (check known pieces).bind (piece.advance known)

theorem endsInWord_append {a b : List Char} (hb : b ≠ []) :
    endsInWord (a ++ b) = endsInWord b := by
  rw [endsInWord, List.getLast?_append_of_ne_nil a hb, endsInWord]

section

variable {ok : String → Prop} {known : List Char → Bool}
  (hknown : ∀ cs, known cs = true → ok (String.ofList cs))

include hknown

/-- **A line with open places is read as it was checked**, whatever is filled in. -/
theorem Fills.reads {pieces : List Piece} {line : String} (h : Fills ok pieces line)
    {reached : Reached} (hcheck : check known pieces = some reached) :
    Reads ok .code line reached.place ∧
      (reached.inWord = false → endsInWord line.toList = false) := by
  induction h generalizing reached with
  | nil =>
    cases hcheck
    exact ⟨⟨rfl, nofun⟩, fun _ => rfl⟩
  | @text pieces line literal _ ih =>
    obtain ⟨before, hbefore, hcheck⟩ := Option.bind_eq_some_iff.mp hcheck
    obtain ⟨hline, hout⟩ := ih hbefore
    obtain ⟨⟨hne, hcut, hnames⟩, ⟨⟩⟩ := Option.ite_none_right_eq_some.mp hcheck
    rw [List.all_eq_true] at hnames
    have hliteral : Reads ok before.place (String.ofList literal)
        (before.place.through (marks literal)) := by
      refine ⟨by rw [String.toList_ofList], ?_⟩
      rw [String.toList_ofList]
      exact fun cs hcs => hknown cs (hnames cs hcs)
    refine ⟨hline.append hliteral ?_, ?_⟩
    · rw [String.toList_ofList]
      exact hcut.imp_left hout
    · rw [String.toList_append, String.toList_ofList, endsInWord_append hne]
      exact id
  | phrase hcode _ ih =>
    obtain ⟨before, hbefore, hcheck⟩ := Option.bind_eq_some_iff.mp hcheck
    obtain ⟨rfl, ⟨⟩⟩ := Option.ite_none_right_eq_some.mp hcheck
    obtain ⟨hline, hout⟩ := ih hbefore
    exact ⟨hline.append hcode (.inl (hout rfl)), nofun⟩
  | silent hw _ ih =>
    obtain ⟨before, hbefore, hcheck⟩ := Option.bind_eq_some_iff.mp hcheck
    obtain ⟨⟨hin, hfree⟩, ⟨⟩⟩ := Option.ite_none_right_eq_some.mp hcheck
    obtain ⟨hline, hout⟩ := ih hbefore
    exact ⟨hline.append (reads_silent hw hfree) (.inl (hout hin)), nofun⟩

/-- **A line that fills checked pieces refers to nothing else** than the pieces know and the phrases
bring along. -/
theorem Fills.refers {pieces : List Piece} {line : String} (h : Fills ok pieces line)
    (hcheck : (check known pieces).any (·.place.isDone) = true) : Refers ok line := by
  obtain ⟨reached, hreached, hdone⟩ := Option.any_eq_true _ _ |>.mp hcheck
  exact (h.reads hknown hreached).1.refers hdone

/-- Filled pieces that lead back to code are a phrase again. -/
theorem Fills.readsCode {pieces : List Piece} {line : String} (h : Fills ok pieces line)
    (hcheck : (check known pieces).map Reached.place = some .code) : Reads ok .code line .code := by
  obtain ⟨reached, hreached, hcode⟩ := Option.map_eq_some_iff.mp hcheck
  exact hcode ▸ (h.reads hknown hreached).1

/-- Lines with open places. -/
theorem Shaped.refers {forms : List (List Piece)} {lines : List String} (h : Shaped ok forms lines)
    (hcheck : forms.all (fun pieces => (check known pieces).any (·.place.isDone)) = true) :
    ∀ line ∈ lines, Refers ok line := by
  induction h with
  | nil => exact nofun
  | cons hline _ ih =>
    rw [List.all_cons, Bool.and_eq_true] at hcheck
    exact List.forall_mem_cons.mpr ⟨hline.refers hknown hcheck.1, ih hcheck.2⟩

/-- Code after the pieces of a line. -/
theorem Fills.readsThen {pieces : List Piece} {line code : String} {q : Place}
    (h : Fills ok pieces line) (hcode : Reads ok .code code q)
    (hcheck : check known pieces = some ⟨.code, false⟩) : Reads ok .code (line ++ code) q := by
  obtain ⟨hline, hout⟩ := h.reads hknown hcheck
  exact hline.append hcode (.inl (hout rfl))

end

/-! ## Whole files -/

section

variable {ok : String → Prop} {line : String} {lines : List String}

/-- A line without open places. -/
theorem refers_of_nameChars {known : List Char → Bool}
    (hknown : ∀ cs, known cs = true → ok (String.ofList cs)) {cs : List Char}
    (hcheck : (nameChars? cs).any (·.all known) = true) : Refers ok (String.ofList cs) := by
  rw [Option.any_eq_true] at hcheck
  obtain ⟨names, hnames, hall⟩ := hcheck
  rw [List.all_eq_true] at hall
  refine refers_iff.mpr ⟨names, ?_, fun cs hcs => hknown cs (hall cs hcs)⟩
  rwa [String.toList_ofList]

/-- `Spelled lines css` says that the lines have the given characters. -/
inductive Spelled : List String → List (List Char) → Prop
  | nil : Spelled [] []
  | cons (cs : List Char) {lines css} :
    Spelled lines css → Spelled (String.ofList cs :: lines) (cs :: css)

/-- Lines without open places. -/
theorem Spelled.refers {css : List (List Char)} (h : Spelled lines css) {known : List Char → Bool}
    (hknown : ∀ cs, known cs = true → ok (String.ofList cs))
    (hcheck : (css.all fun cs => (nameChars? cs).any (·.all known)) = true) :
    ∀ line ∈ lines, Refers ok line := by
  induction h with
  | nil => exact nofun
  | cons cs _ ih =>
    rw [List.all_cons, Bool.and_eq_true] at hcheck
    exact List.forall_mem_cons.mpr ⟨refers_of_nameChars hknown hcheck.1, ih hcheck.2⟩

/-- A line is read the same wherever it is indented to. -/
theorem Refers.indent {blank : String} (hcut : endsInWord blank.toList = false)
    (hblank : marks blank.toList = []) (h : Refers ok line) : Refers ok (blank ++ line) := by
  have hmarks : marks (blank ++ line).toList = marks line.toList := by
    rw [String.toList_append, marks_append (.inl hcut), hblank, List.nil_append]
  rwa [Refers, references?, nameChars?, hmarks]

/-- Indenting lines adds no reference. -/
theorem refers_indented {blank : String} (hcut : endsInWord blank.toList = false)
    (hblank : marks blank.toList = []) (h : ∀ line ∈ lines, Refers ok line) :
    ∀ line ∈ lines.map (blank ++ ·), Refers ok line := by
  intro line hline
  obtain ⟨line, hmem, rfl⟩ := List.mem_map.mp hline
  exact (h line hmem).indent hcut hblank

theorem head?_marks_ne {c : Char} (hc : c ≠ '=') (hblank : c ≠ ' ' ∧ c ≠ '\t') (cs : List Char) :
    (marks (c :: cs)).head? ≠ some (.sign '=') := by
  rw [marks, Mark.scan, Mark.push]
  split
  · exact nofun
  · rw [if_neg (by simp [hblank])]
    simpa [Mark.join] using hc

/-- A line that starts with a key names what follows the key. -/
theorem refers_keyed {key rest : String} {q : Place} (hkey : isName key = true)
    (hrest : Reads ok .code rest q) (hq : q.isDone = true)
    (hhead : (marks rest.toList).head? ≠ some (.sign '=')) :
    Refers ok (key ++ (": " ++ rest)) := by
  have hmarks : marks (key ++ (": " ++ rest)).toList =
      .word key.toList :: .sign ':' :: marks rest.toList := by
    rw [String.toList_append, String.toList_append, marks_append (.inr rfl),
      marks_append (.inl rfl), marks_name hkey]
    rfl
  have hwithout : withoutKey (.word key.toList :: .sign ':' :: marks rest.toList) =
      .sign ':' :: marks rest.toList :=
    if_pos (by simpa using hhead)
  refine refers_iff.mpr ⟨namesFrom .code (.sign ':' :: marks rest.toList), ?_, hrest.names⟩
  rw [nameChars?, hmarks, hwithout]
  exact if_pos (hrest.place ▸ hq)

/-- The lines of a file are the lines that it is written from, if these can be read. -/
theorem refers_linesOf (hne : lines ≠ []) (h : ∀ line ∈ lines, Refers ok line) (path : String) :
    ∀ line ∈ linesOf (GeneratedFile.ofLines path lines).contents, Refers ok line := by
  rw [GeneratedFile.ofLines, linesOf_intercalate hne]
  intro line hline
  obtain ⟨whole, hwhole, hline⟩ := List.mem_flatMap.mp hline
  rw [linesOf_of_notMem (h whole hwhole).newline_notMem, List.mem_singleton] at hline
  exact hline ▸ h whole hwhole

end

end WireSchema.Source
