import WireSchema.Proofs.References

/-!
# Uses of objects in source code

`uses?` reads a line of generated source and says how some objects, which are given by their names,
are used in it: by selecting a member with a dot, or in another way, of which it tells what follows
the object. It follows the places of `references?`, so that words in comments and literals are no
objects, and neither is a word that is itself selected. A line has no answer if it leaves a literal
open or ends with one of the objects.

Where none of the objects is named, none is used (`Reads.uses`).
-/

namespace WireSchema.Source

open Text

/-! ## The reader -/

/-- How an object is used. -/
inductive Use where
  | member (name : List Char)
  /-- in another way, where the mark follows -/
  | other (next : Mark)
  deriving DecidableEq, Repr

/-- What the reader has just seen. -/
inductive Focus where
  /-- nothing that matters -/
  | away
  | object (cs : List Char)
  /-- an object and a dot -/
  | selecting (cs : List Char)
  deriving DecidableEq, Repr

/-- A place in a line of code, and what stands before it. -/
structure Stand where
  place : Place
  focus : Focus
  deriving DecidableEq, Repr

/-- The beginning of a line. -/
def Stand.start : Stand :=
  ⟨.code, .away⟩

/-- The use of an object that a mark shows. -/
def Focus.uses : Focus → Mark → List (List Char × Use)
  | .away, _ => []
  | .object cs, m => if m = .sign '.' then [] else [(cs, .other m)]
  | .selecting cs, .word name => [(cs, .member name)]
  | .selecting cs, .sign c => [(cs, .other (.sign c))]

section

variable (objects : List (List Char))

/-- What the reader has seen after a mark. -/
def Stand.focusAfter (st : Stand) : Mark → Focus
  | .word cs => if st.place.isFree && objects.contains cs then .object cs else .away
  | .sign c =>
    match st.focus with
    | .object cs => if c = '.' then .selecting cs else .away
    | _ => .away

def Stand.after (st : Stand) (m : Mark) : Stand :=
  ⟨st.place.after m, st.focusAfter objects m⟩

def Stand.through (st : Stand) (text : List Mark) : Stand :=
  text.foldl (Stand.after objects) st

/-- The uses of objects among marks. -/
def usesFrom : Stand → List Mark → List (List Char × Use)
  | _, [] => []
  | st, m :: text => st.focus.uses m ++ usesFrom (st.after objects m) text

/-- How the objects are used in a line, if it can be read. -/
def usesOf? (line : List Char) : Option (List (List Char × Use)) :=
  let reached := Stand.start.through objects (marks line)
  if reached.place.isDone && reached.focus = .away then some (usesFrom objects .start (marks line))
  else none

/-- How the objects are used in a line. -/
def uses? (line : String) : Option (List (List Char × Use)) :=
  usesOf? objects line.toList

end

example : uses? [['w']] "  Inner._write(w, m.w); // w.x" = some [(['w'], .other (.sign ','))] := by
  decide +kernel

/-- `UsesOnly objects ok line` says that the line can be read, and that every use of an object in it
is `ok`. -/
def UsesOnly (objects : List (List Char)) (ok : List Char → Use → Prop) (line : String) : Prop :=
  ∃ uses, uses? objects line = some uses ∧ ∀ u ∈ uses, ok u.1 u.2

theorem UsesOnly.imp {objects : List (List Char)} {ok ok' : List Char → Use → Prop}
    (himp : ∀ o u, ok o u → ok' o u) {line : String} (h : UsesOnly objects ok line) :
    UsesOnly objects ok' line := by
  obtain ⟨uses, hline, huses⟩ := h
  exact ⟨uses, hline, fun u hu => himp u.1 u.2 (huses u hu)⟩

/-! ## Reading part of a line -/

/-- `Uses objects ok st text st'` says that the text leads from one stand to another, and that every
use of an object that shows in it is `ok`. -/
structure Uses (objects : List (List Char)) (ok : List Char → Use → Prop) (st : Stand)
    (text : String)
    (st' : Stand) : Prop where
  stand : st.through objects (marks text.toList) = st'
  uses : ∀ u ∈ usesFrom objects st (marks text.toList), ok u.1 u.2

section

variable {objects : List (List Char)}

theorem Stand.through_append (st : Stand) (a b : List Mark) :
    st.through objects (a ++ b) = (st.through objects a).through objects b :=
  List.foldl_append

theorem usesFrom_append (st : Stand) (a b : List Mark) :
    usesFrom objects st (a ++ b) =
      usesFrom objects st a ++ usesFrom objects (st.through objects a) b := by
  induction a generalizing st with
  | nil => rfl
  | cons m a ih =>
    rw [List.cons_append, usesFrom, usesFrom, ih, List.append_assoc]
    rfl

/-- A reader that is away stays so where no object is named. -/
theorem away_of_namesFrom (hobjects : ∀ o ∈ objects, isNamelike o = true) {p : Place}
    {text : List Mark} (h : ∀ cs ∈ namesFrom p text, cs ∉ objects) :
    Stand.through objects ⟨p, .away⟩ text = ⟨p.through text, .away⟩ ∧
      usesFrom objects ⟨p, .away⟩ text = [] := by
  induction text generalizing p with
  | nil => exact ⟨rfl, rfl⟩
  | cons m text ih =>
    obtain ⟨hm, htext⟩ := List.forall_mem_append.mp h
    -- only an object at a free place would change the focus, and there it is a name
    have hafter : Stand.after objects ⟨p, .away⟩ m = ⟨p.after m, .away⟩ := by
      cases m with
      | sign c => rfl
      | word cs =>
        rw [Stand.after, Stand.focusAfter, if_neg]
        rw [Bool.and_eq_true, List.contains_iff_mem]
        rintro ⟨hfree, hmem⟩
        rw [namedBy, hfree, hobjects cs hmem] at hm
        exact hm cs List.mem_cons_self hmem
    obtain ⟨hthrough, huses⟩ := ih htext
    rw [Stand.through, List.foldl_cons, hafter, usesFrom, hafter, huses]
    exact ⟨hthrough, rfl⟩

variable {ok : List Char → Use → Prop} {x y z : Stand} {a b line : String}

theorem Uses.append (ha : Uses objects ok x a y) (hb : Uses objects ok y b z)
    (hcut : endsInWord a.toList = false ∨ startsInWord b.toList = false) :
    Uses objects ok x (a ++ b) z := by
  refine ⟨?_, ?_⟩
  · rw [String.toList_append, marks_append hcut, Stand.through_append, ha.stand, hb.stand]
  · rw [String.toList_append, marks_append hcut, usesFrom_append, ha.stand]
    exact List.forall_mem_append.mpr ⟨ha.uses, hb.uses⟩

theorem Uses.usesOnly {q : Place} (h : Uses objects ok .start line ⟨q, .away⟩)
    (hq : q.isDone = true) : UsesOnly objects ok line := by
  refine ⟨usesFrom objects .start (marks line.toList), ?_, h.uses⟩
  rw [uses?, usesOf?, h.stand]
  exact if_pos (by simp [hq])

/-- **Where no object is named, none is used.** -/
theorem Reads.uses (hobjects : ∀ o ∈ objects, isNamelike o = true) {p q : Place}
    (h : Reads (·.toList ∉ objects) p a q) : Uses objects ok ⟨p, .away⟩ a ⟨q, .away⟩ := by
  obtain ⟨hthrough, huses⟩ := away_of_namesFrom hobjects fun cs hcs => by
    simpa using h.names cs hcs
  refine ⟨by rw [hthrough, h.place], ?_⟩
  rw [huses]
  exact List.forall_mem_nil _

/-- The member that is selected. -/
theorem uses_member {object : List Char} {name : String} (hname : isName name = true)
    (hok : ok object (.member name.toList)) :
    Uses objects ok ⟨.dot, .selecting object⟩ name ⟨.code, .away⟩ := by
  refine ⟨by rw [marks_name hname]; rfl, ?_⟩
  rw [marks_name hname]
  exact List.forall_mem_singleton.mpr hok

/-- A line is read the same wherever it is indented to. -/
theorem usesOnly_indented {blank : String} (hcut : endsInWord blank.toList = false)
    (hblank : marks blank.toList = []) {lines : List String}
    (h : ∀ line ∈ lines, UsesOnly objects ok line) :
    ∀ line ∈ lines.map (blank ++ ·), UsesOnly objects ok line := by
  refine List.forall_mem_map.mpr fun line hline => ?_
  have hmarks : marks (blank ++ line).toList = marks line.toList := by
    rw [String.toList_append, marks_append (.inl hcut), hblank, List.nil_append]
  have hline := h line hline
  rwa [UsesOnly, uses?, usesOf?, hmarks]

/-! ## Fixed texts -/

/-- Does the text lead from code to code, with uses that are `known` only? -/
def isLink (objects : List (List Char)) (known : List Char → Use → Bool) (cs : List Char) : Bool :=
  Stand.start.through objects (marks cs) = .start &&
    (usesFrom objects .start (marks cs)).all fun u => known u.1 u.2

variable {known : List Char → Use → Bool} (hknown : ∀ o u, known o u = true → ok o u)

include hknown

theorem uses_link {cs : List Char} (h : isLink objects known cs = true) :
    Uses objects ok .start (String.ofList cs) .start := by
  rw [isLink, Bool.and_eq_true, decide_eq_true_iff, List.all_eq_true] at h
  refine ⟨by rw [String.toList_ofList, h.1], ?_⟩
  rw [String.toList_ofList]
  exact fun u hu => hknown u.1 u.2 (h.2 u hu)

/-- A fixed text before code. -/
theorem Uses.after {cs : List Char}
    (hcheck : isLink objects known cs = true ∧ endsInWord cs = false)
    (h : Uses objects ok .start a .start) :
    Uses objects ok .start (String.ofList cs ++ a) .start := by
  refine (uses_link hknown hcheck.1).append h (.inl ?_)
  rw [String.toList_ofList, hcheck.2]

/-- A fixed text behind code. -/
theorem Uses.close (h : Uses objects ok .start a .start) {cs : List Char}
    (hcheck : isLink objects known cs = true ∧ startsInWord cs = false) :
    Uses objects ok .start (a ++ String.ofList cs) .start := by
  refine h.append (uses_link hknown hcheck.1) (.inr ?_)
  rw [String.toList_ofList, hcheck.2]

/-- A fixed text between code and code. -/
theorem Uses.link (ha : Uses objects ok .start a .start) {cs : List Char}
    (hcheck : cs ≠ [] ∧ isLink objects known cs = true ∧ startsInWord cs = false ∧
      endsInWord cs = false)
    (hb : Uses objects ok .start b .start) :
    Uses objects ok .start (a ++ String.ofList cs ++ b) .start := by
  obtain ⟨hne, hlink, hstarts, hends⟩ := hcheck
  refine (ha.close hknown ⟨hlink, hstarts⟩).append hb (.inl ?_)
  rw [String.toList_append, String.toList_ofList, endsInWord_append hne, hends]

/-- Lines without open places. -/
theorem Spelled.usesOnly {lines : List String} {css : List (List Char)} (h : Spelled lines css)
    (hcheck : (css.all fun cs => (usesOf? objects cs).any (·.all fun u => known u.1 u.2)) = true) :
    ∀ line ∈ lines, UsesOnly objects ok line := by
  induction h with
  | nil => exact List.forall_mem_nil _
  | cons cs _ ih =>
    rw [List.all_cons, Bool.and_eq_true, Option.any_eq_true] at hcheck
    obtain ⟨⟨uses, huses, hall⟩, hrest⟩ := hcheck
    rw [List.all_eq_true] at hall
    refine List.forall_mem_cons.mpr ⟨⟨uses, ?_, fun u hu => hknown u.1 u.2 (hall u hu)⟩, ih hrest⟩
    rwa [uses?, String.toList_ofList]

end

end WireSchema.Source
