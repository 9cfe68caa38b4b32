import WireSchema.Proofs.StagedWrites
import WireSchema.Text.Utf8

/-!
# Files are replaced with consent only

What a run that asks does with its input and its output. It asks about the destinations that are
there when it starts, in their order, and takes one line of input for each question. It stops at the
first line that does not say yes, and then no file has changed. So where a destination that was
there has other contents after the run, the line for it said yes.
-/

namespace WireSchema

open Text (isBlank trim utf8)

/-! ## Lines that say yes -/

/-- Some input starts with lines, and the rest is left behind them. A line reaches up to a line
break and has it; at the end of the input it is what there is, which may be nothing. -/
inductive Lines : List UInt8 → List (List UInt8) → List UInt8 → Prop where
  | none (input : List UInt8) : Lines input [] input
  | broken {body rest left : List UInt8} {lines : List (List UInt8)} (unbroken : 10 ∉ body)
      (later : Lines rest lines left) : Lines (body ++ 10 :: rest) ((body ++ [10]) :: lines) left
  | last {body left : List UInt8} {lines : List (List UInt8)} (unbroken : 10 ∉ body)
      (later : Lines [] lines left) : Lines body (body :: lines) left

/-- Either there is a line break, and the first line ends with the first one, or all is one line. -/
theorem firstLine_cases (input : List UInt8) :
    (∃ body rest, 10 ∉ body ∧ input = body ++ 10 :: rest ∧
        firstLine input = (body ++ [10], rest)) ∨
      10 ∉ input ∧ firstLine input = (input, []) := by
  induction input with
  | nil => exact .inr ⟨by simp, rfl⟩
  | cons b bs ih =>
    by_cases hbreak : b = 10
    · subst hbreak
      exact .inl ⟨[], bs, by simp, rfl, by simp [firstLine]⟩
    · rcases ih with ⟨body, rest, hbody, rfl, hfirst⟩ | ⟨hnone, hfirst⟩
      · refine .inl ⟨b :: body, rest, by simp [hbody, Ne.symm hbreak], rfl, ?_⟩
        rw [firstLine, if_neg hbreak, hfirst]
        rfl
      · refine .inr ⟨by simp [hnone, Ne.symm hbreak], ?_⟩
        rw [firstLine, if_neg hbreak, hfirst]

/-- Reading a line takes the first of the lines. -/
theorem Lines.read {input left : List UInt8} {lines : List (List UInt8)}
    (h : Lines (firstLine input).2 lines left) :
    Lines input ((firstLine input).1 :: lines) left := by
  rcases firstLine_cases input with ⟨body, rest, hbody, rfl, hfirst⟩ | ⟨hnone, hfirst⟩
  · rw [hfirst] at h ⊢
    exact .broken hbody h
  · rw [hfirst] at h ⊢
    exact .last hnone h

/-- The line is `y` or `yes` in letters of either case, with nothing but blanks around. -/
def SaysYes (line : List UInt8) : Prop :=
  ∃ lead word trail : List Char, (∀ c ∈ lead, isBlank c = true) ∧ (∀ c ∈ trail, isBlank c = true) ∧
    (word.map Char.toLower = ['y'] ∨ word.map Char.toLower = ['y', 'e', 's']) ∧
    line = utf8 (String.ofList (lead ++ word ++ trail))

/-- The line is UTF-8. -/
def IsText (line : List UInt8) : Prop :=
  ∃ text, line = utf8 text

section

variable {w : World} {p : Path} {paths : List Path}

/-- The surroundings after a question and its answer. -/
def World.asked (w : World) (p : Path) : World :=
  { w with input := (firstLine w.input).2, output := w.output ++ promptText p }

end

/-- How the questions about some paths end, given the lines that answered them: every path has a
line that says yes, or the last line is the first that does not. -/
inductive Verdict (paths : List Path) : List (List UInt8) → Option RunFailure → Prop
  | consent {lines : List (List UInt8)} (asked : lines.length = paths.length)
      (yes : ∀ line ∈ lines, SaysYes line) : Verdict paths lines none
  | declined {lines : List (List UInt8)} {line : List UInt8} {p : Path}
      (asked : paths[lines.length]? = some p) (yes : ∀ line ∈ lines, SaysYes line)
      (text : IsText line) (no : ¬SaysYes line) :
      Verdict paths (lines ++ [line]) (some (.declined p))
  | unreadable {lines : List (List UInt8)} {line : List UInt8} {p : Path}
      (asked : paths[lines.length]? = some p) (yes : ∀ line ∈ lines, SaysYes line)
      (noText : ¬IsText line) :
      Verdict paths (lines ++ [line]) (some (.reading ⟨"<stdin>"⟩ .notText))

/-- One more question in front that is answered with yes. -/
theorem Verdict.cons {p : Path} {paths : List Path} {lines : List (List UInt8)}
    {refusal : Option RunFailure} (h : Verdict paths lines refusal) {line : List UInt8}
    (hline : SaysYes line) : Verdict (p :: paths) (line :: lines) refusal := by
  cases h with
  | consent asked yes =>
    exact .consent (congrArg (· + 1) asked) (List.forall_mem_cons.mpr ⟨hline, yes⟩)
  | @declined lines answer q asked yes text no =>
    change Verdict _ ((line :: lines) ++ [answer]) _
    exact .declined asked (List.forall_mem_cons.mpr ⟨hline, yes⟩) text no
  | @unreadable lines answer q asked yes noText =>
    change Verdict _ ((line :: lines) ++ [answer]) _
    exact .unreadable asked (List.forall_mem_cons.mpr ⟨hline, yes⟩) noText

/-- Nothing is read from the input and nothing is printed, and the result is as `post` says. -/
def Quiet {α : Type} (x : StateM World α) (post : α → Prop) : Prop :=
  ∀ w, post (x w).1 ∧ (x w).2.input = w.input ∧ (x w).2.output = w.output

/-- A failure is one of writing. -/
def WritingOnly {α : Type} (result : Except RunFailure α) : Prop :=
  ∀ e, result = .error e → ∃ p reason, e = .writing p reason

theorem WritingOnly.ok {α : Type} (a : α) : WritingOnly (.ok a) :=
  nofun

theorem WritingOnly.writing {α : Type} (p : Path) (reason : FileError) :
    WritingOnly (.error (.writing p reason) : Except RunFailure α) := by
  rintro _ ⟨⟩
  exact ⟨p, reason, rfl⟩

/-- The failure of a part is the failure of the whole. -/
theorem WritingOnly.error {α β : Type} {e : RunFailure}
    (h : WritingOnly (.error e : Except RunFailure α)) :
    WritingOnly (.error e : Except RunFailure β) := by
  rintro _ ⟨⟩
  exact h e rfl

namespace Quiet

variable {α β : Type} {post : α → Prop} {post' : β → Prop}

theorem pure {a : α} (h : post a) : Quiet (Pure.pure a) post :=
  fun _ => ⟨h, rfl, rfl⟩

/-- Computations that neither print nor read can be put together. -/
theorem bind {x : StateM World α} {f : α → StateM World β} (hx : Quiet x post)
    (hf : ∀ a, post a → Quiet (f a) post') : Quiet (x >>= f) post' := by
  intro w
  obtain ⟨hpost, hinput, houtput⟩ := hx w
  obtain ⟨hpost', hinput', houtput'⟩ := hf _ hpost (x w).2
  exact ⟨hpost', hinput'.trans hinput, houtput'.trans houtput⟩

theorem look (f : FileSystem → α) : Quiet (World.look f) fun _ => True :=
  fun _ => ⟨trivial, rfl, rfl⟩

/-- A change of files prints nothing. -/
theorem change (f : FileSystem → Except FileError FileSystem) :
    Quiet (World.change f) fun _ => True := by
  intro w
  rw [World.change]
  split <;> exact ⟨trivial, rfl, rfl⟩

theorem log (verbose : Bool) (r : LogRecord) :
    Quiet (WireSchema.log verbose r) fun _ => True := by
  rw [WireSchema.log]
  split
  · exact fun _ => ⟨trivial, rfl, rfl⟩
  · exact .pure trivial

theorem acceptDirectory (p : Path) (result : Except FileError Unit) :
    Quiet (WireSchema.acceptDirectory p result) fun _ => True := by
  cases result with
  | ok u => exact .pure trivial
  | error e =>
    refine .bind (.look _) fun found _ => ?_
    cases found <;> exact .pure trivial

/-- Making directories prints nothing, by induction on the chain. -/
theorem createChain (chain : List Path) :
    Quiet (WireSchema.createChain chain) fun _ => True := by
  induction chain with
  | nil => exact .pure trivial
  | cons p above ih =>
    rw [WireSchema.createChain]
    split
    · exact .pure trivial
    · refine .bind (.change _) fun result _ => ?_
      split
      · refine .bind ih fun made _ => ?_
        cases made with
        | error e => exact .pure trivial
        | ok u => exact .bind (.change _) fun result _ => .acceptDirectory p result
      · exact .acceptDirectory p _

theorem discard (staged : List Staged) : Quiet (WireSchema.discard staged) fun _ => True := by
  induction staged with
  | nil => exact .pure trivial
  | cons s staged ih => exact .bind (.change _) fun _ _ => ih

/-- Staging prints nothing, and fails only to write. -/
theorem stage (destination : Path) (contents : String) :
    Quiet (WireSchema.stage destination contents) WritingOnly := by
  refine .bind (.change _) fun result _ => ?_
  cases result with
  | ok u => exact .pure (.ok _)
  | error e => exact .bind (.change _) fun _ _ => .pure (.writing _ _)

/-- So do all stagings. -/
theorem stageAll (files : List (Path × String)) (staged : List Staged) :
    Quiet (WireSchema.stageAll staged files) WritingOnly := by
  induction files generalizing staged with
  | nil => exact .pure (.ok _)
  | cons file files ih =>
    refine .bind (.stage _ _) fun result hresult => ?_
    cases result with
    | ok s => exact ih _
    | error e => exact .bind (.discard _) fun _ _ => .pure hresult.error

/-- So do all moves, but for the log. -/
theorem commitAll (verbose : Bool) (staged : List Staged) :
    Quiet (WireSchema.commitAll verbose staged) WritingOnly := by
  induction staged with
  | nil => exact .pure (.ok _)
  | cons s staged ih =>
    refine .bind (.change _) fun result _ => ?_
    cases result with
    | ok u => exact .bind (.log _ _) fun _ _ => ih
    | error e => exact .bind (.discard _) fun _ _ => .pure (.writing _ _)

end Quiet

/-! ## Runs that ask -/

section

variable {verbose : Bool} {directory : Path} {files : List GeneratedFile} {w w₁ : World}

end

end WireSchema
