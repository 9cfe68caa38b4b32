import Mathlib.Data.List.TakeWhile
import WireSchema.Output.Staging

/-!
# The steps of a path

A path is followed piece by piece, and pieces that stand for nothing are passed over; the others are
the `active` ones. A plain name put below a directory is one more piece (`pieces_join`). The staging
path of the result is built from its last name and its parent, but it is a plain name below the same
directory again (`exists_staging_eq_join`), up to pieces that stand for nothing.
-/

namespace WireSchema

namespace Text

variable {sep : Char}

/-- Pieces have no separator in them. -/
theorem notMem_of_mem_pieces {cs piece : List Char} (h : piece ∈ pieces sep cs) : sep ∉ piece := by
  induction cs generalizing piece with
  | nil =>
    obtain rfl := List.mem_singleton.mp h
    simp
  | cons c cs ih =>
    rw [pieces] at h
    split at h
    · rcases List.mem_cons.mp h with rfl | h
      · simp
      · exact ih h
    · rename_i hc
      split at h
      · rename_i hnil
        exact absurd hnil (pieces_ne_nil sep cs)
      · rename_i first others hpieces
        rw [hpieces] at ih
        rcases List.mem_cons.mp h with rfl | h
        · exact mt List.mem_cons.mp (not_or.mpr ⟨Ne.symm hc, ih List.mem_cons_self⟩)
        · exact ih (List.mem_cons_of_mem _ h)

/-- Pieces without separators are found again. -/
theorem pieces_intercalate {ps : List (List Char)} (hne : ps ≠ []) (h : ∀ p ∈ ps, sep ∉ p) :
    pieces sep ([sep].intercalate ps) = ps := by
  induction ps with
  | nil => exact absurd rfl hne
  | cons p ps ih =>
    obtain ⟨hp, hps⟩ := List.forall_mem_cons.mp h
    cases ps with
    | nil => simpa using pieces_of_notMem hp
    | cons q qs =>
      rw [List.intercalate_cons_cons, List.append_assoc, List.singleton_append, pieces_append_cons,
        pieces_of_notMem hp, ih (by simp) hps]
      rfl

/-- Pieces can be joined again. -/
theorem intercalate_pieces (sep : Char) (cs : List Char) :
    [sep].intercalate (pieces sep cs) = cs := by
  induction cs with
  | nil => rfl
  | cons c cs ih =>
    obtain ⟨first, others, hpieces⟩ := List.exists_cons_of_ne_nil (pieces_ne_nil sep cs)
    rw [pieces]
    split
    · rename_i hc
      rw [hpieces, List.intercalate_cons_cons, ← hpieces, ih, hc]
      rfl
    · rw [hpieces] at ih ⊢
      cases others with
      | nil => simpa using ih
      | cons other others =>
        rw [List.intercalate_cons_cons] at ih ⊢
        rw [← ih]
        rfl

/-- Lists that are joined with a separator can be cut behind any of them. -/
theorem intercalate_cons {α : Type} (sep : α) (xs : List α) (xss : List (List α)) :
    [sep].intercalate (xs :: xss) = xs ++ xss.flatMap (sep :: ·) := by
  induction xss generalizing xs with
  | nil => simp
  | cons ys xss ih =>
    rw [List.intercalate_cons_cons, ih, List.flatMap_cons, List.append_assoc, List.singleton_append,
      List.cons_append]

theorem intercalate_append {α : Type} (sep : α) {xss : List (List α)} (hne : xss ≠ [])
    (yss : List (List α)) :
    [sep].intercalate (xss ++ yss) = [sep].intercalate xss ++ yss.flatMap (sep :: ·) := by
  obtain ⟨xs, xss, rfl⟩ := List.exists_cons_of_ne_nil hne
  rw [List.cons_append, intercalate_cons, intercalate_cons, List.flatMap_append, List.append_assoc]

theorem mem_intercalate {α : Type} {sep x : α} {xs : List α} {xss : List (List α)} (hxs : xs ∈ xss)
    (hx : x ∈ xs) : x ∈ [sep].intercalate xss := by
  cases xss with
  | nil => cases hxs
  | cons ys xss =>
    rw [intercalate_cons, List.mem_append]
    rcases List.mem_cons.mp hxs with rfl | hxs
    · exact .inl hx
    · exact .inr (List.mem_flatMap.mpr ⟨xs, hxs, List.mem_cons_of_mem _ hx⟩)

end Text

/-- A name that stands for an entry of a directory. -/
structure IsPlainName (name : String) : Prop where
  ne_empty : name.toList ≠ []
  noSlash : '/' ∉ name.toList
  ne_here : name.toList ≠ ['.']
  ne_above : name.toList ≠ ['.', '.']

namespace Path

/-- The pieces of a path that name something or go up. -/
def active (p : Path) : List (List Char) :=
  (Text.pieces '/' p.text.toList).filter (!isIdle ·)

/-- The path is absolute exactly if it starts with a slash. -/
theorem isAbsolute_iff (p : Path) : p.isAbsolute = true ↔ p.text.toList.head? = some '/' := by
  unfold isAbsolute parts
  cases p.text.toList with
  | nil => simp [Text.pieces]
  | cons c cs =>
    by_cases hc : c = '/'
    · obtain ⟨first, others, hcs⟩ := List.exists_cons_of_ne_nil (Text.pieces_ne_nil '/' cs)
      simp [Text.pieces, hc, hcs]
    · obtain ⟨first, others, hcs⟩ := List.exists_cons_of_ne_nil (Text.pieces_ne_nil '/' cs)
      simp only [Text.pieces, hcs, List.head?_cons, Option.some.injEq, hc, iff_false,
        decide_eq_true_eq]
      split <;> simp_all

theorem not_isAbsolute_of_plain {name : String} (hname : IsPlainName name) :
    (⟨name⟩ : Path).isAbsolute = false := by
  refine Bool.eq_false_iff.mpr fun habsolute => hname.noSlash ?_
  exact List.mem_of_mem_head? ((isAbsolute_iff _).mp habsolute)

/-- A name is put directly behind nothing or a slash, and behind a slash otherwise. -/
theorem join_text {name : String} (hname : IsPlainName name) (directory : Path) :
    (directory.join ⟨name⟩).text.toList = directory.text.toList ++ name.toList ∧
        (directory.text.toList = [] ∨ directory.text.toList.getLast? = some '/') ∨
      (directory.join ⟨name⟩).text.toList = directory.text.toList ++ '/' :: name.toList ∧
        directory.text.toList ≠ [] := by
  simp only [join, not_isAbsolute_of_plain hname, Bool.false_eq_true, if_false]
  split
  · rename_i h
    refine .inl ⟨String.toList_append, ?_⟩
    simpa [endsWithSlash] using h
  · rename_i h
    refine .inr ⟨by simp [String.toList_append], ?_⟩
    intro hnil
    simp [String.toList_eq_nil_iff.mp hnil] at h

/-- A plain name below a directory is absolute if the directory is. -/
theorem isAbsolute_join {name : String} (hname : IsPlainName name) (directory : Path) :
    (directory.join ⟨name⟩).isAbsolute = directory.isAbsolute := by
  rw [Bool.eq_iff_iff, isAbsolute_iff, isAbsolute_iff]
  have hplain : name.toList.head? ≠ some '/' := fun h => hname.noSlash (List.mem_of_mem_head? h)
  rcases join_text hname directory with ⟨htext, -⟩ | ⟨htext, hne⟩
  · rw [htext]
    cases directory.text.toList with
    | nil => simp [hplain]
    | cons c cs => simp
  · rw [htext]
    obtain ⟨c, cs, hd⟩ := List.exists_cons_of_ne_nil hne
    simp [hd]

theorem endsWithSlash_join {name : String} (hname : IsPlainName name) (directory : Path) :
    endsWithSlash (directory.join ⟨name⟩).text = false := by
  obtain ⟨c, hc⟩ := Option.ne_none_iff_exists'.mp (mt List.getLast?_eq_none_iff.mp hname.ne_empty)
  have hslash : c ≠ '/' := by
    rintro rfl
    exact hname.noSlash (List.mem_of_getLast? hc)
  rcases join_text hname directory with ⟨htext, -⟩ | ⟨htext, -⟩
  · simp [endsWithSlash, htext, List.getLast?_append, hc, hslash]
  · simp [endsWithSlash, htext, List.getLast?_append, List.getLast?_cons, hc, hslash]

/-- **A plain name below a directory is one more piece** behind pieces that lead where the directory
is. -/
theorem pieces_join {name : String} (hname : IsPlainName name) (directory : Path) :
    ∃ init, Text.pieces '/' (directory.join ⟨name⟩).text.toList = init ++ [name.toList] ∧
      init.filter (!isIdle ·) = directory.active := by
  rcases join_text hname directory with ⟨htext, hnil | hslash⟩ | ⟨htext, -⟩
  · refine ⟨[], ?_, ?_⟩
    · rw [htext, hnil, List.nil_append, Text.pieces_of_notMem hname.noSlash, List.nil_append]
    · rw [active, hnil]
      rfl
  · obtain ⟨above, habove⟩ : ∃ above, directory.text.toList = above ++ ['/'] :=
      List.getLast?_eq_some_iff.mp hslash
    refine ⟨Text.pieces '/' above, ?_, ?_⟩
    · rw [htext, habove, List.append_assoc, List.singleton_append, Text.pieces_append_cons,
        Text.pieces_of_notMem hname.noSlash]
    · rw [active, habove, Text.pieces_append_cons, List.filter_append]
      simp [Text.pieces, isIdle]
  · refine ⟨Text.pieces '/' directory.text.toList, ?_, rfl⟩
    rw [htext, Text.pieces_append_cons, Text.pieces_of_notMem hname.noSlash]

/-! ## Staging paths -/

/-- The pieces that a start is written as. -/
def Start.pieces : Start → List (List Char)
  | .root => [[]]
  | .here => [['.']]
  | .silent => []

/-- The last part of a path that ends in a plain name is the name. -/
theorem parts_of_pieces {p : Path} {init : List (List Char)} {name : String}
    (hname : IsPlainName name) (h : Text.pieces '/' p.text.toList = init ++ [name.toList]) :
    ∃ start above, p.parts = (start, above ++ [name.toList]) ∧ init = start.pieces ++ above ∧
      (start = .silent → [] ∉ above.head?) := by
  unfold parts
  rw [h]
  cases init with
  | nil =>
    refine ⟨.silent, [], ?_, rfl, by simp⟩
    have hne := hname.ne_empty
    have hhere := hname.ne_here
    simp only [List.nil_append]
    split <;> simp_all
  | cons first above =>
    by_cases hroot : first = []
    · subst hroot
      refine ⟨.root, above, ?_, rfl, by simp⟩
      cases above <;> rfl
    by_cases hhere : first = ['.']
    · subst hhere
      exact ⟨.here, above, rfl, rfl, by simp⟩
    · refine ⟨.silent, first :: above, ?_, rfl, by simpa using hroot⟩
      simp only [List.cons_append]
      split <;> simp_all

/-- So is its file name. -/
theorem fileName?_of_parts {p : Path} {start : Start} {above : List (List Char)} {name : String}
    (hname : IsPlainName name) (h : p.parts = (start, above ++ [name.toList])) :
    p.fileName? = some name := by
  have hbusy : isIdle name.toList = false := by simp [isIdle, hname.ne_empty, hname.ne_here]
  have habove := hname.ne_above
  rw [fileName?, h]
  simp only [List.reverse_append, List.reverse_singleton, List.singleton_append,
    List.dropWhile_cons, hbusy, Bool.false_eq_true, if_false, String.ofList_toList]

theorem head?_chains (pieces : List (List Char)) :
    (chains pieces).head? = some (pieces.dropWhile isIdle) := by
  induction pieces with
  | nil => rfl
  | cons piece above ih =>
    rw [chains, List.dropWhile_cons]
    split
    · exact ih
    · rfl

/-- Its parent is what stands before the name, without idle parts. -/
theorem parent?_of_parts {p : Path} {start : Start} {above : List (List Char)} {name : String}
    (hname : IsPlainName name) (h : p.parts = (start, above ++ [name.toList])) :
    p.parent? = some (ofParts start (above.reverse.dropWhile isIdle).reverse) := by
  have hbusy : isIdle name.toList = false := by simp [isIdle, hname.ne_empty, hname.ne_here]
  have hchains : (chains p.parts.2.reverse).tail = chains above.reverse := by
    rw [h]
    simp [chains, hbusy]
  obtain ⟨others, hothers⟩ : ∃ others, chains above.reverse =
      above.reverse.dropWhile isIdle :: others := List.head?_eq_some_iff.mp (head?_chains _)
  rw [parent?, ancestors, hchains, hothers, h]
  cases start <;> rfl

theorem filter_pieces_intercalate {pieces : List (List Char)} (h : ∀ piece ∈ pieces, '/' ∉ piece) :
    (Text.pieces '/' (['/'].intercalate pieces)).filter (!isIdle ·) =
      pieces.filter (!isIdle ·) := by
  cases pieces with
  | nil => rfl
  | cons first others => rw [Text.pieces_intercalate (by simp) h]

/-- The parts of a path that lead somewhere. -/
theorem active_ofParts (start : Start) {pieces : List (List Char)}
    (h : ∀ piece ∈ pieces, '/' ∉ piece) :
    (ofParts start pieces).active = pieces.filter (!isIdle ·) := by
  rw [← filter_pieces_intercalate h]
  cases start with
  | root => simp [ofParts, active, joinPieces, Text.pieces, isIdle]
  | here =>
    cases pieces with
    | nil => rfl
    | cons first others =>
      have hdot := @Text.pieces_append_cons '/' ['.'] (['/'].intercalate (first :: others))
      rw [List.singleton_append] at hdot
      simp [ofParts, active, joinPieces, hdot, Text.pieces, isIdle]
  | silent => simp [ofParts, active, joinPieces]

theorem isAbsolute_ofParts {start : Start} {pieces : List (List Char)}
    (h : ∀ piece ∈ pieces, '/' ∉ piece) (hsilent : start = .silent → [] ∉ pieces.head?) :
    (ofParts start pieces).isAbsolute = decide (start = .root) := by
  rw [Bool.eq_iff_iff, isAbsolute_iff, decide_eq_true_eq]
  cases start with
  | root => simp [ofParts]
  | here => cases pieces <;> simp [ofParts]
  | silent =>
    cases pieces with
    | nil => simp [ofParts, joinPieces]
    | cons first others =>
      cases first with
      | nil => simp at hsilent
      | cons c cs =>
        have hc : c ≠ '/' := by
          rintro rfl
          exact h _ List.mem_cons_self List.mem_cons_self
        cases others <;> simp [ofParts, joinPieces, hc]

end Path

/-- The name under which a file is staged. -/
def stagingName (name : String) : String :=
  "." ++ name ++ ".tmp"

theorem stagingName_toList (name : String) :
    (stagingName name).toList = '.' :: (name.toList ++ ['.', 't', 'm', 'p']) := by
  simp [stagingName, String.toList_append]

/-- The staging name of a plain name is plain. -/
theorem IsPlainName.staging {name : String} (h : IsPlainName name) :
    IsPlainName (stagingName name) := by
  constructor <;> rw [stagingName_toList]
  · simp
  · simp [h.noSlash]
  · simp
  · intro heq
    have := congrArg List.length heq
    simp at this

namespace Path

/-- **The staging path stands beside the destination**: it is a hidden name below a directory that
is reached by the same pieces. -/
theorem exists_staging_eq_join {name : String} (hname : IsPlainName name) (directory : Path) :
    ∃ beside : Path, (directory.join ⟨name⟩).staging = beside.join ⟨stagingName name⟩ ∧
      beside.active = directory.active ∧ beside.isAbsolute = directory.isAbsolute := by
  obtain ⟨init, hpieces, hinit⟩ := pieces_join hname directory
  obtain ⟨start, above, hparts, rfl, hsilent⟩ := parts_of_pieces hname hpieces
  -- the parent keeps all but the idle pieces at the end
  let kept := (above.reverse.dropWhile isIdle).reverse
  let idle := (above.reverse.takeWhile isIdle).reverse
  have habove : above = kept ++ idle := by
    rw [← List.reverse_append, List.takeWhile_append_dropWhile, List.reverse_reverse]
  have hidle : ∀ piece ∈ idle, ¬ (!isIdle piece) = true := by
    intro piece hpiece
    simpa using List.mem_takeWhile_imp (List.mem_reverse.mp hpiece)
  have hslash : ∀ piece ∈ kept, '/' ∉ piece := by
    intro piece hpiece
    have hmem : piece ∈ Text.pieces '/' (directory.join ⟨name⟩).text.toList := by
      rw [hpieces, habove]
      simp [hpiece]
    exact Text.notMem_of_mem_pieces hmem
  have hhead : start = .silent → [] ∉ kept.head? := by
    intro hstart hmem
    refine hsilent hstart ?_
    rw [habove, List.head?_append, Option.mem_def.mp hmem]
    rfl
  refine ⟨ofParts start kept, ?_, ?_, ?_⟩
  · rw [staging, withFileName, fileName?_of_parts hname hparts, parent?_of_parts hname hparts]
    rfl
  · have hstart : start.pieces.filter (!isIdle ·) = [] := by cases start <;> rfl
    rw [active_ofParts start hslash, ← hinit, List.filter_append, hstart, List.nil_append, habove,
      List.filter_append, List.filter_eq_nil_iff.mpr hidle, List.append_nil]
  · rw [isAbsolute_ofParts hslash hhead, ← isAbsolute_join hname directory, isAbsolute, hparts]

end Path

end WireSchema
