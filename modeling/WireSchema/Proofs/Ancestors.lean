import WireSchema.Proofs.Directories

/-!
# The paths above a path

A path above another one is written with a part of its text (`text_isPrefix_of_mem_ancestors`) and
takes a part of its steps. So if a path names a directory, all the paths above it do
(`HasDirectory.ancestors`).
-/

namespace WireSchema

/-! ## Texts and steps -/

namespace Text

theorem intercalate_isPrefix {sep : Char} {ps qs : List (List Char)} (h : ps <+: qs) :
    [sep].intercalate ps <+: [sep].intercalate qs := by
  obtain ⟨rest, rfl⟩ := h
  cases ps with
  | nil => exact List.nil_prefix
  | cons p ps =>
    rw [intercalate_append sep (List.cons_ne_nil p ps)]
    exact List.prefix_append _ _

end Text

namespace Path

theorem suffix_of_mem_chains {chain pieces : List (List Char)} (h : chain ∈ chains pieces) :
    chain <:+ pieces := by
  induction pieces with
  | nil =>
    obtain rfl := List.mem_singleton.mp h
    exact List.suffix_refl _
  | cons piece above ih =>
    rw [chains] at h
    split at h
    · exact (ih h).trans (List.suffix_cons _ _)
    · rcases List.mem_cons.mp h with rfl | h
      · exact List.suffix_refl _
      · exact (ih h).trans (List.suffix_cons _ _)

/-- The path itself is above it, and otherwise the paths above a path take a part of its pieces. -/
theorem cases_of_mem_ancestors {p q : Path} (h : q ∈ p.ancestors) :
    q = p ∨ q.text.isEmpty = true ∨
      ∃ pieces, pieces <+: p.parts.2 ∧ q = ofParts p.parts.1 pieces := by
  have habove : q ∈ (chains p.parts.2.reverse).tail.map
      (fun chain => ofParts p.parts.1 chain.reverse) →
        ∃ pieces, pieces <+: p.parts.2 ∧ q = ofParts p.parts.1 pieces := by
    intro hmem
    obtain ⟨chain, hchain, rfl⟩ := List.mem_map.mp hmem
    have hsuffix := suffix_of_mem_chains (List.mem_of_mem_tail hchain)
    exact ⟨chain.reverse, List.reverse_suffix.mp (by rwa [List.reverse_reverse]), rfl⟩
  unfold ancestors at h
  simp only at h
  split at h
  · rw [List.mem_append, List.mem_cons, List.mem_singleton] at h
    rcases h with (rfl | h) | rfl
    · exact .inl rfl
    · exact .inr (.inr (habove h))
    · exact .inr (.inl rfl)
  · rcases List.mem_cons.mp h with rfl | h
    · exact .inl rfl
    · exact .inr (.inr (habove h))

/-- How a path that is not empty is made up. -/
theorem pieces_eq_parts {p : Path} (h : ¬ p.text.isEmpty = true) :
    Text.pieces '/' p.text.toList = p.parts.1.pieces ++ p.parts.2 ∧
      (p.parts.1 = .root → p.parts.2 ≠ []) ∧ (p.parts.1 = .silent → [] ∉ p.parts.2.head?) := by
  have hne : Text.pieces '/' p.text.toList ≠ [[]] := by
    intro heq
    have htext := Text.intercalate_pieces '/' p.text.toList
    rw [heq] at htext
    exact h (String.isEmpty_iff.mpr (String.toList_eq_nil_iff.mp htext.symm))
  obtain ⟨first, others, hpieces⟩ :=
    List.exists_cons_of_ne_nil (Text.pieces_ne_nil '/' p.text.toList)
  unfold parts
  rw [hpieces] at hne ⊢
  by_cases hroot : first = []
  · subst hroot
    cases others with
    | nil => exact absurd rfl hne
    | cons other others => simp [Start.pieces]
  by_cases hhere : first = ['.']
  · subst hhere
    simp [Start.pieces]
  · split <;> simp_all [Start.pieces]

/-- How a path with parts is written. The root is more than what stands before its slash. -/
theorem toList_text_ofParts {start : Start} {pieces : List (List Char)}
    (h : start = .root → pieces ≠ []) :
    (ofParts start pieces).text.toList = ['/'].intercalate (start.pieces ++ pieces) := by
  cases pieces with
  | nil =>
    cases start with
    | root => exact absurd rfl (h rfl)
    | here => rfl
    | silent => rfl
  | cons first others =>
    cases start <;> simp [ofParts, joinPieces, Start.pieces]

/-- **A path above another one starts its text.** -/
theorem text_isPrefix_of_mem_ancestors {p q : Path} (hp : ¬ p.text.isEmpty = true)
    (h : q ∈ p.ancestors) : q.text.toList <+: p.text.toList := by
  rcases cases_of_mem_ancestors h with rfl | hempty | ⟨pieces, hpieces, rfl⟩
  · exact List.prefix_refl _
  · rw [String.isEmpty_iff.mp hempty]
    exact List.nil_prefix
  · obtain ⟨hparts, hroot, -⟩ := pieces_eq_parts hp
    rw [← Text.intercalate_pieces '/' p.text.toList, hparts]
    by_cases hslash : p.parts.1 = .root ∧ pieces = []
    · obtain ⟨hstart, rfl⟩ := hslash
      obtain ⟨first, others, hothers⟩ := List.exists_cons_of_ne_nil (hroot hstart)
      rw [hstart, hothers]
      exact ⟨['/'].intercalate (first :: others), rfl⟩
    · rw [toList_text_ofParts fun hstart hnil => hslash ⟨hstart, hnil⟩]
      exact Text.intercalate_isPrefix ((List.prefix_append_right_inj _).mpr hpieces)

/-- The steps to a path above another one are the first of its steps. -/
theorem active_isPrefix_of_mem_ancestors {p q : Path} (hp : ¬ p.text.isEmpty = true)
    (hq : ¬ q.text.isEmpty = true) (h : q ∈ p.ancestors) :
    q.active <+: p.active ∧ q.isAbsolute = p.isAbsolute := by
  rcases cases_of_mem_ancestors h with rfl | hempty | ⟨pieces, hpieces, rfl⟩
  · exact ⟨List.prefix_refl _, rfl⟩
  · exact absurd hempty hq
  · obtain ⟨hparts, -, hsilent⟩ := pieces_eq_parts hp
    have hslash : ∀ piece ∈ pieces, '/' ∉ piece := by
      intro piece hpiece
      have hmem : piece ∈ Text.pieces '/' p.text.toList := by
        rw [hparts]
        exact List.mem_append_right _ (hpieces.subset hpiece)
      exact Text.notMem_of_mem_pieces hmem
    have hstart : p.parts.1.pieces.filter (!isIdle ·) = [] := by cases p.parts.1 <;> rfl
    refine ⟨?_, ?_⟩
    · rw [active_ofParts _ hslash, active, hparts, List.filter_append, hstart, List.nil_append]
      exact hpieces.filter _
    · refine isAbsolute_ofParts hslash fun hstart hmem => hsilent hstart ?_
      obtain ⟨rest, hrest⟩ := hpieces
      rw [← hrest, List.head?_append, Option.mem_def.mp hmem]
      rfl

end Path

namespace FileSystem

variable {fs : FileSystem}

/-! ## Directories above a directory -/

/-- A path whose text cannot keep it from being followed. -/
def Followable (p : Path) : Prop :=
  p.text.toList.contains '\x00' = false ∧ ¬ p.text.isEmpty = true ∧
    ¬ pathLimit < p.text.utf8ByteSize

theorem followable_of_locate {p : Path} {place : Place} (h : fs.locate p = .ok place) :
    Followable p := by
  unfold locate locateBy at h
  split at h
  · cases h
  rename_i hnul
  split at h
  · cases h
  rename_i hempty
  split at h
  · cases h
  rename_i hlong
  exact ⟨Bool.eq_false_iff.mpr hnul, hempty, hlong⟩

theorem Followable.of_isPrefix {p q : Path} (h : Followable p) (hq : ¬ q.text.isEmpty = true)
    (htext : q.text.toList <+: p.text.toList) : Followable q := by
  obtain ⟨rest, hrest⟩ := htext
  have hp : p.text = q.text ++ String.ofList rest := by
    rw [← String.toList_inj, String.toList_append, String.toList_ofList, hrest]
  obtain ⟨hnul, -, hlong⟩ := h
  refine ⟨?_, hq, ?_⟩
  · rw [← hrest, List.contains_append, Bool.or_eq_false_iff] at hnul
    exact hnul.1
  · rw [hp, String.utf8ByteSize_append] at hlong
    omega

theorem exists_follow_of_append {d base : Address} {ps qs : List (List Char)}
    (h : fs.follow d (ps ++ qs) = .ok base) :
    ∃ mid, fs.follow d ps = .ok mid ∧ fs.follow mid qs = .ok base := by
  rw [follow_append] at h
  cases hmid : fs.follow d ps with
  | error e =>
    rw [hmid] at h
    cases h
  | ok mid =>
    rw [hmid] at h
    exact ⟨mid, rfl, h⟩

theorem follow_singleton (d : Address) (piece : List Char) :
    fs.follow d [piece] = fs.enter d piece := by
  rw [follow]
  cases fs.enter d piece <;> rfl

/-- The directory that the last step of a path enters is what the path names. -/
theorem lookup_of_enter {p : Path} {base d : Address} {last : List Char} {slash : Bool}
    (hplace : fs.locate p = .ok ⟨d, .ofPiece last, slash⟩) (h : fs.enter d last = .ok base) :
    fs.lookup p = .ok .directory := by
  unfold lookup
  rw [hplace]
  unfold enter at h
  cases hlast : Last.ofPiece last with
  | here => rfl
  | above => rfl
  | name name =>
    rw [hlast] at h
    cases hchild : fs.child? d name with
    | error e => simp [hchild] at h
    | ok found =>
      cases found with
      | none => simp [hchild] at h
      | some entry =>
        cases entry with
        | file contents => simp [hchild] at h
        | directory => simp [lookupAt, hchild, bind, Except.bind]

theorem Followable.locate_of_nil {p : Path} (hp : Followable p)
    (h : (Text.pieces '/' p.text.toList).filter (!·.isEmpty) = []) :
    fs.locate p = .ok ⟨fs.origin p, .here, true⟩ := by
  obtain ⟨hnul, hempty, hlong⟩ := hp
  unfold locate locateBy placeFrom origin
  simp only [hnul, Bool.false_eq_true, if_false, hempty, hlong, h, List.getLast?_nil]

theorem Followable.locate_of_concat {p : Path} (hp : Followable p) {init : List (List Char)}
    {last : List Char} (h : (Text.pieces '/' p.text.toList).filter (!·.isEmpty) = init ++ [last])
    {d : Address} (hfollow : fs.follow (fs.origin p) init = .ok d) :
    fs.locate p = .ok ⟨d, .ofPiece last, Path.endsWithSlash p.text⟩ := by
  obtain ⟨hnul, hempty, hlong⟩ := hp
  unfold locate locateBy placeFrom
  unfold origin at hfollow
  simp only [hnul, Bool.false_eq_true, if_false, hempty, hlong, h, List.getLast?_concat,
    List.dropLast_concat, hfollow]

/-- A path that can be followed and leads to a directory names it. -/
theorem isDirectory_of_leads {p : Path} {base : Address} (hp : Followable p)
    (h : fs.Leads p base) : fs.isDirectory p = true := by
  rw [Leads, ← follow_steps] at h
  have hlookup : fs.lookup p = .ok .directory := by
    rcases List.eq_nil_or_concat ((Text.pieces '/' p.text.toList).filter (!·.isEmpty)) with
      hnil | ⟨init, last, hsteps⟩
    · rw [lookup, hp.locate_of_nil hnil]
      rfl
    · rw [List.concat_eq_append] at hsteps
      rw [hsteps] at h
      obtain ⟨d, hinit, hlast⟩ := exists_follow_of_append h
      rw [follow_singleton] at hlast
      exact lookup_of_enter (hp.locate_of_concat hsteps hinit) hlast
  rw [isDirectory, hlookup]

/-- **The paths above a directory name directories.** -/
theorem HasDirectory.ancestors {p : Path} (h : fs.HasDirectory p) :
    ∀ q ∈ p.ancestors, fs.HasDirectory q := by
  intro q hq
  rcases h with hempty | hdirectory
  · have hp : p.ancestors = [p] := by
      obtain ⟨text⟩ := p
      obtain rfl := String.isEmpty_iff.mp hempty
      rfl
    rw [hp, List.mem_singleton] at hq
    exact .inl (hq ▸ hempty)
  by_cases hqempty : q.text.isEmpty = true
  · exact .inl hqempty
  obtain ⟨base, hbase⟩ := exists_leads_of_isDirectory hdirectory
  obtain ⟨place, hplace⟩ : ∃ place, fs.locate p = .ok place := by
    cases hplace : fs.locate p with
    | ok place => exact ⟨place, rfl⟩
    | error e => simp [isDirectory, lookup, hplace, bind, Except.bind] at hdirectory
  have hfollow := followable_of_locate hplace
  obtain ⟨⟨rest, hrest⟩, habsolute⟩ := Path.active_isPrefix_of_mem_ancestors hfollow.2.1 hqempty hq
  have htext := Path.text_isPrefix_of_mem_ancestors hfollow.2.1 hq
  rw [Leads, ← hrest] at hbase
  obtain ⟨above, habove, -⟩ := exists_follow_of_append hbase
  have hleads : fs.Leads q above := by
    rw [Leads, origin, habsolute]
    exact habove
  exact .inr (isDirectory_of_leads (hfollow.of_isPrefix hqempty htext) hleads)

end FileSystem

end WireSchema
