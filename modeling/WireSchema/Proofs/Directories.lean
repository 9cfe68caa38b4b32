import WireSchema.Proofs.PathSteps

/-!
# Directories

Where a path leads depends on directories alone. As long as none of them goes away, a path that can
be followed leads to the same place (`Grows.locate`). Making a directory with its parents takes
nothing away and adds nothing but the directories that the paths above it name
(`createDirectories_run`).
-/

namespace WireSchema

namespace FileSystem

variable {fs fs' fs'' : FileSystem}

/-! ## Following paths -/

/-- Where a path starts. -/
def origin (fs : FileSystem) (p : Path) : Address :=
  if p.isAbsolute then [] else fs.workingDirectory

/-- The path leads to the directory at an address. -/
def Leads (fs : FileSystem) (p : Path) (base : Address) : Prop :=
  fs.follow (fs.origin p) p.active = .ok base

/-- Pieces can be followed in two parts. -/
theorem follow_append (fs : FileSystem) (d : Address) (ps qs : List (List Char)) :
    fs.follow d (ps ++ qs) = (fs.follow d ps).bind (fs.follow · qs) := by
  induction ps generalizing d with
  | nil => rfl
  | cons p ps ih =>
    rw [List.cons_append, follow, follow]
    cases fs.enter d p with
    | error e => rfl
    | ok d' => exact ih d'

/-- Pieces that stand for nothing lead nowhere. -/
theorem follow_filter_idle (fs : FileSystem) (d : Address) (ps : List (List Char)) :
    fs.follow d (ps.filter (!·.isEmpty)) = fs.follow d (ps.filter (!Path.isIdle ·)) := by
  induction ps generalizing d with
  | nil => rfl
  | cons p ps ih =>
    by_cases hempty : p = []
    · simpa [hempty, Path.isIdle] using ih d
    · by_cases hhere : p = ['.']
      · subst hhere
        simpa [Path.isIdle, follow, enter, Last.ofPiece] using ih d
      · simp only [List.filter_cons, Path.isIdle, List.isEmpty_eq_false_iff.mpr hempty,
          hempty, hhere, decide_false, Bool.or_false, Bool.not_false, if_true, follow]
        cases fs.enter d p with
        | error e => rfl
        | ok d' => exact ih d'

/-- Idle pieces lead nowhere. -/
theorem follow_steps (fs : FileSystem) (p : Path) :
    fs.follow (fs.origin p) ((Text.pieces '/' p.text.toList).filter (!·.isEmpty)) =
      fs.follow (fs.origin p) p.active :=
  fs.follow_filter_idle _ _

/-- What a path that can be followed comes to: it has no pieces, or all but the last of them lead to
the place's directory. -/
theorem locate_cases {p : Path} {place : Place} (h : fs.locate p = .ok place) :
    (Text.pieces '/' p.text.toList).filter (!·.isEmpty) = [] ∧ place = ⟨fs.origin p, .here, true⟩ ∨
      ∃ init last, (Text.pieces '/' p.text.toList).filter (!·.isEmpty) = init ++ [last] ∧
        fs.follow (fs.origin p) init = .ok place.directory ∧
        place = ⟨place.directory, .ofPiece last, Path.endsWithSlash p.text⟩ := by
  unfold locate locateBy placeFrom at h
  split at h
  · cases h
  split at h
  · cases h
  split at h
  · cases h
  split at h
  · rename_i hlast
    exact .inl ⟨List.getLast?_eq_none_iff.mp hlast, (Except.ok.inj h).symm⟩
  · rename_i last hlast
    obtain ⟨init, hinit⟩ := List.getLast?_eq_some_iff.mp hlast
    rw [hinit, List.dropLast_concat] at h
    split at h
    · cases h
    · rename_i directory hfollow
      obtain rfl := Except.ok.inj h
      exact .inr ⟨init, last, hinit, hfollow, rfl⟩

theorem Last.ofPiece_of_plain {name : String} (hname : IsPlainName name) :
    Last.ofPiece name.toList = .name name := by
  unfold Last.ofPiece
  split
  · rename_i h
    exact absurd h hname.ne_here
  · rename_i h
    exact absurd h hname.ne_above
  · rw [String.ofList_toList]

/-- **A plain name below a directory** is looked for where the directory leads. -/
theorem locate_join {directory : Path} {base : Address} {name : String} {place : Place}
    (hname : IsPlainName name) (hbase : fs.Leads directory base)
    (h : fs.locate (directory.join ⟨name⟩) = .ok place) : place = ⟨base, .name name, false⟩ := by
  obtain ⟨init, hpieces, hinit⟩ := Path.pieces_join hname directory
  have horigin : fs.origin (directory.join ⟨name⟩) = fs.origin directory := by
    rw [origin, Path.isAbsolute_join hname, origin]
  have hsteps : (Text.pieces '/' (directory.join ⟨name⟩).text.toList).filter (!·.isEmpty) =
      init.filter (!·.isEmpty) ++ [name.toList] := by
    rw [hpieces, List.filter_append]
    simp [hname.ne_empty]
  rcases locate_cases h with ⟨hnil, -⟩ | ⟨init', last, hinit', hfollow, hplace⟩
  · simp [hsteps] at hnil
  · rw [hsteps] at hinit'
    obtain ⟨rfl, hlast⟩ := List.append_inj' hinit' rfl
    obtain rfl := (List.cons.inj hlast).1
    rw [horigin, follow_filter_idle, hinit] at hfollow
    have hdirectory : place.directory = base := Except.ok.inj (hfollow.symm.trans hbase)
    rw [hplace, hdirectory, Last.ofPiece_of_plain hname, Path.endsWithSlash_join hname]

/-- **The staging path of a plain name below a directory** is looked for there too. -/
theorem locate_staging {directory : Path} {base : Address} {name : String} {place : Place}
    (hname : IsPlainName name) (hbase : fs.Leads directory base)
    (h : fs.locate (directory.join ⟨name⟩).staging = .ok place) :
    place = ⟨base, .name (stagingName name), false⟩ := by
  obtain ⟨beside, hstaging, hactive, habsolute⟩ := Path.exists_staging_eq_join hname directory
  rw [hstaging] at h
  refine locate_join hname.staging ?_ h
  rw [Leads, origin, hactive, habsolute]
  exact hbase

/-! ## Directories that stay -/

/-- No directory goes away. -/
structure Grows (fs fs' : FileSystem) : Prop where
  workingDirectory : fs'.workingDirectory = fs.workingDirectory
  directory : ∀ {a}, fs.find? a = some .directory → fs'.find? a = some .directory

theorem Grows.refl (fs : FileSystem) : Grows fs fs :=
  ⟨rfl, id⟩

theorem Grows.trans (h : Grows fs fs') (h' : Grows fs' fs'') : Grows fs fs'' :=
  ⟨h'.workingDirectory.trans h.workingDirectory, fun hd => h'.directory (h.directory hd)⟩

theorem Grows.origin (h : Grows fs fs') (p : Path) : fs'.origin p = fs.origin p := by
  rw [FileSystem.origin, h.workingDirectory, FileSystem.origin]

/-- A directory that could be entered still can. -/
theorem Grows.enter (h : Grows fs fs') {d d' : Address} {piece : List Char}
    (hd : fs.enter d piece = .ok d') : fs'.enter d piece = .ok d' := by
  unfold FileSystem.enter at hd ⊢
  cases hlast : Last.ofPiece piece with
  | here =>
    rw [hlast] at hd
    exact hd
  | above =>
    rw [hlast] at hd
    exact hd
  | name name =>
    simp only [hlast, child?] at hd ⊢
    by_cases hlong : nameLimit < name.utf8ByteSize
    · rw [if_pos hlong] at hd
      cases hd
    · rw [if_neg hlong] at hd ⊢
      cases hfind : fs.find? (d ++ [name]) with
      | none =>
        rw [hfind] at hd
        cases hd
      | some entry =>
        rw [hfind] at hd
        cases entry with
        | file contents => cases hd
        | directory =>
          rw [h.directory hfind]
          exact hd

/-- Pieces lead where they led. -/
theorem Grows.follow (h : Grows fs fs') {d d' : Address} {pieces : List (List Char)}
    (hd : fs.follow d pieces = .ok d') : fs'.follow d pieces = .ok d' := by
  induction pieces generalizing d with
  | nil => exact hd
  | cons piece pieces ih =>
    rw [FileSystem.follow] at hd ⊢
    cases hone : fs.enter d piece with
    | error e =>
      rw [hone] at hd
      cases hd
    | ok next =>
      rw [hone] at hd
      rw [h.enter hone]
      exact ih hd

/-- A path leads to the directory that it led to. -/
theorem Grows.leads (h : Grows fs fs') {p : Path} {base : Address} (hbase : fs.Leads p base) :
    fs'.Leads p base := by
  rw [Leads, h.origin]
  exact h.follow hbase

/-- **A path that can be followed leads to the same place** as long as no directory goes away. -/
theorem Grows.locate (h : Grows fs fs') {p : Path} {place : Place}
    (hplace : fs.locate p = .ok place) : fs'.locate p = .ok place := by
  unfold FileSystem.locate locateBy at hplace ⊢
  rw [h.workingDirectory]
  split at hplace
  · cases hplace
  split at hplace
  · cases hplace
  split at hplace
  · cases hplace
  rw [if_neg ‹_›, if_neg ‹_›, if_neg ‹_›]
  unfold placeFrom at hplace ⊢
  split at hplace
  · exact hplace
  · split at hplace
    · cases hplace
    · rename_i hfollow
      rw [h.follow hfollow]
      exact hplace

/-! ## Making directories -/

/-- The address of what a path names, if its last part is a name. -/
def addressOf? (fs : FileSystem) (p : Path) : Option Address :=
  match fs.locate p with
  | .ok ⟨directory, .name name, _⟩ => some (directory ++ [name])
  | _ => none

/-- A path keeps its address. -/
theorem Grows.addressOf? (h : Grows fs fs') {p : Path} {a : Address}
    (ha : fs.addressOf? p = some a) : fs'.addressOf? p = some a := by
  unfold FileSystem.addressOf? at ha ⊢
  split at ha
  · rename_i hlocate
    rw [h.locate hlocate]
    exact ha
  · cases ha

/-- Nothing changes but that directories are new at addresses that some paths name. -/
structure MakesDirectories (paths : List Path) (fs fs' : FileSystem) : Prop where
  grows : Grows fs fs'
  find? : ∀ a, fs'.find? a = fs.find? a ∨
    fs.find? a = none ∧ fs'.find? a = some .directory ∧ ∃ p ∈ paths, fs'.addressOf? p = some a

theorem MakesDirectories.refl (paths : List Path) (fs : FileSystem) :
    MakesDirectories paths fs fs :=
  ⟨.refl fs, fun _ => .inl rfl⟩

/-- Directories can be made one after the other. -/
theorem MakesDirectories.trans {paths : List Path} (h : MakesDirectories paths fs fs')
    (h' : MakesDirectories paths fs' fs'') : MakesDirectories paths fs fs'' := by
  refine ⟨h.grows.trans h'.grows, fun a => ?_⟩
  rcases h'.find? a with hsame' | ⟨hnone', hnew', hpath'⟩
  · rcases h.find? a with hsame | ⟨hnone, hnew, p, hp, hpath⟩
    · exact .inl (hsame'.trans hsame)
    · exact .inr ⟨hnone, hsame'.trans hnew, p, hp, h'.grows.addressOf? hpath⟩
  · rcases h.find? a with hsame | ⟨-, hnew, -⟩
    · exact .inr ⟨hsame.symm.trans hnone', hnew', hpath'⟩
    · rw [hnew] at hnone'
      cases hnone'

/-- What makes directories of some paths makes them of more. -/
theorem MakesDirectories.mono {paths paths' : List Path} (h : MakesDirectories paths fs fs')
    (hsub : ∀ p ∈ paths, p ∈ paths') : MakesDirectories paths' fs fs' := by
  refine ⟨h.grows, fun a => (h.find? a).imp_right ?_⟩
  rintro ⟨hnone, hnew, p, hp, hpath⟩
  exact ⟨hnone, hnew, p, hsub p hp, hpath⟩

/-- What it takes to make one directory, and what it does. -/
theorem createDirectory_eq_ok {p : Path} (h : fs.createDirectory p = .ok fs') :
    ∃ directory name slash, fs.locate p = .ok ⟨directory, .name name, slash⟩ ∧
      ¬ nameLimit < name.utf8ByteSize ∧ fs.find? (directory ++ [name]) = none ∧
        fs' = fs.put (directory ++ [name]) .directory := by
  unfold createDirectory at h
  cases hlocate : fs.locate p with
  | error e =>
    rw [hlocate] at h
    cases h
  | ok place =>
    obtain ⟨directory, last, slash⟩ := place
    rw [hlocate] at h
    change fs.createDirectoryAt _ = _ at h
    cases last with
    | here => cases h
    | above => cases h
    | name name =>
      by_cases hlong : nameLimit < name.utf8ByteSize
      · simp [createDirectoryAt, child?, hlong, bind, Except.bind] at h
      · cases hfind : fs.find? (directory ++ [name]) with
        | some entry => simp [createDirectoryAt, child?, hlong, hfind, bind, Except.bind] at h
        | none =>
          simp [createDirectoryAt, child?, hlong, hfind, bind, Except.bind] at h
          exact ⟨directory, name, slash, rfl, hlong, hfind, h.symm⟩

/-- A new directory takes nothing away. -/
theorem grows_put_directory (fs : FileSystem) {a : Address} (ha : a ≠ []) :
    Grows fs (fs.put a .directory) := by
  refine ⟨rfl, fun {b} hb => ?_⟩
  by_cases hab : b = a
  · rw [hab, find?_put_self fs _ ha]
  · rw [find?_put_of_ne fs _ hab, hb]

/-- **Making a directory adds the one that its path names**, and nothing else. -/
theorem makesDirectories_of_createDirectory {p : Path} (h : fs.createDirectory p = .ok fs') :
    MakesDirectories [p] fs fs' ∧ fs'.isDirectory p = true := by
  obtain ⟨directory, name, slash, hlocate, hshort, hnone, rfl⟩ := createDirectory_eq_ok h
  have hne : directory ++ [name] ≠ [] := by simp
  have hgrows := grows_put_directory fs hne
  have hlocate' := hgrows.locate hlocate
  have hself := find?_put_self fs .directory hne
  refine ⟨⟨hgrows, fun a => ?_⟩, ?_⟩
  · by_cases ha : a = directory ++ [name]
    · subst ha
      exact .inr ⟨hnone, hself, p, List.mem_singleton_self p, by rw [addressOf?, hlocate']⟩
    · exact .inl (find?_put_of_ne fs _ ha)
  · simp [isDirectory, lookup, lookupAt, hlocate', child?, hshort, hself, bind, Except.bind]

/-- A path that names a directory leads to it. -/
theorem exists_leads_of_isDirectory {p : Path} (h : fs.isDirectory p = true) :
    ∃ base, fs.Leads p base := by
  unfold isDirectory lookup at h
  cases hlocate : fs.locate p with
  | error e => simp [hlocate, bind, Except.bind] at h
  | ok place =>
    rcases locate_cases hlocate with ⟨hnil, -⟩ | ⟨init, last, hsteps, hfollow, hplace⟩
    · refine ⟨fs.origin p, ?_⟩
      rw [Leads, ← follow_steps, hnil, follow]
    · have hleads : ∀ base, fs.enter place.directory last = .ok base → fs.Leads p base := by
        intro base hbase
        rw [Leads, ← follow_steps, hsteps, follow_append, hfollow]
        simp [Except.bind, follow, hbase]
      cases hlast : Last.ofPiece last with
      | here => exact ⟨_, hleads _ (by rw [enter, hlast])⟩
      | above => exact ⟨_, hleads _ (by rw [enter, hlast])⟩
      | name name =>
        rw [hlocate, hplace, hlast] at h
        cases hchild : fs.child? place.directory name with
        | error e => simp [lookupAt, hchild, bind, Except.bind] at h
        | ok found =>
          match found with
          | none => simp [lookupAt, hchild, bind, Except.bind] at h
          | some (.file contents) =>
            cases hslash : Path.endsWithSlash p.text <;>
              simp [lookupAt, hchild, hslash, bind, Except.bind] at h
          | some .directory =>
            exact ⟨place.directory ++ [name], hleads _ (by simp only [enter, hlast, hchild])⟩

theorem leads_of_isEmpty {p : Path} (h : p.text.isEmpty = true) : fs.Leads p (fs.origin p) := by
  have hactive : p.active = [] := by
    rw [Path.active, String.isEmpty_iff.mp h]
    rfl
  rw [Leads, hactive, follow]

/-- The path names a directory. The empty path, which names nothing, stands for the working
directory. -/
def HasDirectory (fs : FileSystem) (p : Path) : Prop :=
  p.text.isEmpty = true ∨ fs.isDirectory p = true

/-- A path that names a directory leads somewhere. -/
theorem HasDirectory.exists_leads {p : Path} (h : fs.HasDirectory p) : ∃ base, fs.Leads p base := by
  rcases h with h | h
  · exact ⟨_, leads_of_isEmpty h⟩
  · exact exists_leads_of_isDirectory h

end FileSystem

end WireSchema
