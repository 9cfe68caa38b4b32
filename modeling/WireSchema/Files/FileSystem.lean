import WireSchema.Files.Path

/-!
# File systems

A file system maps addresses, which are lists of names from the root, to files and directories. A
path is followed name by name through directories (`locate`); the operations then look at the last
name only. Every operation either gives the file system that it leaves or says why it fails, and a
failing operation changes nothing. There are no links here and nothing is refused; a `Machine` has
both.
-/

namespace WireSchema

/-! ## Errors -/

/-- Why an operation on a file fails. -/
inductive FileError where
  | notFound
  | busy
  | alreadyExists
  | notADirectory
  | isADirectory
  | nameTooLong
  /-- the path has a NUL character -/
  | nulInPath
  /-- the bytes are no UTF-8 -/
  | notText
  /-- any other reason, in words -/
  | other (reason : String)
  deriving DecidableEq, Repr

/-- The wording of an error. -/
def FileError.message : FileError → String
  | .notFound => "No such file or directory (os error 2)"
  | .busy => "Device or resource busy (os error 16)"
  | .alreadyExists => "File exists (os error 17)"
  | .notADirectory => "Not a directory (os error 20)"
  | .isADirectory => "Is a directory (os error 21)"
  | .nameTooLong => "File name too long (os error 36)"
  | .nulInPath => "file name contained an unexpected NUL byte"
  | .notText => "stream did not contain valid UTF-8"
  | .other reason => reason

/-! ## Entries -/

/-- The place of an entry: the names from the root to it. -/
abbrev Address := List String

/-- What is at an address. -/
inductive Entry where
  | file (contents : ByteArray)
  | directory

/-- Files are compared by their bytes. -/
instance : DecidableEq Entry
  | .file a, .file b =>
    decidable_of_iff (a.data = b.data) (by rw [Entry.file.injEq, ByteArray.ext_iff])
  | .directory, .directory => isTrue rfl
  | .file _, .directory | .directory, .file _ => isFalse nofun

/-- Is the entry a directory? -/
def Entry.isDirectory : Entry → Bool
  | .directory => true
  | .file _ => false

/-- A file system as one program sees it. -/
structure FileSystem where
  /-- everything but the root -/
  entries : List (Address × Entry)
  /-- the directory that relative paths start from -/
  workingDirectory : Address

namespace FileSystem

/-- What is at an address. The root is always a directory. -/
def find? (fs : FileSystem) (address : Address) : Option Entry :=
  if address = [] then some .directory else fs.entries.lookup address

/-- Removes what is at an address. -/
def erase (fs : FileSystem) (address : Address) : FileSystem :=
  { fs with entries := fs.entries.filter fun e => e.1 != address }

/-- Puts an entry at an address in place of what was there. -/
def put (fs : FileSystem) (address : Address) (entry : Entry) : FileSystem :=
  { fs with entries := (address, entry) :: (fs.erase address).entries }

theorem lookup_filter_ne (entries : List (Address × Entry)) {a b : Address} (h : a ≠ b) :
    (entries.filter fun e => e.1 != b).lookup a = entries.lookup a := by
  induction entries with
  | nil => rfl
  | cons e rest ih =>
    obtain ⟨key, entry⟩ := e
    by_cases hkey : key = b
    · subst hkey
      have hne : (a == key) = false := by simpa using h
      simp [List.lookup_cons, hne, ih]
    · simp [List.lookup_cons, hkey, ih]

theorem lookup_filter_self (entries : List (Address × Entry)) (a : Address) :
    (entries.filter fun e => e.1 != a).lookup a = none := by
  induction entries with
  | nil => rfl
  | cons e rest ih =>
    obtain ⟨key, entry⟩ := e
    by_cases hkey : key = a
    · subst hkey
      simp [ih]
    · have hne : (a == key) = false := by simpa using fun h : a = key => hkey h.symm
      simp [List.lookup_cons, hkey, hne, ih]

/-- An erased address is empty. -/
theorem find?_erase_self (fs : FileSystem) {a : Address} (h : a ≠ []) :
    (fs.erase a).find? a = none := by
  simp [find?, erase, h, lookup_filter_self]

/-- Erasing changes no other address. -/
theorem find?_erase_of_ne (fs : FileSystem) {a b : Address} (h : a ≠ b) :
    (fs.erase b).find? a = fs.find? a := by
  simp [find?, erase, lookup_filter_ne _ h]

/-- What was put at an address is there. -/
theorem find?_put_self (fs : FileSystem) {a : Address} (entry : Entry) (h : a ≠ []) :
    (fs.put a entry).find? a = some entry := by
  simp [find?, put, h]

/-- Putting an entry changes no other address. -/
theorem find?_put_of_ne (fs : FileSystem) {a b : Address} (entry : Entry) (h : a ≠ b) :
    (fs.put b entry).find? a = fs.find? a := by
  have hne : (a == b) = false := by simpa using h
  by_cases ha : a = []
  · simp [find?, ha]
  · simp [find?, put, erase, ha, List.lookup_cons, hne, lookup_filter_ne _ h]

/-! ## Following paths -/

/-- The last part of a path that was followed. -/
inductive Last where
  | name (name : String)
  /-- the directory itself -/
  | here
  /-- the directory above -/
  | above
  deriving DecidableEq, Repr

/-- A path followed up to its last part. -/
structure Place where
  /-- an existing directory -/
  directory : Address
  last : Last
  /-- Does the path end with a slash? -/
  slash : Bool
  deriving DecidableEq, Repr

/-- The address that a place stands for, if its last part is a name. -/
def Place.address? (place : Place) : Option Address :=
  match place.last with
  | .name name => some (place.directory ++ [name])
  | .here | .above => none

/-- The greatest length of a name in bytes. -/
def nameLimit : Nat :=
  255

/-- The greatest length of a path in bytes, as it is written. -/
def pathLimit : Nat :=
  4095

/-- What has a name in a directory. -/
def child? (fs : FileSystem) (directory : Address) (name : String) :
    Except FileError (Option Entry) :=
  if nameLimit < name.utf8ByteSize then .error .nameTooLong
  else .ok (fs.find? (directory ++ [name]))

/-- The last part that a piece stands for. -/
def Last.ofPiece : List Char → Last
  | ['.'] => .here
  | ['.', '.'] => .above
  | piece => .name (String.ofList piece)

/-- The directory that a piece leads to. -/
def enter (fs : FileSystem) (directory : Address) (piece : List Char) : Except FileError Address :=
  match Last.ofPiece piece with
  | .here => .ok directory
  | .above => .ok directory.dropLast
  | .name name =>
    match fs.child? directory name with
    | .error e => .error e
    | .ok none => .error .notFound
    | .ok (some (.file _)) => .error .notADirectory
    | .ok (some .directory) => .ok (directory ++ [name])

/-- The directory that pieces lead to. -/
def follow (fs : FileSystem) (directory : Address) : List (List Char) → Except FileError Address
  | [] => .ok directory
  | piece :: pieces =>
    match fs.enter directory piece with
    | .error e => .error e
    | .ok directory => fs.follow directory pieces

/-- The place that pieces lead to. -/
def placeFrom (fs : FileSystem) (start : Address) (pieces : List (List Char)) (slash : Bool) :
    Except FileError Place :=
  match pieces.getLast? with
  | none => .ok ⟨start, .here, true⟩
  | some last =>
    match fs.follow start pieces.dropLast with
    | .error e => .error e
    | .ok directory => .ok ⟨directory, .ofPiece last, slash⟩

/-- Follows a path from where it starts, as `place` does with its pieces. A path that is too long is
refused before any part of it is looked at. -/
def locateBy (place : Address → List (List Char) → Bool → Except FileError Place)
    (workingDirectory : Address) (p : Path) : Except FileError Place :=
  if p.text.toList.contains '\x00' then .error .nulInPath
  else if p.text.isEmpty then .error .notFound
  else if pathLimit < p.text.utf8ByteSize then .error .nameTooLong
  else place (if p.isAbsolute then [] else workingDirectory)
    ((Text.pieces '/' p.text.toList).filter (!·.isEmpty)) (Path.endsWithSlash p.text)

/-- Follows a path up to its last part. -/
def locate (fs : FileSystem) (p : Path) : Except FileError Place :=
  locateBy fs.placeFrom fs.workingDirectory p

/-! ## Operations

Each operation follows its paths and then looks at the places that they lead to. -/

/-- What is at a place. A file's path does not end with a slash. -/
def lookupAt (fs : FileSystem) (place : Place) : Except FileError Entry :=
  match place.last with
  | .here | .above => .ok .directory
  | .name name => do
    match ← fs.child? place.directory name with
    | none => .error .notFound
    | some .directory => .ok .directory
    | some (.file contents) =>
      if place.slash then .error .notADirectory else .ok (.file contents)

/-- What a path names. -/
def lookup (fs : FileSystem) (p : Path) : Except FileError Entry := do
  fs.lookupAt (← fs.locate p)

/-- Does a path name something? -/
def isPresent (fs : FileSystem) (p : Path) : Bool :=
  (fs.lookup p).isOk

/-- Does a path name a directory? -/
def isDirectory (fs : FileSystem) (p : Path) : Bool :=
  match fs.lookup p with
  | .ok .directory => true
  | _ => false

/-- The contents of a file. -/
def readFile (fs : FileSystem) (p : Path) : Except FileError ByteArray := do
  match ← fs.lookup p with
  | .directory => .error .isADirectory
  | .file contents => .ok contents

/-- Makes a directory at a place. -/
def createDirectoryAt (fs : FileSystem) (place : Place) : Except FileError FileSystem :=
  match place.last with
  | .here | .above => .error .alreadyExists
  | .name name => do
    match ← fs.child? place.directory name with
    | some _ => .error .alreadyExists
    | none => .ok (fs.put (place.directory ++ [name]) .directory)

/-- Makes a directory in an existing one. -/
def createDirectory (fs : FileSystem) (p : Path) : Except FileError FileSystem := do
  fs.createDirectoryAt (← fs.locate p)

/-- Writes a file at a place. -/
def writeFileAt (fs : FileSystem) (place : Place) (contents : ByteArray) :
    Except FileError FileSystem :=
  match place.last with
  | .here | .above => .error .isADirectory
  | .name name => do
    if place.slash then .error .isADirectory
    else
      match ← fs.child? place.directory name with
      | some .directory => .error .isADirectory
      | _ => .ok (fs.put (place.directory ++ [name]) (.file contents))

/-- Writes a file, new or in place of an old one. -/
def writeFile (fs : FileSystem) (p : Path) (contents : ByteArray) :
    Except FileError FileSystem := do
  fs.writeFileAt (← fs.locate p) contents

/-- Removes the file at a place. -/
def removeFileAt (fs : FileSystem) (place : Place) : Except FileError FileSystem :=
  match place.last with
  | .here | .above => .error .isADirectory
  | .name name => do
    match ← fs.child? place.directory name with
    | none => .error .notFound
    | some .directory => .error .isADirectory
    | some (.file _) =>
      if place.slash then .error .notADirectory else .ok (fs.erase (place.directory ++ [name]))

/-- Removes a file. -/
def removeFile (fs : FileSystem) (p : Path) : Except FileError FileSystem := do
  fs.removeFileAt (← fs.locate p)

/-- Moves the file at a place to another one. -/
def renameAt (fs : FileSystem) (source target : Place) : Except FileError FileSystem :=
  match source.last, target.last with
  | .name oldName, .name newName => do
    match ← fs.child? source.directory oldName with
    | none => .error .notFound
    | some .directory => .error .isADirectory
    | some (.file contents) =>
      let replaced ← fs.child? target.directory newName
      if source.slash || target.slash then .error .notADirectory
      else if replaced.any Entry.isDirectory then .error .isADirectory
      else
        .ok ((fs.erase (source.directory ++ [oldName])).put (target.directory ++ [newName])
          (.file contents))
  | _, _ => .error .busy

/-- Moves a file, to a new place or over another file. -/
def rename (fs : FileSystem) (source target : Path) : Except FileError FileSystem := do
  let source ← fs.locate source
  let target ← fs.locate target
  fs.renameAt source target

end FileSystem

end WireSchema
