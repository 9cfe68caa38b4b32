import WireSchema.Files.Host

/-!
# Machines

A host that is nearer to what a run meets outside than `World` is. An entry can be a symbolic link,
and a file can stand under several names. Some operations go through a link to what it stands for,
others are about the link itself. Every request can be refused, and a write can break off. A machine
without links that grants every request is a `World`.
-/

namespace WireSchema

/-- What a run asks about files. -/
inductive Request where
  | look (p : Path)
  | createDirectory (p : Path)
  | writeFile (p : Path)
  | removeFile (p : Path)
  | rename (source target : Path)
  deriving DecidableEq, Repr

/-- How a request is met. -/
inductive Reply where
  | granted
  | refused (e : FileError)
  /-- only some bytes are written; a request that writes none is refused -/
  | cut (length : Nat) (e : FileError)
  deriving DecidableEq, Repr

/-- The replies to the requests of a run, by the number of requests before them. -/
abbrev Policy : Type :=
  Nat → Request → Reply

/-- Every request is granted. -/
def Policy.lenient : Policy :=
  fun _ _ => .granted

/-- Surroundings with links and a will of their own. -/
structure Machine (policy : Policy) extends World where
  /-- the symbolic links by their addresses, which are no addresses of files and directories -/
  links : List (Address × Path)
  /-- the addresses of files that have several -/
  twins : List (List Address)
  /-- the number of requests so far -/
  clock : Nat

namespace Machine

open FileSystem (Last Place)

variable {policy : Policy}

/-! ## Following links -/

/-- What the link with a name in a directory stands for. -/
def link? (m : Machine policy) (directory : Address) : Last → Option Path
  | .name name => m.links.lookup (directory ++ [name])
  | .here | .above => none

/-- The link at a place. -/
def linkAt? (m : Machine policy) (place : Place) : Option Path :=
  m.link? place.directory place.last

/-- The place that pieces lead to, where `next` goes on at a link. A link that comes last is
followed if it has to be, and before a slash in any case. -/
def walkWith (m : Machine policy)
    (next : Address → List (List Char) → Bool → Except FileError Place) (follow : Bool)
    (directory : Address) (slash : Bool) : List (List Char) → Except FileError Place
  | [] => .ok ⟨directory, .here, true⟩
  | piece :: pieces =>
    match m.link? directory (.ofPiece piece) with
    | some target =>
      if pieces.isEmpty && !follow && !slash then .ok ⟨directory, .ofPiece piece, slash⟩
      else
        next (if target.isAbsolute then [] else directory)
          ((Text.pieces '/' target.text.toList).filter (!·.isEmpty) ++ pieces)
          (slash || (pieces.isEmpty && Path.endsWithSlash target.text))
    | none =>
      if pieces.isEmpty then .ok ⟨directory, .ofPiece piece, slash⟩
      else
        match m.files.enter directory piece with
        | .error e => .error e
        | .ok directory => m.walkWith next follow directory slash pieces

/-- The place that pieces lead to over a number of links at most. -/
def walk (m : Machine policy) (follow : Bool) :
    Nat → Address → List (List Char) → Bool → Except FileError Place
  | 0, directory, pieces, slash =>
    let tooMany _ _ _ := .error (.other "Too many levels of symbolic links (os error 40)")
    m.walkWith tooMany follow directory slash pieces
  | n + 1, directory, pieces, slash => m.walkWith (m.walk follow n) follow directory slash pieces

/-- The greatest number of links on the way to one place. -/
def linkLimit : Nat :=
  40

/-- Follows a path up to its last part, or through it if that is a link to be followed. -/
def locate (m : Machine policy) (follow : Bool) (p : Path) : Except FileError Place :=
  FileSystem.locateBy (m.walk follow linkLimit) m.files.workingDirectory p

/-! ## Operations -/

/-- What a path names. -/
def lookup (m : Machine policy) (p : Path) : Except FileError Entry := do
  m.files.lookupAt (← m.locate true p)

/-- Makes a directory in an existing one. -/
def createDirectory (m : Machine policy) (p : Path) : Except FileError (Machine policy) := do
  let place ← m.locate false p
  if (m.linkAt? place).isSome then .error .alreadyExists
  else return { m with files := ← m.files.createDirectoryAt place }

/-- The other addresses of the file at a place. -/
def twinsOf (m : Machine policy) (place : Place) : List Address :=
  (m.twins.filter fun group => place.address?.any group.contains).flatten

/-- Writes a file, new or in place of an old one, under all its names. -/
def writeFile (m : Machine policy) (p : Path) (contents : ByteArray) :
    Except FileError (Machine policy) := do
  let place ← m.locate true p
  let files ← m.files.writeFileAt place contents
  return { m with files := (m.twinsOf place).foldl (·.put · (.file contents)) files }

/-- Removes a file or a link. -/
def removeFile (m : Machine policy) (p : Path) : Except FileError (Machine policy) := do
  let place ← m.locate false p
  if (m.linkAt? place).isSome then
    return { m with links := m.links.filter fun link => some link.1 != place.address? }
  else
    return { m with
      files := ← m.files.removeFileAt place
      twins := m.twins.map (·.filter (some · != place.address?)) }

/-- Moves what is at a place to another place, where both have addresses. A file is not moved to
another of its own names. -/
def renameAt (m : Machine policy) (source target : Place) : Except FileError (Machine policy) := do
  if (m.twinsOf source).any (some · = target.address?) then return m
  else
    let twins := m.twins.map fun group =>
      (group.filter (some · != target.address?)).map fun address =>
        if some address = source.address? then target.address?.getD address else address
    let links := m.links.filter fun link =>
      some link.1 != source.address? && some link.1 != target.address?
    match m.linkAt? source, target.address? with
    | some link, some address =>
      if m.files.find? address = some .directory then .error .isADirectory
      else
        return { m with
          files := m.files.erase address
          links := (address, link) :: links
          twins }
    | _, _ => return { m with files := ← m.files.renameAt source target, links, twins }

/-- Moves a file or a link. -/
def rename (m : Machine policy) (source target : Path) : Except FileError (Machine policy) := do
  let source ← m.locate false source
  let target ← m.locate false target
  m.renameAt source target

/-! ## Requests -/

/-- The machine after one more request. -/
def tick (m : Machine policy) : Machine policy :=
  { m with clock := m.clock + 1 }

/-- The end of a request: the machine that it leaves, and what is said of it if it could be met. -/
def settle (m : Machine policy) (result : Except FileError Unit) :
    Except FileError (Machine policy) → Except FileError Unit × Machine policy
  | .ok after => (result, after.tick)
  | .error e => (.error e, m.tick)

/-- A request to look at the files. -/
def look {α : Type} (p : Path) (refusal : FileError → α) (f : Machine policy → α) :
    StateM (Machine policy) α := fun m =>
  match policy m.clock (.look p) with
  | .granted => (f m, m.tick)
  | .refused e | .cut _ e => (refusal e, m.tick)

/-- A request to change the files. -/
def change (request : Request) (f : Machine policy → Except FileError (Machine policy)) :
    StateM (Machine policy) (Except FileError Unit) := fun m =>
  match policy m.clock request with
  | .granted => m.settle (.ok ()) (f m)
  | .refused e | .cut _ e => (.error e, m.tick)

/-- A request to write a file. If it is cut, the file is there with its first bytes. -/
def write (p : Path) (contents : ByteArray) : StateM (Machine policy) (Except FileError Unit) :=
  fun m =>
    match policy m.clock (.writeFile p) with
    | .granted => m.settle (.ok ()) (m.writeFile p contents)
    | .refused e => (.error e, m.tick)
    | .cut length e => m.settle (.error e) (m.writeFile p (contents.extract 0 length))

instance : Host (StateM (Machine policy)) where
  readFile p := look p .error fun m => do
    match ← m.lookup p with
    | .directory => .error .isADirectory
    | .file contents => .ok contents
  isPresent p := look p (fun _ => false) fun m => (m.lookup p).isOk
  isDirectory p := look p (fun _ => false) fun m => (m.lookup p).toOption.any Entry.isDirectory
  createDirectory p := change (.createDirectory p) (·.createDirectory p)
  writeFile p contents := write p contents
  removeFile p := change (.removeFile p) (·.removeFile p)
  rename source target := change (.rename source target) (·.rename source target)
  readLine := fun m => ((firstLine m.input).1, { m with input := (firstLine m.input).2 })
  print text := fun m => ((), { m with output := m.output ++ text })
  report line := fun m => ((), { m with errors := m.errors ++ [line] })

/-- A world as a machine without links, after a number of requests. -/
def ofWorld (w : World) (clock : Nat) : Machine policy :=
  { toWorld := w, links := [], twins := [], clock }

end Machine

end WireSchema
