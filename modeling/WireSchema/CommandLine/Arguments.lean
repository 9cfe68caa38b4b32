import WireSchema.CommandLine.Options

/-!
# Command-line arguments

Arguments are read from left to right. A setting takes a value, attached to it or as the next
argument; a switch takes none; a question (for help or the version) ends the reading. Every setting
and switch is given at most once, and the input is required.
-/

namespace WireSchema.CommandLine

/-! ## Flags -/

/-- A flag that takes a value. -/
inductive Setting where
  | input
  | go
  | javaScript
  | goPackage
  deriving DecidableEq, Repr

/-- A flag without a value. -/
inductive Switch where
  | noBigint
  | forceOverwrite
  | collectErrors
  | dumpSchema
  | verbose
  deriving DecidableEq, Repr

/-- A flag that asks about the program. -/
inductive Question where
  | help
  | version
  deriving DecidableEq, Repr

/-- A flag. -/
inductive Flag where
  | setting (setting : Setting)
  | switch (switch : Switch)
  | question (question : Question)
  deriving DecidableEq, Repr

/-- The long names of the flags. -/
def longNames : List (String × Flag) :=
  [("input", .setting .input), ("go", .setting .go), ("js", .setting .javaScript),
    ("go-package", .setting .goPackage), ("js-no-bigint", .switch .noBigint),
    ("force-overwrite", .switch .forceOverwrite), ("collect-errors", .switch .collectErrors),
    ("dump-schema", .switch .dumpSchema), ("verbose", .switch .verbose),
    ("help", .question .help), ("version", .question .version)]

/-- The one-letter names of the flags. -/
def shortNames : List (Char × Flag) :=
  [('i', .setting .input), ('v', .switch .verbose), ('h', .question .help),
    ('V', .question .version)]

/-- May the value of a setting be empty? A path may not. -/
def Setting.allowsEmpty : Setting → Bool
  | .goPackage => true
  | _ => false

/-! ## Words -/

/-- An argument by its form. -/
inductive Word where
  /-- `--`: only plain words follow -/
  | terminator
  /-- `--name` or `--name=value` -/
  | long (name : String) (value : Option String)
  /-- a dash and letters, perhaps with a value behind them -/
  | short (letters : List Char)
  | plain (text : String)
  deriving DecidableEq, Repr

/-- Cuts a text at the first equals sign. -/
def cutValue (cs : List Char) : String × Option String :=
  (String.ofList (cs.takeWhile (· ≠ '=')),
    match cs.dropWhile (· ≠ '=') with
    | [] => none
    | _ :: value => some (String.ofList value))

/-- The form of an argument. A single dash is a plain word. -/
def Word.ofText (text : String) : Word :=
  match text.toList with
  | ['-', '-'] => .terminator
  | '-' :: '-' :: cs => .long (cutValue cs).1 (cutValue cs).2
  | ['-'] => .plain text
  | '-' :: cs => .short cs
  | _ => .plain text

/-! ## Errors -/

/-- Why arguments cannot be understood. -/
inductive UsageError where
  | unexpected (word : String)
  | missingValue (setting : Setting)
  | repeated (flag : Flag)
  | unneededValue (flag : Flag)
  | missingInput
  deriving DecidableEq, Repr

/-- How a flag is shown. -/
def Flag.text (f : Flag) : String :=
  match longNames.find? (·.2 = f) with
  | some (name, _) => "--" ++ name
  | none => ""

/-- The text shown for an error. -/
def UsageError.message : UsageError → String
  | .unexpected word => s!"error: unexpected argument '{word}' found"
  | .missingValue setting =>
    "error: a value is required for '" ++ (Flag.setting setting).text
      ++ "' but none was supplied"
  | .repeated flag => "error: the argument '" ++ flag.text ++ "' cannot be used multiple times"
  | .unneededValue flag =>
    "error: unexpected value for '" ++ flag.text ++ "' found; no more were expected"
  | .missingInput =>
    "error: the following required arguments were not provided:\n  --input <INPUT>"

/-! ## Reading -/

/-- The flags that were given. -/
structure Given where
  settings : List (Setting × String)
  switches : List Switch
  deriving DecidableEq, Repr

/-- Nothing was given. -/
def Given.none : Given :=
  ⟨[], []⟩

/-- What is asked of the program. -/
inductive Request where
  | run (options : Options)
  | answer (question : Question)
  deriving DecidableEq, Repr

/-- Gives a setting a value. -/
def Given.set (g : Given) (s : Setting) (value : String) : Except UsageError Given :=
  if (g.settings.lookup s).isSome then .error (.repeated (.setting s))
  else if value.isEmpty && !s.allowsEmpty then .error (.missingValue s)
  else .ok { g with settings := (s, value) :: g.settings }

/-- Turns a switch on. -/
def Given.turnOn (g : Given) (s : Switch) : Except UsageError Given :=
  if g.switches.contains s then .error (.repeated (.switch s))
  else .ok { g with switches := s :: g.switches }

/-- The package of Go sources, unless another is given. -/
def defaultPackage : String :=
  "main"

/-- The options for what was given. -/
def Given.options (g : Given) : Except UsageError Options :=
  match g.settings.lookup .input with
  | Option.none => .error .missingInput
  | some input => .ok
    { input := ⟨input⟩
      goDirectory := (g.settings.lookup .go).map Path.mk
      javaScriptDirectory := (g.settings.lookup .javaScript).map Path.mk
      goPackage := (g.settings.lookup .goPackage).getD defaultPackage
      noBigint := g.switches.contains .noBigint
      forceOverwrite := g.switches.contains .forceOverwrite
      collectErrors := g.switches.contains .collectErrors
      dumpSchema := g.switches.contains .dumpSchema
      verbose := g.switches.contains .verbose }

/-- Where the reading stands after a word. -/
inductive Progress where
  /-- the word is done -/
  | next (given : Given)
  /-- a setting waits for its value -/
  | pending (given : Given) (setting : Setting)
  /-- a question ends the reading -/
  | asked (question : Question)
  deriving DecidableEq, Repr

/-- Reads a long flag. -/
def readLong (g : Given) (name : String) (value : Option String) : Except UsageError Progress :=
  match longNames.lookup name, value with
  | Option.none, _ => .error (.unexpected ("--" ++ name))
  | some (.setting s), some value => (g.set s value).map .next
  | some (.setting s), Option.none => .ok (.pending g s)
  | some flag, some _ => .error (.unneededValue flag)
  | some (.switch s), Option.none => (g.turnOn s).map .next
  | some (.question q), Option.none => .ok (.asked q)

/-- Reads one-letter flags. What follows a setting's letter is its value, after an equals sign if
there is one. -/
def readShort (g : Given) : List Char → Except UsageError Progress
  | [] => .ok (.next g)
  | c :: cs =>
    match shortNames.lookup c with
    | Option.none => .error (.unexpected ("-" ++ String.singleton c))
    | some (.question q) => .ok (.asked q)
    | some (.switch s) =>
      match g.turnOn s with
      | .error e => .error e
      | .ok g => readShort g cs
    | some (.setting s) =>
      match cs with
      | [] => .ok (.pending g s)
      | '=' :: value => (g.set s (String.ofList value)).map .next
      | value => (g.set s (String.ofList value)).map .next

/-- Reads a word when no setting waits for a value. -/
def readWord (g : Given) : Word → Except UsageError Progress
  | .terminator => .ok (.next g)
  | .long name value => readLong g name value
  | .short letters => readShort g letters
  | .plain text => .error (.unexpected text)

/-- Reads arguments. `waiting` is the setting that waits for a value. -/
def readArguments (g : Given) (waiting : Option Setting) :
    List String → Except UsageError Request
  | [] =>
    match waiting with
    | some s => .error (.missingValue s)
    | Option.none => g.options.map .run
  | text :: rest =>
    match waiting, Word.ofText text with
    | some s, .plain value =>
      match g.set s value with
      | .error e => .error e
      | .ok g => readArguments g Option.none rest
    | some s, _ => .error (.missingValue s)
    | Option.none, .terminator =>
      match rest with
      | [] => g.options.map .run
      | extra :: _ => .error (.unexpected extra)
    | Option.none, word =>
      match readWord g word with
      | .error e => .error e
      | .ok (.next g) => readArguments g Option.none rest
      | .ok (.pending g s) => readArguments g (some s) rest
      | .ok (.asked q) => .ok (.answer q)

/-- What arguments ask for. -/
def Request.ofArguments (arguments : List String) : Except UsageError Request :=
  readArguments Given.none Option.none arguments

end WireSchema.CommandLine
