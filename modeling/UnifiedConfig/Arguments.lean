import UnifiedConfig.Command

/-!
# Arguments

The arguments of the program are options, a verb, and the options and operands of the verb. Options
that all verbs share may stand before the verb and after it; those after it win.

An option is long, `--name`, or short, `-n`, and short ones may be written together. The value of an
option that takes one is attached to it (`--name=value`, `-nvalue`, `-n=value`) or is the argument
after it, unless that begins with a dash and is longer than the dash. A lone `--` makes operands of
all arguments after it, and a lone `-` is an operand or a value.

A value is checked, and an option that was given before is refused, when the reading goes on to the
next option or operand, or ends. A request for the version or for help takes effect where it stands,
whatever comes after it; before the verb the arguments after it are read first.
-/

namespace UnifiedConfig

/-- The verbs of the command line. -/
inductive Verb where
  | display
  | print
  | dump
  | read
  | assign
  | append
  | delete
  | add
deriving DecidableEq, Repr

namespace Verb

/-- All verbs. -/
def all : List Verb := [.display, .print, .dump, .read, .assign, .append, .delete, .add]

/-- The word for a verb. -/
def word : Verb → String
  | .display => "show"
  | .print => "export"
  | .dump => "dump"
  | .read => "get"
  | .assign => "set"
  | .append => "add-list"
  | .delete => "delete"
  | .add => "add"

/-- The verb of a word. -/
def ofWord? (word : String) : Option Verb :=
  all.find? (·.word == word)

/-- The operands that a verb takes, as its usage names them. -/
def operands : Verb → String
  | .display => "[ADDRESS]"
  | .print | .dump => "<CONFIG>"
  | .read | .assign | .append | .delete => "<ADDRESS>"
  | .add => "<CONFIG> <SECTION_TYPE> [--name <NAME>]"

/-- The most operands that a verb takes. -/
def arity : Verb → Nat
  | .add => 2
  | _ => 1

/-- The command that a verb makes with its operands and the name that is given by an option, unless
an operand is missing. -/
def command? (verb : Verb) (operands : List String) (name : Option String) : Option Command :=
  match verb, operands with
  | .display, operands => some (.display operands.head?)
  | .print, [config] => some (.print config)
  | .dump, [config] => some (.dump config)
  | .read, [address] => some (.read address)
  | .assign, [address] => some (.assign address)
  | .append, [address] => some (.append address)
  | .delete, [address] => some (.delete address)
  | .add, [config, type] => some (.add config type name)
  | _, _ => none

end Verb

/-- The formats of the log. -/
inductive LogFormat where
  | text
  | json
deriving DecidableEq, Repr

/-- The format that a word means. -/
def LogFormat.ofWord? (word : String) : Option LogFormat :=
  if word = "text" then some .text else if word = "json" then some .json else none

/-- What the program is asked to do, with the options that all commands share. -/
structure Invocation where
  dir : Path
  command : Command
  verbosity : Nat := 0
  logFormat : LogFormat := .text
deriving DecidableEq, Repr

/-- What comes of reading the arguments. -/
inductive Reading where
  | run (invocation : Invocation)
  /-- The version is asked for, of the program or of a verb. -/
  | version (verb : Option Verb)
  /-- Help is asked for, on the program or on a verb. -/
  | help (verb : Option Verb)
  /-- The arguments make no sense. -/
  | refused
deriving DecidableEq, Repr

namespace Arguments

/-! ## Options -/

/-- The options with a value. -/
inductive Valued where
  | configDir
  | logFormat
  | name
deriving DecidableEq, Repr

/-- The options without a value. -/
inductive Flag where
  | verbose
  | version
  | help
deriving DecidableEq, Repr

/-- An option. -/
inductive Key where
  | valued (option : Valued)
  | flag (option : Flag)
deriving DecidableEq, Repr

/-- The option of a long name. The name of a section is given to the verb `add` alone. -/
def ofLong? (verb : Option Verb) (name : String) : Option Key :=
  if name = "config-dir" then some (.valued .configDir)
  else if name = "log-format" then some (.valued .logFormat)
  else if name = "name" ∧ verb = some .add then some (.valued .name)
  else if name = "verbose" then some (.flag .verbose)
  else if name = "version" then some (.flag .version)
  else if name = "help" then some (.flag .help)
  else none

/-- The option of a letter. -/
def ofShort? (verb : Option Verb) (letter : Char) : Option Key :=
  if letter = 'c' then some (.valued .configDir)
  else if letter = 'n' ∧ verb = some .add then some (.valued .name)
  else if letter = 'v' then some (.flag .verbose)
  else if letter = 'V' then some (.flag .version)
  else if letter = 'h' then some (.flag .help)
  else none

/-! ## The state of a reading -/

/-- Why a reading ends before the arguments do. -/
inductive Stop where
  | version (verb : Option Verb)
  | help (verb : Option Verb)
  | refused
deriving DecidableEq, Repr

/-- What has been read before the verb, or after it. -/
structure Part where
  /-- The verb, after it. -/
  verb : Option Verb := none
  configDir : Option String := none
  logFormat : Option LogFormat := none
  name : Option String := none
  /-- How often a verbose log was asked for, if it was. -/
  verbosity : Option Nat := none
  operands : List String := []
  /-- The option read last, if it takes a value, with that value once it is there. -/
  pending : Option (Valued × Option String) := none
  /-- Whether all further arguments are operands. -/
  operandsOnly : Bool := false
deriving DecidableEq, Repr

namespace Part

/-- Takes the value of an option, which must be valid and the first one for the option. -/
def take (p : Part) (option : Valued) (value : String) : Except Stop Part :=
  match option with
  | .configDir =>
    if value = "" ∨ p.configDir.isSome then .error .refused
    else .ok { p with configDir := some value }
  | .logFormat =>
    match LogFormat.ofWord? value, p.logFormat with
    | some format, none => .ok { p with logFormat := some format }
    | _, _ => .error .refused
  | .name =>
    if p.name.isSome then .error .refused else .ok { p with name := some value }

/-- Settles the option read last: its value must be there. -/
def settle (p : Part) : Except Stop Part :=
  match p.pending with
  | none => .ok p
  | some (_, none) => .error .refused
  | some (option, some value) => { p with pending := none }.take option value

/-- Whether the next argument is the value of the option read last. -/
def awaitsValue (p : Part) : Bool :=
  match p.pending with
  | some (_, none) => true
  | _ => false

/-- Reads an option with the value attached to it, if any. -/
def readKey (p : Part) (key : Key) (attached : Option String) : Except Stop Part :=
  match key, attached with
  | .flag _, some _ => .error .refused
  | .flag .verbose, none =>
    p.settle.map fun p => { p with verbosity := some (p.verbosity.getD 0 + 1) }
  | .flag .version, none => p.settle.bind fun p => .error (.version p.verb)
  | .flag .help, none => p.settle.bind fun p => .error (.help p.verb)
  | .valued option, some value => p.settle.bind fun p => p.take option value
  | .valued option, none => p.settle.map fun p => { p with pending := some (option, none) }

/-- Reads a long option, without its dashes. -/
def readLong (p : Part) (body : List Char) : Except Stop Part :=
  let (name, attached) := Text.cut '=' body
  match ofLong? p.verb (String.ofList name) with
  | none => .error .refused
  | some key => p.readKey key (attached.map String.ofList)

/-- Reads short options that are written together, without their dash. -/
def readShorts : Part → List Char → Except Stop Part
  | p, [] => .ok p
  | p, letter :: rest =>
    match ofShort? p.verb letter with
    | none => .error .refused
    | some (.flag flag) => (p.readKey (.flag flag) none).bind fun p => readShorts p rest
    | some (.valued option) =>
      p.readKey (.valued option) <|
        match rest with
        | [] => none
        | '=' :: value => some (String.ofList value)
        | value => some (String.ofList value)

/-- Reads an operand. There are none before the verb, and as many as the verb takes after it. -/
def readOperand (p : Part) (operand : String) : Except Stop Part :=
  p.settle.bind fun p =>
    if p.operands.length < (p.verb.map Verb.arity).getD 0 then
      .ok { p with operands := p.operands ++ [operand] }
    else .error .refused

/-- Reads one argument that is not a verb. -/
def readArgument (p : Part) (argument : String) : Except Stop Part :=
  if p.operandsOnly then p.readOperand argument
  else
    match argument.toList with
    | ['-', '-'] => .ok { p with operandsOnly := true }
    | '-' :: '-' :: body => p.readLong body
    | '-' :: letter :: body => p.readShorts (letter :: body)
    | _ =>
      match p.pending with
      | some (option, none) => .ok { p with pending := some (option, some argument) }
      | _ => p.readOperand argument

/-- Ends a part. The environment may give the directory of configurations if no option does, but not
as the empty path. -/
def finish (p : Part) (environment : Option String) : Except Stop Part :=
  p.settle.bind fun p =>
    if p.configDir.isNone ∧ environment = some "" then .error .refused else .ok p

end Part

/-! ## Reading -/

/-- Reads what comes after a verb. -/
def readAfter (environment : Option String) : Part → List String → Except Stop Part
  | p, [] => p.finish environment
  | p, argument :: rest => (p.readArgument argument).bind fun p => readAfter environment p rest

/-- Reads the arguments after the word `help`, which ask for help on at most one verb. -/
def readHelp : List String → Stop
  | [] => .help none
  | [word] =>
    match Verb.ofWord? word with
    | some verb => .help (some verb)
    | none => if word = "help" then .help none else .refused
  | _ => .refused

/-- What the program is asked to do, from what was read before and after the verb. -/
def invocation (environment : Option String) (before after : Part) : Except Stop Invocation :=
  match after.verb.bind fun verb => verb.command? after.operands after.name with
  | none => .error .refused
  | some command =>
    -- What stands nearest to the operands wins, and the environment comes last.
    let dir := (after.configDir <|> before.configDir <|> environment).map Path.mk
    .ok {
      dir := dir.getD Store.defaultDir
      command
      verbosity := (after.verbosity <|> before.verbosity).getD 0
      logFormat := (after.logFormat <|> before.logFormat).getD .text }

/-- Reads the arguments up to a verb, and the others after it. -/
def readBefore (environment : Option String) : Part → List String → Except Stop Invocation
  | _, [] => .error .refused
  | p, argument :: rest =>
    -- The word of a verb may stand where a value is due, and is no verb there.
    if p.awaitsValue ∨ p.operandsOnly then
      (p.readArgument argument).bind fun p => readBefore environment p rest
    else if argument = "help" then .error (readHelp rest)
    else
      match Verb.ofWord? argument with
      | some verb =>
        -- A fault after the verb, or help asked for there, comes before a fault in the last option
        -- before the verb.
        (readAfter environment { verb := some verb } rest).bind fun after =>
          (p.finish environment).bind fun before => invocation environment before after
      | none => (p.readArgument argument).bind fun p => readBefore environment p rest

/-- Reads the arguments of the program, given the directory that the environment names. -/
def read (environment : Option String) (arguments : List String) : Reading :=
  match readBefore environment {} arguments with
  | .ok invocation => .run invocation
  | .error (.version verb) => .version verb
  | .error (.help verb) => .help verb
  | .error .refused => .refused

/-! ## Texts -/

/-- The name of the program. -/
def programName : String := "uci"

/-- The version of the program. -/
def programVersion : String := "0.1.0"

/-- The text that tells the version. -/
def versionText (verb : Option Verb) : String :=
  let name := match verb with
    | none => programName
    | some verb => s!"{programName}-{verb.word}"
  s!"{name} {programVersion}\n"

/-- The text that tells the usage. -/
def usageText (verb : Option Verb) : String :=
  let verbs := match verb with
    | none => Verb.all
    | some verb => [verb]
  String.join (verbs.map fun verb =>
    s!"Usage: {programName} [OPTIONS] {verb.word} {verb.operands}\n") ++
  "\nOptions:\n" ++
  "  -c, --config-dir <CONFIG_DIR>  directory of the configurations\n" ++
  "  -v, --verbose                  a more verbose log\n" ++
  "      --log-format <LOG_FORMAT>  text or json\n" ++
  "  -h, --help                     this text\n" ++
  "  -V, --version                  the version\n"

end Arguments

end UnifiedConfig
