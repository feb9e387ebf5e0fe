import UnifiedConfig.Config.Deletion
import UnifiedConfig.Config.Edit
import UnifiedConfig.Config.Parser
import UnifiedConfig.Config.Printer
import UnifiedConfig.Disk.Replacement
import UnifiedConfig.Store.Loaded

/-!
# Stores

A store keeps the configurations of one directory. Each file of the directory is a configuration
that is named after it. A configuration is read when it is first asked for and stays loaded; edits
change what is loaded, and a commit writes back whatever is tainted, one file after the other by
name.

All but a commit read the disk at most. Each operation gives its outcome and the store after it: the
store may differ also when the outcome is an error, as the configuration may have been loaded
before.
-/

namespace UnifiedConfig

/-- The configurations of a directory that are loaded. -/
structure Store where
  dir : Path
  loaded : Loaded := []

namespace Store

/-! ## Files -/

/-- Whether a text names a configuration: it is not empty, not `.` or `..`, and has no slash and no
backslash. -/
def isConfigName (name : String) : Bool :=
  name ≠ "" && name ≠ "." && name ≠ ".." && !name.toList.any fun c => c = '/' || c = '\\'

/-- The path of the file of a configuration. -/
def configPath (s : Store) (name : String) : Except Error Path :=
  if isConfigName name then .ok (s.dir.join name) else .error (.refused (.invalidConfigName name))

/-- Whether an entry of the directory is a configuration to be listed: a file that is not hidden. -/
def isListed : String × Node → Bool
  | (name, .file _) => name.toList.head? ≠ some '.'
  | (_, .directory _) => false

/-- The names of the configurations in the directory, in ascending order. -/
def configNames (s : Store) (disk : Disk) : Except Error (List String) :=
  match disk.list s.dir with
  | .error fault => .error (.file (.listConfigs s.dir) fault)
  | .ok entries => .ok (((entries.filter isListed).map (·.1)).mergeSort fun a b => decide (a ≤ b))

/-- Reads the file of a configuration. -/
def readConfig (disk : Disk) (path : Path) (name : String) : Except Error Config :=
  match disk.readText path with
  | .error .missing => .error (.notFound (.config name))
  | .error fault => .error (.file (.readConfig path) fault)
  | .ok text => Config.parse name text

/-! ## Loading -/

/-- The configuration of a name and the store that has it loaded. -/
abbrev Opened := Except Error (Config × Store)

/-- Loads a configuration, unless it is loaded already; `read` gives it from its file. -/
def openWith (s : Store) (name : String) (read : Path → Except Error Config) : Opened :=
  match s.configPath name with
  | .error e => .error e
  | .ok path =>
    match s.loaded.find? name with
    | some c => .ok (c, s)
    | none =>
      match read path with
      | .error e => .error e
      | .ok c => .ok (c, { s with loaded := s.loaded.put name c })

/-- Loads a configuration whose file has to exist. -/
def load (s : Store) (disk : Disk) (name : String) : Opened :=
  s.openWith name fun path => readConfig disk path name

/-- Loads a configuration, which is empty if its file does not exist. -/
def ensure (s : Store) (disk : Disk) (name : String) : Opened :=
  s.openWith name fun path =>
    match readConfig disk path name with
    -- Nothing but the file is looked for, so it is the file that is missing.
    | .error (.notFound _) => .ok { name }
    | result => result

/-- Forgets what is loaded of a configuration, so that the next use reads its file again, and tells
whether anything was. -/
def revert (s : Store) (name : String) : Bool × Store :=
  ((s.loaded.find? name).isSome, { s with loaded := s.loaded.remove name })

/-! ## Reading and editing -/

/-- Asks a configuration for something. -/
def query {α : Type} (s : Store) (opened : Opened) (ask : Config → Except Error α) :
    Except Error α × Store :=
  match opened with
  | .error e => (.error e, s)
  | .ok (c, s) => (ask c, s)

/-- Edits a configuration. -/
def edit {α : Type} (s : Store) (opened : Opened) (name : String)
    (change : Config → Except Error (α × Config)) : Except Error α × Store :=
  match opened with
  | .error e => (.error e, s)
  | .ok (c, s) =>
    match change c with
    | .error e => (.error e, s)
    | .ok (a, c) => (.ok a, { s with loaded := s.loaded.put name c })

/-- The values of a setting. -/
def get (s : Store) (disk : Disk) (config selector setting : String) :
    Except Error (Option (List String)) × Store :=
  s.query (s.load disk config) fun c => (c.values? selector setting).mapError .selector

/-- The last value of a setting. -/
def getLast (s : Store) (disk : Disk) (config selector setting : String) :
    Except Error (Option String) × Store :=
  s.query (s.load disk config) fun c => (c.lastValue? selector setting).mapError .selector

/-- The values that count as true, in lower case. -/
def trueValues : List String := ["1", "on", "true", "yes", "enabled"]

/-- Whether a value counts as true, in whatever case it is written. ASCII letters alone have to be
lowered: no other character has one of the letters of these words alone as its lower case. -/
def isTrue (value : String) : Bool :=
  trueValues.contains value.toLower

/-- Whether the last value of a setting counts as true. -/
def getBool (s : Store) (disk : Disk) (config selector setting : String) :
    Except Error (Option Bool) × Store :=
  s.query (s.load disk config) fun c =>
    ((c.lastValue? selector setting).map (·.map isTrue)).mapError .selector

/-- Replaces the kind and the values of a setting. -/
def set (s : Store) (disk : Disk) (config selector setting : String) (kind : Setting.Kind)
    (values : List String) : Except Error Unit × Store :=
  s.edit (s.load disk config) config (·.setValues selector setting kind values)

/-- Appends a value to a list unless it is there already. -/
def addToList (s : Store) (disk : Disk) (config selector setting value : String) :
    Except Error Unit × Store :=
  s.edit (s.load disk config) config (·.addToList selector setting value)

/-- Adds a section, to a new configuration if there is none of the name, and gives the name that the
section goes by. -/
def addSection (s : Store) (disk : Disk) (config type : String) (name : Option String) :
    Except Error String × Store :=
  if type = "" then (.error (.refused .emptyType), s)
  else s.edit (s.ensure disk config) config (·.addSection type name)

/-- Deletes a section, and tells whether there was one to delete. -/
def deleteSection (s : Store) (disk : Disk) (config selector : String) :
    Except Error Bool × Store :=
  s.edit (s.load disk config) config fun c => .ok (c.delete selector)

/-- Removes a setting, and tells whether it was there. -/
def deleteSetting (s : Store) (disk : Disk) (config selector setting : String) :
    Except Error Bool × Store :=
  s.edit (s.load disk config) config (·.deleteSetting selector setting)

/-! ## Committing -/

/-- Writes the tainted ones of some configurations to their files, up to the first that fails, and
marks those clean that are written. -/
def commitAll (dir : Path) : Loaded → Journal → Except Error Unit × Loaded × Journal
  | [], j => (.ok (), [], j)
  | (name, c) :: rest, j =>
    if c.tainted then
      match j.replaceFile (dir.join name) (.text c.render) with
      -- This configuration and those after it stay tainted for the next commit.
      | (.error e, j) => (.error e, (name, c) :: rest, j)
      | (.ok (), j) =>
        let (outcome, rest, j) := commitAll dir rest j
        (outcome, (name, c.markClean) :: rest, j)
    else
      let (outcome, rest, j) := commitAll dir rest j
      (outcome, (name, c) :: rest, j)

/-- Writes every tainted configuration back. The journal has the disk after it, and what was
changed. -/
def commit (s : Store) (disk : Disk) : Except Error Unit × Store × Journal :=
  let (outcome, loaded, journal) := commitAll s.dir s.loaded { disk }
  (outcome, { s with loaded }, journal)

/-! ## The directory -/

/-- The directory of configurations where nothing else is said. -/
def defaultDir : Path := ⟨"/etc/config"⟩

/-- The environment variable that names the directory of configurations. -/
def dirVariable : String := "UCI_CONFIG_DIR"

/-- The directory that the environment names, if it does and the name is not empty. -/
def dirFrom (named : Option String) : Path :=
  match named with
  | none => defaultDir
  | some dir => if dir = "" then defaultDir else ⟨dir⟩

end Store

end UnifiedConfig
