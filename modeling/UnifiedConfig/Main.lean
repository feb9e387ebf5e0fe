import UnifiedConfig.Arguments

/-!
# The program

Reads the arguments, takes a picture of the directory of configurations, runs the command on it,
makes the changes that the command asks for, and prints what it gives. Nothing is decided here.
-/

namespace UnifiedConfig.Program

/-- Adds to a disk what stands at a path of the machine, as far as a command can see it: whether it
is a directory or a file. -/
def pictureOf (d : Disk) (path : Path) : IO Disk := do
  let change ← try
      let there ← IO.FS.realPath path.text
      pure (if ← there.isDir then some (Change.makeDirectory path) else some (Change.create path))
    catch _ => pure none
  return (change.bind fun change => (d.perform change).toOption).getD d

/-- The directory of configurations with the files in it. -/
def picture (dir : Path) : IO Disk := do
  let mut d := Disk.empty
  for stage in dir.stages do
    d ← pictureOf d stage
  if let .ok _ := d.list dir then
    let there ← IO.FS.realPath dir.text
    for entry in ← there.readDir do
      let path := dir.join entry.fileName
      d ← pictureOf d path
      unless ← entry.path.isDir do
        let content := Content.ofBytes (← IO.FS.readBinFile entry.path)
        d := (d.perform (.write path content)).toOption.getD d
  return d

/-- Makes a change on the machine. -/
def perform : Change → IO Unit
  | .makeDirectory path => IO.FS.createDir path.text
  | .create path => IO.FS.writeFile path.text ""
  | .write path (.text s) => IO.FS.writeFile path.text s
  | .write path (.binary bytes) => IO.FS.writeBinFile path.text ⟨bytes.toArray⟩
  | .rename source target => IO.FS.rename source.text target.text
  | .remove path => IO.FS.removeFile path.text

/-- Runs a command, and gives the exit code. -/
def run (invocation : Invocation) : IO UInt32 := do
  let o := invocation.command.run invocation.dir (← picture invocation.dir)
  o.journal.changes.forM perform
  match o.result with
  | .ok text => IO.print text
  | .error e => IO.eprintln s!"Error: {e.message}"
  return o.exitCode.toUInt32

/-- The exit code where the arguments make no sense. -/
def usageExitCode : UInt32 := 2

end UnifiedConfig.Program

open UnifiedConfig in
/-- The command line. -/
def main (arguments : List String) : IO UInt32 := do
  match Arguments.read (← IO.getEnv Store.dirVariable) arguments with
  | .run invocation => Program.run invocation
  | .version verb => IO.print (Arguments.versionText verb); return 0
  | .help verb => IO.print (Arguments.usageText verb); return 0
  | .refused => IO.eprint (Arguments.usageText none); return Program.usageExitCode
