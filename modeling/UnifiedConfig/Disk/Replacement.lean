import UnifiedConfig.Error

/-!
# Replacing a file

A file is replaced as a whole: the new content is written to a temporary file beside it, which then
takes its place. The temporary file of `name` is `.name.tmp` in the same directory, and the
directory is made if it does not exist. When a step fails, the temporary file is removed and the
file is what it was before.

A journal keeps, beside a disk, the changes that were made to it. After any number of these changes
the file holds either what it held before or all of the new content.
-/

namespace UnifiedConfig

/-- A disk and the changes that were made to it, the oldest first. -/
structure Journal where
  disk : Disk
  changes : List Change := []

namespace Journal

/-- Performs a change and notes it. -/
def perform (j : Journal) (change : Change) : Except FileError Journal :=
  (j.disk.perform change).map fun disk => { disk, changes := j.changes ++ [change] }

/-- Removes a file that is no longer needed, and leaves it where that fails. -/
def discard (j : Journal) (path : Path) : Journal :=
  match j.perform (.remove path) with
  | .ok j => j
  | .error _ => j

/-- Makes those directories that do not exist yet, one after the other. A file in the place of one
of them ends this, and those that were made before stay. -/
def makeDirectories : Journal → List Path → Except FileError Unit × Journal
  | j, [] => (.ok (), j)
  | j, path :: rest =>
    match j.disk.find path with
    | .error fault => (.error fault, j)
    | .ok (some (.directory _)) => makeDirectories j rest
    | .ok (some (.file _)) => (.error .alreadyExists, j)
    | .ok none =>
      match j.perform (.makeDirectory path) with
      | .error fault => (.error fault, j)
      | .ok j => makeDirectories j rest

/-- Makes the directory of a path, and those on the way to it, if nothing stands there. -/
def makeWay (j : Journal) (path : Path) : Except FileError Unit × Journal :=
  match j.disk.find path with
  | .ok (some _) => (.ok (), j)
  | .ok none | .error .missing => j.makeDirectories path.stages
  -- The way ends at a file before anything is missing on it, or the path is none.
  | .error fault => (.error fault, j)

end Journal

/-- The temporary file beside a file, unless the path is not that of a file. -/
def Path.temporary? (path : Path) : Option Path :=
  path.fileName?.map fun name => (path.parent?.getD ⟨"."⟩).join ("." ++ name ++ ".tmp")

namespace Journal

/-- Makes the directory of a file, and those on the way to it, if nothing stands there. -/
def makeParent (j : Journal) (path : Path) : Except Error Unit × Journal :=
  match path.parent? with
  | none => (.ok (), j)
  | some parent =>
    -- A path without a slash has the empty path as its parent, and lies in a directory that exists.
    if parent.text = "" then (.ok (), j)
    else
      match j.makeWay parent with
      | (.error fault, j) => (.error (.file (.makeDirectory parent) fault), j)
      | (.ok (), j) => (.ok (), j)

/-- Writes to a temporary file and moves it over a file. -/
def replaceBy (j : Journal) (temporary path : Path) (content : Content) :
    Except Error Unit × Journal :=
  match j.perform (.create temporary) with
  | .error fault => (.error (.file (.createTemporary temporary) fault), j)
  | .ok j =>
    match j.perform (.write temporary content) with
    | .error fault => (.error (.file (.writeTemporary temporary) fault), j.discard temporary)
    | .ok j =>
      match j.perform (.rename temporary path) with
      | .error fault => (.error (.file (.replace path) fault), j.discard temporary)
      | .ok j => (.ok (), j)

/-- Replaces the content of a file, or makes the file, so that it never holds anything else. -/
def replaceFile (j : Journal) (path : Path) (content : Content) : Except Error Unit × Journal :=
  match j.makeParent path with
  | (.error e, j) => (.error e, j)
  | (.ok (), j) =>
    match path.temporary? with
    | none => (.error (.refused (.invalidFilePath path)), j)
    | some temporary => j.replaceBy temporary path content

end Journal

end UnifiedConfig
