import UnifiedConfig.Text.Split

/-!
# Paths

A path is kept as it was typed, because messages show it that way. Its pieces lie between the
slashes. Empty pieces and `.` at the end belong neither to the file name of a path nor to its
parent. A `.` that begins a path does count: the path `.` has a parent, which is the empty path, and
no file name.
-/

namespace UnifiedConfig

/-- A path as typed. -/
structure Path where
  text : String
deriving DecidableEq, Repr

/-- What a piece of a path says: stay in a directory, go up, or go down to an entry. -/
inductive Path.Step where
  | here
  | up
  | down (name : String)
deriving DecidableEq, Repr

namespace Path

/-- The pieces of a path. There is at least one. -/
def pieces (p : Path) : List String :=
  (Text.splitAll '/' p.text.toList).map String.ofList

/-- The path that pieces make. -/
def ofPieces (pieces : List String) : Path :=
  ⟨String.intercalate "/" pieces⟩

/-- The steps that lead along a path. -/
def steps (p : Path) : List Step :=
  p.pieces.filterMap fun piece =>
    if piece = "" then none
    else if piece = "." then some .here
    else if piece = ".." then some .up
    else some (.down piece)

/-- Whether a path ends in a slash, so that it can only lead to a directory. -/
def endsInSlash (p : Path) : Bool :=
  p.text.endsWith '/'

/-- Whether the last step along a path goes down to an entry, so that the path tells where the entry
stands. -/
def leadsDown (p : Path) : Bool :=
  match p.steps.getLast? with
  | some (.down _) => true
  | _ => false

/-- The path of an entry of a directory. -/
def join (p : Path) (name : String) : Path :=
  if p.text = "" then ⟨name⟩
  else if p.endsInSlash then ⟨p.text ++ name⟩
  else ⟨p.text ++ "/" ++ name⟩

/-- The pieces without those at the end that say nothing; the first piece always stays. -/
def trim : List String → List String
  | [] => []
  | first :: more =>
    first :: (more.reverse.dropWhile fun piece => piece = "" || piece = ".").reverse

/-- The name of the file or directory that a path leads to, unless it is the root, `.` or `..`. -/
def fileName? (p : Path) : Option String :=
  match (trim p.pieces).getLast? with
  | none => none
  | some last => if last = "" ∨ last = "." ∨ last = ".." then none else some last

/-- The path without its last piece, if it has one: the empty path if it is the only one. -/
def parent? (p : Path) : Option Path :=
  match trim p.pieces with
  | [] => none
  | [only] => if only = "" then none else some ⟨""⟩
  | pieces =>
    let rest := trim pieces.dropLast
    some (if rest = [""] then ⟨"/"⟩ else ofPieces rest)

/-- The paths made of some pieces and one, two, … of those that follow them. -/
def pathsFrom (walked : List String) : List String → List Path
  | [] => []
  | piece :: rest => ofPieces (walked ++ [piece]) :: pathsFrom (walked ++ [piece]) rest

/-- The paths to each place on the way along a path, the path itself last. -/
def stages (p : Path) : List Path :=
  (pathsFrom [] p.pieces).filter (·.text ≠ "")

end Path

end UnifiedConfig
