import UnifiedConfig.Disk.Basic

/-!
# Listing a disk

Every file and directory of a disk with the location that leads to it, a directory before what it
holds.
-/

namespace UnifiedConfig

/-- A file or a directory, without what is in the directory. -/
inductive Entry where
  | file (content : Content)
  | directory
deriving DecidableEq, Repr

namespace Node

/-- A node without what is below it. -/
def entry : Node → Entry
  | .file content => .file content
  | .directory _ => .directory

mutual

/-- What stands at a location and below it. -/
def listing (place : Location) : Node → List (Location × Entry)
  | .file content => [(place, .file content)]
  | .directory entries => (place, .directory) :: listingAll place entries

/-- What stands below a location, from the entries of its directory. -/
def listingAll (place : Location) : List (String × Node) → List (Location × Entry)
  | [] => []
  | (name, child) :: rest => listing (place ++ [name]) child ++ listingAll place rest

end

end Node

end UnifiedConfig
