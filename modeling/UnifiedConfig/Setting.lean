/-!
# Settings

A setting is one option of a section: a name with its values, either a scalar with one value or a
list of values without repetition. Nothing keeps a scalar from holding several values in memory;
only the first of them is ever written to a file.
-/

namespace UnifiedConfig

/-- The kinds of a setting. -/
inductive Setting.Kind where
  /-- A single value, written by an `option` line. -/
  | scalar
  /-- Values in order, each written by a `list` line. -/
  | list
deriving DecidableEq, Repr

namespace Setting.Kind

instance : Inhabited Setting.Kind := ⟨.scalar⟩

/-- The word that begins the line of a setting of this kind. -/
def keyword : Setting.Kind → String
  | .scalar => "option"
  | .list => "list"

/-- The kind whose lines begin with a word. -/
def ofKeyword? (word : String) : Option Setting.Kind :=
  if word = keyword .scalar then some .scalar
  else if word = keyword .list then some .list
  else none

theorem ofKeyword?_keyword (kind : Setting.Kind) : ofKeyword? kind.keyword = some kind := by
  cases kind <;> decide

theorem ofKeyword?_eq_some_iff {word : String} {kind : Setting.Kind} :
    ofKeyword? word = some kind ↔ word = kind.keyword := by
  constructor
  · intro h
    unfold ofKeyword? at h
    split at h
    · next hword => cases h; exact hword
    · split at h
      · next hword => cases h; exact hword
      · cases h
  · rintro rfl
    exact ofKeyword?_keyword kind

end Setting.Kind

/-- A named option with its kind and its values. -/
structure Setting where
  name : String
  kind : Setting.Kind
  values : List String
deriving DecidableEq, Repr

/-- Appends the values that are not there yet, each one once and in the order in which they first
come. Values that are there already are neither moved nor removed. -/
def mergeValues (values more : List String) : List String :=
  more.foldl (fun kept value => if value ∈ kept then kept else kept ++ [value]) values

namespace Setting

/-- Appends a value, whether or not it is there already. -/
def push (o : Setting) (value : String) : Setting :=
  { o with values := o.values ++ [value] }

/-- Merges values into those of the setting, whose kind stays what it is. -/
def merge (o : Setting) (values : List String) : Setting :=
  { o with values := mergeValues o.values values }

end Setting

end UnifiedConfig
