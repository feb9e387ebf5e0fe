import UnifiedConfig.Store.Basic

/-!
# Sessions

A session is a store and the disk that it works on, while nobody else writes to the disk. What a
session is asked for is data, so that a run is a list of requests (`Session.run`), and what one
request does is one function (`Session.step`). Only a commit changes the disk.

A request gets an answer. Two of them, which load a configuration, are also handed the whole of it,
so that what a request is told is both (`Session.reply`).
-/

namespace UnifiedConfig

/-- What a store can be asked for. -/
inductive Request where
  | load (config : String)
  | ensure (config : String)
  | names
  | get (config selector setting : String)
  | getLast (config selector setting : String)
  | getBool (config selector setting : String)
  | set (config selector setting : String) (kind : Setting.Kind) (values : List String)
  | addToList (config selector setting value : String)
  | addSection (config type : String) (name : Option String)
  | deleteSection (config selector : String)
  | deleteSetting (config selector setting : String)
  | commit
  | revert (config : String)
  /-- Begins with a new store on a directory. -/
  | reopen (dir : Path)
deriving DecidableEq, Repr

/-- What a store answers if nothing is wrong. -/
inductive Answer where
  | done
  | flag (b : Bool)
  | flag? (b : Option Bool)
  | text (s : String)
  | text? (s : Option String)
  | texts (l : List String)
  | texts? (l : Option (List String))
deriving DecidableEq, Repr

/-- A store and the disk that it works on. -/
structure Session where
  store : Store
  disk : Disk

namespace Session

/-- The outcome of a request that leaves the disk as it is. -/
def keepDisk {α : Type} (disk : Disk) (answer : α → Answer) (outcome : Except Error α × Store) :
    Except Error Answer × Session :=
  (outcome.1.map answer, { store := outcome.2, disk })

/-- What a request does. -/
def step (w : Session) : Request → Except Error Answer × Session
  | .load config =>
    keepDisk w.disk .text (w.store.query (w.store.load w.disk config) fun c => .ok c.name)
  | .ensure config =>
    keepDisk w.disk .text (w.store.query (w.store.ensure w.disk config) fun c => .ok c.name)
  | .names => keepDisk w.disk .texts (w.store.configNames w.disk, w.store)
  | .get config selector setting =>
    keepDisk w.disk .texts? (w.store.get w.disk config selector setting)
  | .getLast config selector setting =>
    keepDisk w.disk .text? (w.store.getLast w.disk config selector setting)
  | .getBool config selector setting =>
    keepDisk w.disk .flag? (w.store.getBool w.disk config selector setting)
  | .set config selector setting kind values =>
    keepDisk w.disk (fun _ => .done) (w.store.set w.disk config selector setting kind values)
  | .addToList config selector setting value =>
    keepDisk w.disk (fun _ => .done) (w.store.addToList w.disk config selector setting value)
  | .addSection config type name =>
    keepDisk w.disk .text (w.store.addSection w.disk config type name)
  | .deleteSection config selector =>
    keepDisk w.disk .flag (w.store.deleteSection w.disk config selector)
  | .deleteSetting config selector setting =>
    keepDisk w.disk .flag (w.store.deleteSetting w.disk config selector setting)
  | .commit =>
    let (outcome, store, journal) := w.store.commit w.disk
    (outcome.map fun _ => .done, { store, disk := journal.disk })
  | .revert config =>
    let (dropped, store) := w.store.revert config
    (.ok (.flag dropped), { w with store })
  | .reopen dir => (.ok .done, { w with store := { dir } })

/-- The configuration that a request is handed: the one that is loaded, if it asks for one. -/
def handedOut? (w : Session) : Request → Option Config
  | .load config => (w.store.load w.disk config).toOption.map (·.1)
  | .ensure config => (w.store.ensure w.disk config).toOption.map (·.1)
  | _ => none

/-- All that a request is told. -/
structure Reply where
  answer : Except Error Answer
  handedOut? : Option Config

/-- What a request is told by a session. -/
def reply (w : Session) (r : Request) : Reply where
  answer := (w.step r).1
  handedOut? := w.handedOut? r

/-- The session after a run of requests. -/
def run (w : Session) (requests : List Request) : Session :=
  requests.foldl (fun w request => (w.step request).2) w

end Session

end UnifiedConfig
