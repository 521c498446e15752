import OnionCircuit.Settings.Path
import Std.Data.HashMap

/-! A tree of directories and files. -/

namespace OnionCircuit

/-- The names that lead from a file or directory up to the root. -/
abbrev Place := List String

inductive Entry
  | file (content : ByteArray)
  | directory

/-- All entries below the root, which is a directory. -/
structure Storage where
  entries : Std.HashMap Place Entry

namespace Storage

def empty : Storage := ⟨∅⟩

def entry? (storage : Storage) (place : Place) : Option Entry :=
  if place = [] then some .directory else storage.entries[place]?

def isDirectory (storage : Storage) (place : Place) : Bool :=
  match storage.entry? place with
  | some .directory => true
  | _ => false

def insert (storage : Storage) (place : Place) (entry : Entry) : Storage := ⟨storage.entries.insert place entry⟩

/-- A name has at most 255 bytes. -/
def admits (name : String) : Bool := name.utf8ByteSize ≤ 255

/-- Where the steps lead; every one of them starts in a directory. -/
def walk? (storage : Storage) (place : Place) : List Path.Step → Option Place
  | [] => some place
  | step :: steps =>
    if storage.isDirectory place then
      match step with
      | .up => storage.walk? place.tail steps
      | .enter name => if admits name then storage.walk? (name :: place) steps else none
    else none

/-- Where a path leads, whether or not something is there. -/
def locate? (storage : Storage) (path : Path) : Option Place :=
  if path.isSound then storage.walk? [] path.steps else none

/-- What is at the end of a path. -/
def find? (storage : Storage) (path : Path) : Option Entry := do
  match ← storage.entry? (← storage.locate? path) with
  | .directory => return .directory
  | .file content => if path.ofDirectory then none else return .file content

def contains (storage : Storage) (path : Path) : Bool := (storage.find? path).isSome

def file? (storage : Storage) (path : Path) : Option ByteArray :=
  match storage.find? path with
  | some (.file content) => some content
  | _ => none

/-- A file is written where its directory is and no directory is in its place. -/
def write? (storage : Storage) (path : Path) (content : ByteArray) : Option Storage := do
  let place ← storage.locate? path
  if path.ofDirectory || storage.isDirectory place then none else return storage.insert place (.file content)

/-- Makes the directories on a way that starts in a directory, until something is in the way. Also
says whether it came to the end. -/
def makeAlong (storage : Storage) (place : Place) : List Path.Step → Storage × Bool
  | [] => (storage, true)
  | .up :: steps => storage.makeAlong place.tail steps
  | .enter name :: steps =>
    if admits name then
      match storage.entry? (name :: place) with
      | some (.file _) => (storage, false)
      | some .directory => storage.makeAlong (name :: place) steps
      | none => (storage.insert (name :: place) .directory).makeAlong (name :: place) steps
    else (storage, false)

def makeDirectories (storage : Storage) (path : Path) : Storage × Bool :=
  if path.isSound then storage.makeAlong [] path.steps else (storage, false)

/-- Writes a file, and makes the directories that lead to it. -/
def put (storage : Storage) (path : Path) (content : ByteArray) : Storage :=
  let storage := (storage.makeDirectories path.parent).1
  (storage.write? path content).getD storage

end Storage
end OnionCircuit
