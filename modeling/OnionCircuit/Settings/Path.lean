/-! Paths as they are written. A path is walked step by step, so a step up leads out of
the directory that was entered before it, and every step but the last needs one. -/

namespace OnionCircuit

inductive Path.Step
  | up
  | enter (name : String)
deriving DecidableEq

/-- A path from the root. -/
structure Path where
  /-- What stands between the slashes of its text. -/
  names : List String
deriving DecidableEq

namespace Path

def ofText (text : String) : Path := ⟨(text.toList.splitOn '/').map String.ofList⟩

/-- A name that is empty or a dot leads nowhere. -/
def step? (name : String) : Option Step :=
  if name = "" ∨ name = "." then none
  else if name = ".." then some .up
  else some (.enter name)

def steps (path : Path) : List Step := path.names.filterMap step?

/-- Whether the end of the text says that only a directory is meant. -/
def ofDirectory (path : Path) : Bool := (path.names.getLast?.bind step?).isNone

/-- The names up to the last one that leads somewhere. -/
def trimmed (names : List String) : List String := (names.reverse.dropWhile fun name => (step? name).isNone).reverse

/-- Where the last step starts. -/
def parent (path : Path) : Path := ⟨trimmed (trimmed path.names).dropLast⟩

/-- How many bytes the text has, with one more to end it. -/
def size (path : Path) : Nat := path.names.foldl (fun size name => size + name.utf8ByteSize + 1) 0

/-- A path has at most 4096 bytes, and only the one that ends it is zero. -/
def isSound (path : Path) : Bool := path.size ≤ 4096 && path.names.all fun name => !name.toList.contains '\x00'

/-- The text of a path to a name below a directory. -/
def join (directory name : String) : String := if directory.endsWith "/" then directory ++ name else directory ++ "/" ++ name

end Path
end OnionCircuit
