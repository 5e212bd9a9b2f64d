/-
  LispCore — files.

  * `FileStore`: the files and directories of the working directory, each under
    the list of names that leads to it;
  * `FileStore.write`, `FileStore.makeDirectory`: additions to it, which also
    make the directories on the way;
  * `FileStore.read`: the bytes of the file that a path names.  A path is walked
    name by name, and the first obstacle is the fault.

  Outside the working directory nothing exists but the directories that lead to
  it.
-/
import LispCore.File.Fault

namespace LispCore

/-- What a list of names leads to. -/
inductive FileEntry where
  | file (bytes : List UInt8)
  | directory
  deriving DecidableEq

/-- The contents of the working directory; of two entries under the same names the
    first one counts. -/
structure FileStore where
  entries : List (List String × FileEntry)
  deriving DecidableEq

/-- The names in a path and whether it ends with a slash.  The last name is empty
    if it does. -/
def splitPath (path : List Char) : List (List Char) :=
  path.foldr
    (fun c names =>
      if c = '/' then [] :: names
      else
        match names with
        | [] => [[c]]
        | name :: rest => (c :: name) :: rest)
    [[]]

/-- Where a walk along a path stands. -/
inductive Place where
  /-- Under the given names in the working directory. -/
  | inside (names : List String)
  /-- In a directory outside the working directory. -/
  | outside
  deriving DecidableEq

/-- How many bytes a path can have at most. -/
def maxPathBytes : Nat := 4095

/-- How many bytes a name can have at most. -/
def maxNameBytes : Nat := 255

namespace FileStore

/-- No files. -/
def empty : FileStore := ⟨[]⟩

/-- The names that lead from the working directory to where a path leads, if it has
    no way back in it. -/
def namesOf (path : String) : List String :=
  ((splitPath path.toList).map String.ofList).filter fun name => name ≠ "" ∧ name ≠ "."

/-- Writes a file, in place of what was there. -/
def write (store : FileStore) (path : String) (bytes : List UInt8) : FileStore :=
  ⟨(namesOf path, .file bytes) :: store.entries⟩

/-- Makes a directory. -/
def makeDirectory (store : FileStore) (path : String) : FileStore :=
  ⟨(namesOf path, .directory) :: store.entries⟩

/-- What the names lead to: an entry of its own, or a directory that leads to one.
    The working directory itself is there always. -/
def find? (store : FileStore) (names : List String) : Option FileEntry :=
  match store.entries.lookup names with
  | some entry => some entry
  | none =>
    if names = [] ∨ store.entries.any (fun entry => names.isPrefixOf entry.1) then some .directory
    else none

/-- One step of a walk from a directory. -/
def step (store : FileStore) (place : Place) (name : String) : Except FileFault Place :=
  if name = "" ∨ name = "." then .ok place
  else
    match place with
    | .outside => if name = ".." then .ok .outside else .error .notFound
    | .inside names =>
      if name = ".." then .ok (if names = [] then .outside else .inside names.dropLast)
      else if (store.find? (names ++ [name])).isSome then .ok (.inside (names ++ [name]))
      else .error .notFound

/-- Whether a walk stands at a file, and its bytes. -/
def fileAt? (store : FileStore) (place : Place) : Option (List UInt8) :=
  match place with
  | .outside => none
  | .inside names =>
    match store.find? names with
    | some (.file bytes) => some bytes
    | _ => none

/-- The walk along the names of a path.  A step can only be taken from a directory,
    and a name that is too long is only noticed when its turn comes. -/
def walk (store : FileStore) (place : Place) : List String → Except FileFault Place
  | [] => .ok place
  | name :: rest =>
    if (store.fileAt? place).isSome then .error .notDirectory
    else if maxNameBytes < name.utf8ByteSize then .error .nameTooLong
    else do
      let next ← store.step place name
      walk store next rest

/-- The bytes of the file that a path names, or the first obstacle on the way. -/
def read (store : FileStore) (path : String) : Except FileFault (List UInt8) :=
  if '\x00' ∈ path.toList then .error .nullInPath
  else if path = "" then .error .notFound
  else if maxPathBytes < path.utf8ByteSize then .error .nameTooLong
  else do
    let start : Place := if path.toList.head? = some '/' then .outside else .inside []
    let place ← store.walk start ((splitPath path.toList).map String.ofList)
    match store.fileAt? place with
    | some bytes => .ok bytes
    | none => .error .isDirectory

end FileStore

end LispCore
