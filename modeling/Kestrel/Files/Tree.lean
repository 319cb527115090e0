import Kestrel.Files.Error
import Kestrel.Text.Pieces

/-!
# File trees

A file tree is kept as a list of files, each with the names that lead to it from the root. There is
a directory wherever a file lies below, and at the working directory.

## Main definitions

- `FileTree` — the files and the working directory
- `FileTree.resolve` — where a path leads
- `FileTree.read`, `FileTree.write` — the contents of a file

## Design notes

Paths are followed step by step, and the first step that is not possible decides the error. Two dots
lead to the directory above, also where a file tree has nothing else; above the root is the root.
-/

namespace Kestrel

/-- The names that lead to a place from the root. -/
abbrev Place := List String

/-- Files, with the working directory. -/
structure FileTree where
  directory : Place
  files : List (Place × ByteArray)

namespace FileTree

/-- The contents of a file, if there is one at this place. -/
def contents? (tree : FileTree) (place : Place) : Option ByteArray :=
  tree.files.lookup place

/-- Whether a directory is at this place. -/
def isDirectory (tree : FileTree) (place : Place) : Bool :=
  place.isPrefixOf tree.directory ||
    tree.files.any fun (file, _) => place.isPrefixOf file && place != file

/-- Puts a file at a place, instead of the one that is there. -/
def put (tree : FileTree) (place : Place) (contents : ByteArray) : FileTree :=
  { tree with files := (place, contents) :: tree.files.filter (·.1 != place) }

@[simp] theorem contents?_put_self (tree : FileTree) (place : Place) (contents : ByteArray) :
    (tree.put place contents).contents? place = some contents := by
  simp [put, contents?]

/-- Putting a file changes no other file. -/
theorem contents?_put_of_ne {place other : Place} (h : other ≠ place) (tree : FileTree)
    (contents : ByteArray) :
    (tree.put place contents).contents? other = tree.contents? other := by
  simp only [put, contents?, List.lookup_cons, beq_false_of_ne h]
  induction tree.files with
  | nil => rfl
  | cons file files ih =>
    obtain ⟨name, bytes⟩ := file
    by_cases hf : name = place
    · subst hf
      simpa [List.lookup_cons, beq_false_of_ne h] using ih
    · simp only [List.filter_cons, bne_iff_ne, ne_eq, hf, not_false_eq_true, if_true,
        List.lookup_cons]
      rw [ih]

/-- The longest path and the longest name that are allowed, in bytes. -/
def maxPath : Nat := 4095

@[inherit_doc maxPath]
def maxName : Nat := 255

/-- One step from a place. -/
def enter (tree : FileTree) (place : Place) (name : String) : Except FileError Place :=
  if !tree.isDirectory place then .error .notDirectory
  else if name = "" || name = "." then .ok place
  else if name = ".." then .ok place.dropLast
  else if maxName < name.utf8ByteSize then .error .nameTooLong
  else
    let next := place ++ [name]
    if (tree.contents? next).isSome || tree.isDirectory next then .ok next
    else .error .notFound

/-- The names in a path and the place where it starts, if it is a path at all. -/
def start (tree : FileTree) (path : String) : Except FileError (Place × List String) :=
  if path.toList.contains '\x00' then .error .nulInPath
  else if path = "" then .error .notFound
  else if maxPath < path.utf8ByteSize then .error .nameTooLong
  else
    let names := (Text.pieces '/' path.toList).map String.ofList
    .ok (if names.head? = some "" then [] else tree.directory, names)

def resolve (tree : FileTree) (path : String) : Except FileError Place := do
  let (place, names) ← tree.start path
  names.foldlM tree.enter place

/-- The contents of the file to which a path leads. -/
def read (tree : FileTree) (path : String) : Except FileError ByteArray := do
  match tree.contents? (← tree.resolve path) with
  | some contents => return contents
  | none => throw .isDirectory

/-- The names of a path that lead to the directory of a file, and the name of the file itself; it
has none if the path can only mean a directory. -/
def target (names : List String) : List String × Option String :=
  match (names.reverse.dropWhile (· == "")) with
  | [] => (names, none)
  | name :: before =>
    let isFile := names.getLast? = some name && name != "." && name != ".."
    (before.reverse, if isFile then some name else none)

/-- Writes a file, or another version of it. Its directory has to be there. -/
def write (tree : FileTree) (path : String) (contents : ByteArray) : Except FileError FileTree := do
  let (place, names) ← tree.start path
  let (before, name?) := target names
  let directory ← (before ++ ["."]).foldlM tree.enter place
  match name? with
  | none => throw .isDirectory
  | some name =>
    let file := directory ++ [name]
    if maxName < name.utf8ByteSize then throw .nameTooLong
    else if tree.isDirectory file then throw .isDirectory
    else return tree.put file contents

end FileTree

end Kestrel
