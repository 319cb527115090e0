/-!
# Paths

A path is a text: names of directories, each followed by a slash, and the name of a file at the end.
Slashes and single dots behind that name do not count.

## Main definitions

- `Path.name?` — the name of the file
- `Path.withExtension` — a path with another extension

## Design notes

The extension of a name is what follows its last dot, unless nothing stands before that dot. A path
without a name of a file has no extension to replace, and neither has one that ends in two dots once
its extension is taken away: that leads to a directory.
-/

namespace Kestrel.Path

/-- A path, last character in front, without the slashes and single dots behind its last name. -/
def dropTrailing : List Char → List Char
  | '/' :: path => dropTrailing path
  | '.' :: '/' :: path => dropTrailing path
  | path => path

/-- A path up to the end of its last name. -/
def trimmed (path : List Char) : List Char :=
  (dropTrailing path.reverse).reverse

/-- A text cut behind its last slash. -/
def splitName (path : List Char) : List Char × List Char :=
  let isPart (c : Char) : Bool := c != '/'
  ((path.reverse.dropWhile isPart).reverse, (path.reverse.takeWhile isPart).reverse)

/-- The name of the file at the end of a path. -/
def name? (path : List Char) : Option (List Char) :=
  let name := (splitName (trimmed path)).2
  if name = [] || name = ['.'] || name = ['.', '.'] then none else some name

/-- A name without its extension. -/
def stem (name : List Char) : List Char :=
  let isExtension (c : Char) : Bool := c != '.'
  match (name.reverse.dropWhile isExtension).drop 1 with
  | [] => name
  | stem => stem.reverse

/-- A path with another extension, or with its first one. -/
def withExtension (path extension : List Char) : List Char :=
  match name? path with
  | none => path
  | some name =>
    let body := trimmed path
    let directory := (splitName body).1
    if stem name = ['.'] && body.length = path.length then directory ++ ['.', '.']
    else directory ++ stem name ++ '.' :: extension

end Kestrel.Path
