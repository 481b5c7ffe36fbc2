/-!
# Paths

Components of a path are separated by `/`. Separators and `.` components at
the end do not count, so the file name of `a/b.c/.` is `b.c`. A file name ends
in an extension when it has a dot that is not its first character.
-/

namespace ScriptToolchain.Path

/-- A reversed path without the separators and `.` components at its end. -/
def withoutTail : List Char → List Char
  | '/' :: rest => withoutTail rest
  | '.' :: '/' :: rest => withoutTail rest
  | rest => rest

/-- A path taken apart. -/
structure Split where
  /-- All before the file name. -/
  directory : List Char
  file : List Char
  /-- Separators and `.` components behind the file name. -/
  tail : List Char
deriving Repr, DecidableEq

/-- The path taken apart; none when its last component is no file name. -/
def split? (path : List Char) : Option Split :=
  let reversed := path.reverse
  let kept := withoutTail reversed
  let file := (kept.takeWhile (· != '/')).reverse
  if file = [] ∨ file = ['.'] ∨ file = ['.', '.'] then none
  else
    some {
      directory := (kept.dropWhile (· != '/')).reverse
      file
      tail := (reversed.take (reversed.length - kept.length)).reverse }

/-- A file name before and behind its last dot; the second part is none without extension. -/
def splitName (file : List Char) : List Char × Option (List Char) :=
  let extension := (file.reverse.takeWhile (· != '.')).reverse
  let stem := file.take (file.length - extension.length - 1)
  if extension.length = file.length ∨ stem = [] then (file, none) else (stem, some extension)

/-- A dot and the extension behind it, nothing for the empty extension. -/
def dotted (extension : List Char) : List Char :=
  if extension = [] then [] else '.' :: extension

/--
The path with another extension and without tail; a path with no file name stays. When the old
extension goes from the end of a name such as `..x`, a parent directory is left, which gets none.
-/
def withExtension (path extension : List Char) : List Char :=
  match split? path with
  | none => path
  | some s =>
    match splitName s.file with
    | (stem, none) => s.directory ++ stem ++ dotted extension
    | (stem, some _) =>
      if stem = ['.'] ∧ s.tail = [] then s.directory ++ ['.', '.']
      else s.directory ++ stem ++ dotted extension

/-- The path of what is made from the file at `input`. -/
def output (input extension : String) : String :=
  String.ofList (withExtension input.toList extension.toList)

end ScriptToolchain.Path
