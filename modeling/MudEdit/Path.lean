/-!
# Paths

Paths of files as text, with a slash between their parts. A part that says nothing, such
as the empty one between two slashes, does not count. A file's extension starts at the
last dot of its name, unless the name starts with that dot.
-/

namespace MudEdit.Path

/-- What stands between the slashes. -/
def segments (path : String) : List String :=
  (path.toList.splitOnP (· == '/')).map String.ofList

def isAbsolute (path : String) : Bool := path.toList.head? == some '/'

/--
The parts of a path. The root is the part `/`, and a relative path may start with the
part `.`; other than that, `.` says nothing.
-/
def parts (path : String) : List String :=
  let names := (segments path).filter fun s => s != "" && s != "."
  if isAbsolute path then "/" :: names
  else if (segments path).head? == some "." then "." :: names
  else names

/-- A path taken from a directory. An absolute path is that path wherever it is taken from. -/
def join (directory path : String) : String :=
  if isAbsolute path || directory == "" then path
  else if directory.toList.getLast? == some '/' then directory ++ path
  else directory ++ "/" ++ path

/-- The name of a file, which a path up to a directory lacks. -/
def fileName? (path : String) : Option String :=
  (parts path).getLast?.filter fun s => s != "/" && s != "." && s != ".."

/-- What follows the last dot of a name that has something before that dot. -/
def extensionOf? (name : String) : Option String :=
  let backwards := name.toList.reverse
  match backwards.dropWhile (· != '.') with
  | _ :: _ :: _ => some (String.ofList (backwards.takeWhile (· != '.')).reverse)
  | _ => none

/-- The extension of the file at a path. -/
def extension? (path : String) : Option String := (fileName? path).bind extensionOf?

/-- A path with the extension of a program, unless it has one. -/
def asProgram (path : String) : String :=
  if (extension? path).isSome then path else path ++ ".c"

/-- The parts of a path below a directory. -/
def below? (directory path : String) : Option (List String) :=
  let above := parts directory
  if above.isPrefixOf (parts path) then some ((parts path).drop above.length) else none

/-- A text without a suffix that it may have. -/
def withoutSuffix (suffix text : String) : String :=
  if suffix.toList.isSuffixOf text.toList then
    String.ofList (text.toList.take (text.toList.length - suffix.toList.length))
  else text

end MudEdit.Path
