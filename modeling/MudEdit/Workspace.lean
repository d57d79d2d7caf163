import MudEdit.Path
import MudEdit.Settings

/-!
# The workspace

Where programs are in the file system. A program is named after its place below the
root, so that all files call it the same. Other files are included by names that are
searched for in a list of directories and then in the root.
-/

namespace MudEdit

/-- Where files are looked for. -/
structure Layout where
  root : Option String
  includePaths : List String
  deriving DecidableEq, Repr

namespace Layout

/-- A layout in which nothing is found. -/
def empty : Layout := ⟨none, []⟩

/-- The layout of a workspace, whose settings may name directories from its root. -/
def ofSettings (root : Option String) (s : Settings) : Layout where
  root := root
  includePaths := match root with
    | some root => s.includePaths.map (Path.join root)
    | none => s.includePaths

/-- The files that a name from the root may stand for; a program may lack its extension. -/
def rootedCandidates (l : Layout) (name : String) : List String :=
  match l.root with
  | none => []
  | some root =>
    if (Path.extension? name).isNone then [Path.join root name, Path.join root (name ++ ".c")]
    else [Path.join root name]

/-- The files that a name may stand for, in the order of preference. -/
def candidates (l : Layout) (name : String) : List String :=
  match name.toList with
  | '/' :: rest => l.rootedCandidates (String.ofList rest)
  | _ => (l.includePaths ++ l.root.toList).map fun directory => Path.join directory name

end Layout

namespace Workspace

/-- A path written from the root, each of its parts after a slash. -/
def rooted (parts : List String) : String := String.join (parts.map ("/" ++ ·))

/-- The name of the program at a path. Outside of the root that is the path itself. -/
def programName (root : Option String) (path : String) : String :=
  match root.bind fun root => Path.below? root path with
  | some parts => Path.withoutSuffix ".c" (rooted parts)
  | none => path

/-- Where a saved program is copied to. -/
def deployPath (deployRoot name : String) : String :=
  Path.join deployRoot (Path.asProgram (String.ofList (name.toList.dropWhile (· == '/'))))

/-- What stands for the name of the program in a command. -/
def placeholder : List Char := "\x7bname\x7d".toList

/-- A word with the name in place of each placeholder, from left to right. -/
def fill (name word : List Char) : List Char :=
  match word with
  | [] => []
  | c :: rest =>
    if placeholder.isPrefixOf word then name ++ fill name (rest.drop (placeholder.length - 1))
    else c :: fill name rest
termination_by word.length
decreasing_by all_goals simp only [List.length_cons, List.length_drop]; omega

/-- The command for a program. -/
def expand (command : List String) (name : String) : List String :=
  command.map fun word => String.ofList (fill name.toList word.toList)

end Workspace

end MudEdit
