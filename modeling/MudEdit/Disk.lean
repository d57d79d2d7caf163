import MudEdit.Path
import MudEdit.Table

/-!
# Disks

Files and directories, without links from one to the other. A place on the disk is given
by the names on the way to it. A path is followed name by name, and only a directory has
a parent or anything below it, so a path through what is not there leads nowhere. A name
has at most 255 bytes, and the null character, which ends a path for the disk, is in none.
-/

namespace MudEdit

/-- A place on a disk: its own name, that of the directory it is in, and so on. -/
abbrev Location := List String

structure Disk where
  /-- The texts of the files. -/
  files : List (Location × String)
  /-- The directories other than the root. -/
  directories : List Location
  /-- Where relative paths start. -/
  start : Location

namespace Disk

/-- A disk with nothing on it. -/
def empty : Disk := ⟨[], [], []⟩

def fileAt? (d : Disk) (l : Location) : Option String := d.files.lookup l

def isDirectory (d : Disk) (l : Location) : Bool := l.isEmpty || d.directories.contains l

/-- Whether a segment of a path names something, and is not just `.` or nothing. -/
def isName (segment : String) : Bool := segment != "" && segment != "." && segment != ".."

/-- Whether the null character, which no path has, is in one of the segments. -/
def isBroken (segments : List String) : Bool := segments.any (·.contains '\x00')

/-- Whether something may have the name. -/
def admits (name : String) : Bool := name.utf8ByteSize ≤ 255 && !isBroken [name]

/-- Where the segments of a path lead from a location. -/
def follow (d : Disk) (l : Location) : List String → Option Location
  | [] => some l
  | segment :: rest =>
    if !d.isDirectory l then none
    else if segment == ".." then d.follow l.tail rest
    else if isName segment then d.follow (segment :: l) rest
    else d.follow l rest

/-- Where a path starts. -/
def origin (d : Disk) (path : String) : Location := if Path.isAbsolute path then [] else d.start

/-- Where a path leads. -/
def locate (d : Disk) (path : String) : Option Location :=
  if path == "" then none else d.follow (d.origin path) (Path.segments path)

/-- The text of the file at a path. -/
def read? (d : Disk) (path : String) : Option String := (d.locate path).bind d.fileAt?

/-- With directories along the segments of a path, as far as nothing is in the way. -/
def makeDirectories (d : Disk) (l : Location) : List String → Disk × Option Location
  | [] => (d, some l)
  | segment :: rest =>
    if segment == ".." then d.makeDirectories l.tail rest
    else if !isName segment || d.isDirectory (segment :: l) then
      d.makeDirectories (if isName segment then segment :: l else l) rest
    else if !admits segment || (d.fileAt? (segment :: l)).isSome then (d, none)
    else
      makeDirectories { d with directories := (segment :: l) :: d.directories } (segment :: l) rest

/-- With a file at a location. -/
def putFile (d : Disk) (l : Location) (text : String) : Disk :=
  { d with files := (l, text) :: d.files.filter (·.1 != l) }

/-- Whether a segment at the end of a path says only that there is a directory. -/
def isIdle (segment : String) : Bool := segment == "" || segment == "."

/-- With a file at a path, and directories on the way to it, as far as that is possible. -/
def write (d : Disk) (path text : String) : Disk :=
  let backwards := (Path.segments path).reverse
  match backwards.dropWhile isIdle with
  | [] => d
  | name :: above =>
    if isBroken above then d else
    match d.makeDirectories (d.origin path) above.reverse with
    | (made, none) => made
    | (made, some l) =>
      let isFile := !backwards.head?.any isIdle && isName name && admits name
      if isFile && !made.isDirectory (name :: l) then made.putFile (name :: l) text else made

/-- Without the file at a path. -/
def delete (d : Disk) (path : String) : Disk :=
  match d.locate path with
  | some l => { d with files := d.files.filter (·.1 != l) }
  | none => d

/-- How many bytes of text are on the disk. -/
def size (d : Disk) : Nat := d.files.foldr (fun f n => f.2.utf8ByteSize + n) 0

end Disk

end MudEdit
