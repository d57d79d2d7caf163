import MudEdit.Path
import MudEdit.Uri.Address
import MudEdit.Uri.Domain.Basic

/-!
# Locations of documents

Editors name documents by URIs. Reading one brings it into its normal form: the scheme
in lower case, the host as an address or as a name in ASCII, the path without `.` and `..`
segments, and in percent encoding what cannot stand as it is. Two URIs are the same if
their normal forms are. Where the path starts with a slash and there is no other host, it
names a file.

Drive letters, such as `C:`, are segments that `..` does not climb above. Tabs and line ends
do not count, except that one after the drive letter of a file ends that segment.
-/

namespace MudEdit

/-- A URI in normal form. -/
structure Uri where
  scheme : String
  /-- What follows the two slashes, if they are there: user, host and port. -/
  authority : Option String
  /-- The host in the authority, if there is one. -/
  host : Option String
  path : String
  /-- Query and fragment with their marks. -/
  tail : String
  deriving DecidableEq, Repr

namespace Uri

/-- The text of a URI. -/
def text (u : Uri) : String :=
  u.scheme ++ ":" ++ (match u.authority with
    | some authority => "//" ++ authority
    | none => if "//".toList.isPrefixOf u.path.toList then "/." else "") ++ u.path ++ u.tail

/-! ## Schemes -/

/-- The schemes whose URIs have a host, with their ports; a file's host may be absent. -/
def hosted : List (String × Option Nat) :=
  [("http", some 80), ("https", some 443), ("ws", some 80), ("wss", some 443), ("ftp", some 21),
    ("file", none)]

def isHosted (scheme : String) : Bool := (hosted.lookup scheme).isSome

def isSchemeChar (c : Char) : Bool := c.isAlphanum || c == '+' || c == '-' || c == '.'

/-- The scheme in lower case, and what follows its colon. -/
def scheme? (cs : List Char) : Option (String × List Char) :=
  match cs, cs.dropWhile isSchemeChar with
  | c :: _, ':' :: rest =>
    if c.isAlpha then some (String.ofList ((cs.takeWhile isSchemeChar).map Char.toLower), rest)
    else none
  | _, _ => none

/-! ## Breaks -/

/-- Whether a character is a tab or ends a line. -/
def isBreak (c : Char) : Bool := c == '\t' || c == '\n' || c == '\r'

def withoutBreaks (cs : List Char) : List Char := cs.filter (!isBreak ·)

/-! ## Segments -/

/-- Whether a character ends a segment; with a host, a backslash does as well. -/
def isSlash (withHost : Bool) (c : Char) : Bool := c == '/' || (withHost && c == '\\')

def isDriveLetter : List Char → Bool
  | [c, mark] => c.isAlpha && (mark == ':' || mark == '|')
  | _ => false

/-- Whether a segment is a drive letter as far as its first backslash. -/
def isDrive (segment : List Char) : Bool := isDriveLetter (segment.takeWhile (· != '\\'))

/-- A segment with its dots as they are, if it has nothing else. -/
def dots (segment : List Char) : List Char :=
  match segment with
  | '%' :: '2' :: 'e' :: rest | '%' :: '2' :: 'E' :: rest => '.' :: dots rest
  | '.' :: rest => '.' :: dots rest
  | _ => segment

/-- Segments, the last first, without the last; a drive stays. -/
def climb : List (List Char) → List (List Char)
  | [] => []
  | last :: before => if isDrive last then last :: before else before

/-- A drive letter at the start of a file's path, with a colon. -/
def withColon (segment : List Char) : List Char :=
  if isDriveLetter segment then segment.take 1 ++ [':'] else segment

/-- What of a segment can stand in a path, with the rest in percent encoding. -/
def encoded (segment : List Char) : List Char :=
  Percent.encode Percent.inPath (withoutBreaks segment)

/-- The segments, the last first, that the first one of a file's path makes. -/
def firstOfFile (segment : List Char) : List (List Char) :=
  let letter := withoutBreaks (segment.takeWhile (· != ':'))
  let after := (segment.dropWhile (· != ':')).drop 1
  let more := encoded after
  if isDriveLetter (letter ++ [':']) && after.head?.any isBreak && !more.isEmpty then
    [more, letter ++ [':']]
  else [withColon (encoded segment)]

/--
The normal form of segments, the last first, without those that are dots. Dots at the end
leave an empty segment.
-/
def normalize (isFile : Bool) (above : List (List Char)) : List (List Char) → List (List Char)
  | [] => above
  | segment :: rest =>
    if dots (encoded segment) == "..".toList then
      normalize isFile (if rest.isEmpty then [] :: climb above else climb above) rest
    else if dots (encoded segment) == ".".toList then
      normalize isFile (if rest.isEmpty then [] :: above else above) rest
    else if isFile && above.isEmpty then normalize isFile (firstOfFile segment) rest
    else normalize isFile (encoded segment :: above) rest

/-- The path with the given segments, each after a slash. -/
def pathOf (segments : List (List Char)) : List Char := segments.flatMap ('/' :: ·)

/-- The normal form of the segments of a path whose slash at the start is gone. -/
def normalSegments (scheme : String) (cs : List Char) : List (List Char) :=
  (normalize (scheme == "file") [] (cs.splitOnP (isSlash (isHosted scheme)))).reverse

/-- The normal form of a path whose slash at the start is gone. -/
def normalPath (scheme : String) (cs : List Char) : List Char := pathOf (normalSegments scheme cs)

/-- The path of a file, which starts with a single slash. -/
def filePathOf (segments : List (List Char)) : List Char :=
  '/' :: (pathOf segments).dropWhile (· == '/')

/-! ## Parts of a URI -/

/-- Query and fragment in normal form. -/
def normalTail (withHost : Bool) (cs : List Char) : String :=
  let query := cs.takeWhile (· != '#')
  let fragment := cs.dropWhile (· != '#')
  let set := if withHost then Percent.inHostedQuery else Percent.inQuery
  let encoded (set : Char → Bool) : List Char → List Char
    | mark :: rest => mark :: Percent.encode set rest
    | [] => []
  String.ofList (encoded set query ++ encoded Percent.inFragment fragment)

/-- Whether a character stands after the path. -/
def endsPath (c : Char) : Bool := c == '?' || c == '#'

/-- A URI from its path and what follows it. -/
def build (scheme : String) (authority host : Option String) (path tail : List Char) : Uri :=
  ⟨scheme, authority, host, String.ofList path, normalTail (isHosted scheme) tail⟩

/-! ## Hosts -/

/-- What cannot stand in a host whose form is not known. -/
def isForbidden (c : Char) : Bool := c == '\x00' || " \t\n\r#/:<>?@[\\]^|".toList.contains c

/-- A host in normal form: an address in brackets, an address, or a name. -/
def host? (withHost : Bool) (cs : List Char) : Option String :=
  match cs with
  | '[' :: rest =>
    if rest.getLast? != some ']' then none
    else (Address.long? rest.dropLast).map fun pieces => "[" ++ Address.longText pieces ++ "]"
  | _ =>
    if withHost then do
      let name ← Domain.normal? (Percent.decode cs)
      if name.isEmpty then none
      else if Address.endsInNumber name then (Address.short? name).map Address.shortText
      else some (String.ofList name)
    else if cs.any isForbidden then none
    else some (String.ofList (Percent.encode Percent.controls cs))

/-- Where the host ends and the port begins, which a colon marks outside of brackets. -/
def splitPort (inBrackets : Bool) : List Char → List Char × List Char
  | [] => ([], [])
  | c :: rest =>
    if c == ':' && !inBrackets then ([], c :: rest)
    else
      let (name, port) := splitPort (c == '[' || (inBrackets && c != ']')) rest
      (c :: name, port)

/-- The port with its colon, unless it is that of the scheme, and what follows it. -/
def port? (scheme : String) : List Char → Option (String × List Char)
  | ':' :: cs =>
    let digits := cs.takeWhile Char.isDigit
    let rest := cs.dropWhile Char.isDigit
    let n := digits.foldl (fun n c => n * 10 + (c.toNat - '0'.toNat)) 0
    if 65535 < n || rest.head?.any (· != '\\') then none
    else if digits.isEmpty || (hosted.lookup scheme).join == some n then some ("", rest)
    else some (":" ++ toString n, rest)
  | rest => some ("", rest)

/-! ## Users -/

/-- What cannot stand in the name of a user. -/
def inUser (c : Char) : Bool := Percent.inPath c || "/:;=@[\\]^|".toList.contains c

/-- The user before a host, with the mark between them; one without a name or password is none. -/
def userOf (cs : List Char) : List Char :=
  let name := cs.takeWhile (· != ':')
  let password := (cs.dropWhile (· != ':')).drop 1
  let text := Percent.encode inUser name ++
    if password.isEmpty then [] else ':' :: Percent.encode inUser password
  if text.isEmpty then [] else text ++ ['@']

/-- The user and the rest of what stands before a path, between which is the last `@`. -/
def splitUser (cs : List Char) : Option (List Char) × List Char :=
  let after := (cs.reverse.takeWhile (· != '@')).reverse
  if after.length = cs.length then (none, cs)
  else (some (cs.take (cs.length - after.length - 1)), after)

/-! ## Reading -/

/-- The path after a host, and what follows it. -/
def afterHost (scheme : String) (cs : List Char) : List Char × List Char :=
  let path := cs.takeWhile (!endsPath ·)
  let normal :=
    if isHosted scheme then normalPath scheme (path.drop 1)
    else
      match path with
      | [] => []
      | '/' :: path => normalPath scheme path
      | path => normalPath scheme path
  (normal, cs.dropWhile (!endsPath ·))

/-- What follows the two slashes before a host. -/
def afterSlashes? (scheme : String) (cs : List Char) : Option Uri := do
  let withHost := isHosted scheme
  let ends (c : Char) := isSlash withHost c || endsPath c
  let (user, place) := splitUser (cs.takeWhile (!ends ·))
  let rest := cs.dropWhile (!ends ·)
  if user == some [] && place.isEmpty && !rest.isEmpty then none
  let user := userOf (user.getD [])
  let (name, portAndRest) := splitPort false place
  if name.isEmpty && (withHost || !portAndRest.isEmpty || !user.isEmpty) then none
  let host ← host? withHost name
  let (port, more) ← port? scheme portAndRest
  let (path, tail) := afterHost scheme (more ++ rest)
  let authority := String.ofList user ++ host ++ port
  return build scheme (some authority) (if host == "" then none else some host) path tail

/-- Whether the path of a file starts with a drive letter, and so is on no host. -/
def startsWithDrive (segments : List (List Char)) : Bool := segments.head?.any isDriveLetter

/-- The URI of a file on a host, from its path without some slashes, and what follows it. -/
def located (host : Option String) (slashes : Nat) (cs : List Char) : Uri :=
  let segments := normalSegments "file" ((cs.takeWhile (!endsPath ·)).drop slashes)
  let host := if startsWithDrive segments then none else host
  build "file" (some (host.getD "")) host (filePathOf segments)
    (withoutBreaks (cs.dropWhile (!endsPath ·)))

/-- The URI of a file, from what follows its scheme. -/
def file? (cs : List Char) : Option Uri := do
  let slash := isSlash true
  let cs := cs.dropWhile isBreak
  let afterFirst := (cs.drop 1).dropWhile isBreak
  if !cs.head?.any slash then return located none 0 cs
  if !afterFirst.head?.any slash then return located none 1 cs
  let rest := afterFirst.drop 1
  let inHost (c : Char) := !slash c && !endsPath c
  let name := withoutBreaks (rest.takeWhile inHost)
  if name.isEmpty || isDriveLetter name then return located none 0 rest
  let host ← host? true name
  let after := rest.dropWhile inHost
  return if host == "localhost" then located none 0 after else located (some host) 1 after

/-- The text without the blanks and controls around it. -/
def trimmed (s : String) : List Char :=
  let blank (c : Char) : Bool := c.toNat ≤ 0x20
  ((s.toList.dropWhile blank).reverse.dropWhile blank).reverse

/-- Reads a URI, which has to have a scheme. -/
def ofString? (s : String) : Option Uri := do
  let text := trimmed s
  let (scheme, rest) ← scheme? (withoutBreaks text)
  if scheme == "file" then file? ((text.dropWhile (· != ':')).drop 1)
  else if isHosted scheme then afterSlashes? scheme (rest.dropWhile (isSlash true))
  else
    match rest with
    | '/' :: '/' :: rest => afterSlashes? scheme rest
    | '/' :: rest =>
      return build scheme none none (normalPath scheme (rest.takeWhile (!endsPath ·)))
        (rest.dropWhile (!endsPath ·))
    | _ =>
      let flatPath := Percent.encode Percent.controls (rest.takeWhile (!endsPath ·))
      return build scheme none none flatPath (rest.dropWhile (!endsPath ·))

/-! ## Files -/

/-- A path that ends in a drive letter, with the slash that has to follow it. -/
def closeDrive (path : List Char) : List Char :=
  match path.reverse with
  | mark :: c :: _ :: _ => if isDriveLetter [c, mark] then path ++ ['/'] else path
  | _ => path

/-- The file that a URI names, unless it is on another host or has no rooted path. -/
def file (u : Uri) : Option String :=
  if Path.isAbsolute u.path && (u.host.isNone || u.host == some "localhost") then
    some (String.ofList (closeDrive (Percent.decode u.path.toList)))
  else none

/-- The path of the file that a URI names, or else the path as it is written. -/
def filePath (u : Uri) : String := u.file.getD u.path

end Uri

end MudEdit
