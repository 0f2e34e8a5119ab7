import MediaRemote.Url.Basic

namespace MediaRemote.Url

variable [Idna]

def isAlpha (c : Char) : Bool := ('a' ≤ c && c ≤ 'z') || ('A' ≤ c && c ≤ 'Z')

def isSchemeChar (c : Char) : Bool :=
  isAlpha c || ('0' ≤ c && c ≤ '9') || c = '+' || c = '-' || c = '.'

def splitScheme? (s : List Char) : Option (List Char × List Char) :=
  let name := s.takeWhile isSchemeChar
  match name.head?.any isAlpha, s.drop name.length with
  | true, ':' :: rest => some (name.map Char.toLower, rest)
  | _, _ => none

def endsAuthority (special : Bool) (c : Char) : Bool :=
  c = '/' || c = '?' || c = '#' || (special && c = '\\')

def splitLast? (mark : Char) (s : List Char) : Option (List Char × List Char) :=
  if s.contains mark then
    some ((s.reverse.dropWhile (· ≠ mark)).drop 1 |>.reverse,
      (s.reverse.takeWhile (· ≠ mark)).reverse)
  else none

def credentials (s : List Char) : List Char × List Char :=
  let user := s.takeWhile (· ≠ ':')
  (percentEncode inUserinfoSet user, percentEncode inUserinfoSet (s.drop (user.length + 1)))

/-- Length of a host: up to a colon outside of brackets, or the end of the authority. -/
def hostLength (special : Bool) : Bool → List Char → Nat
  | _, [] => 0
  | inside, c :: rest =>
    if endsAuthority special c || (c = ':' && !inside) then 0
    else hostLength special (c = '[' || (inside && c ≠ ']')) rest + 1

def readPort (n : Nat) : List Char → Except UrlFault (Nat × List Char)
  | [] => .ok (n, [])
  | c :: rest =>
    if '0' ≤ c && c ≤ '9' then
      let next := n * 10 + (c.toNat - 48)
      if next < bound16 then readPort next rest else .error .invalidPort
    else if c = '/' || c = '\\' || c = '?' || c = '#' then .ok (n, c :: rest)
    else .error .invalidPort

def portAfter (scheme : List Char) (s : List Char) :
    Except UrlFault (Option Nat × List Char) :=
  match s with
  | ':' :: rest =>
    match readPort 0 rest with
    | .error e => .error e
    | .ok (n, after) =>
      let given := after.length < rest.length && defaultPort? scheme != some n
      .ok (if given then some n else none, after)
  | rest => .ok (none, rest)

def readHost (scheme username password s : List Char) :
    Except UrlFault (Authority × List Char) :=
  let special := isSpecialScheme scheme
  let length := hostLength special false s
  let text := s.take length
  let rest := s.drop length
  let hasCredentials := !(username.isEmpty && password.isEmpty)
  if text.isEmpty && (special || hasCredentials || rest.head? = some ':') then .error .emptyHost
  else
    match if special then Host.parse text else Host.parseOpaque text with
    | .error e => .error e
    | .ok host =>
      match portAfter scheme rest with
      | .error e => .error e
      | .ok (port, after) => .ok (⟨username, password, host, port⟩, after)

def readAuthority (scheme s : List Char) : Except UrlFault (Authority × List Char) :=
  let special := isSpecialScheme scheme
  let text := s.takeWhile fun c => !endsAuthority special c
  match splitLast? '@' text with
  | none => readHost scheme [] [] s
  | some (user, _) =>
    let rest := s.drop (user.length + 1)
    if user.isEmpty && rest.head?.any (endsAuthority special) then .error .emptyHost
    else
      let (username, password) := credentials user
      readHost scheme username password rest

def isWindowsDrive : List Char → Bool
  | [a, b] => isAlpha a && (b = ':' || b = '|')
  | _ => false

def isDot (s : List Char) : Bool := s = ['.'] || lower s = "%2e".toList

def isDoubleDot (s : List Char) : Bool :=
  s = ['.', '.'] || lower s = ".%2e".toList || lower s = "%2e.".toList ||
    lower s = "%2e%2e".toList

/-- The path without its last segment; the drive of a file stays. -/
def shorten (file : Bool) (path : List (List Char)) : List (List Char) :=
  let isDrive := fun (s : List Char) => isWindowsDrive s && s.getLast? = some ':'
  if file && path.length = 1 && path.all isDrive then path else path.dropLast

/-- Puts a segment at the end of a path. A dot segment that comes last leaves an empty one. -/
def addSegment (file : Bool) (path : List (List Char)) (segment : List Char) (last : Bool) :
    List (List Char) :=
  let close := fun (p : List (List Char)) => if last then p ++ [[]] else p
  if isDoubleDot segment then close (shorten file path)
  else if isDot segment then close path
  else if file && path.isEmpty && isWindowsDrive segment then path ++ [segment.take 1 ++ [':']]
  else path ++ [segment]

def splitSegments (special : Bool) (current : List Char) : List Char → List (List Char)
  | [] => [current.reverse]
  | c :: rest =>
    if c = '/' || (special && c = '\\') then current.reverse :: splitSegments special [] rest
    else splitSegments special (c :: current) rest

def addSegments (file : Bool) (path : List (List Char)) : List (List Char) → List (List Char)
  | [] => path
  | [s] => addSegment file path (percentEncode inPathSet s) true
  | s :: rest => addSegments file (addSegment file path (percentEncode inPathSet s) false) rest

def dropEmptyFront : List (List Char) → List (List Char)
  | [] :: s :: rest => dropEmptyFront (s :: rest)
  | path => path

def isPathEnd (c : Char) : Bool := c = '?' || c = '#'

def readSegments (scheme s : List Char) : List (List Char) :=
  let raw := splitSegments (isSpecialScheme scheme) [] (s.takeWhile fun c => !isPathEnd c)
  let path := addSegments (isFileScheme scheme) [] raw
  if isFileScheme scheme then dropEmptyFront path else path

def readPath (scheme s : List Char) : UrlPath :=
  let special := isSpecialScheme scheme
  match s with
  | [] => .segments (if special then [[]] else [])
  | c :: rest =>
    if c = '/' || (special && c = '\\') then .segments (readSegments scheme rest)
    else if !special && isPathEnd c then .segments []
    else .segments (readSegments scheme s)

def finish (scheme : List Char) (authority : Option Authority) (path : UrlPath)
    (s : List Char) : Url :=
  let rest := s.dropWhile fun c => !isPathEnd c
  let set := if isSpecialScheme scheme then inSpecialQuerySet else inQuerySet
  let (query, rest) := match rest with
    | '?' :: r => (some (percentEncode set (r.takeWhile (· ≠ '#'))), r.dropWhile (· ≠ '#'))
    | r => (none, r)
  let fragment := match rest with
    | '#' :: r => some (percentEncode inFragmentSet r)
    | _ => none
  ⟨scheme, authority, path, query, fragment⟩

def isSlash (c : Char) : Bool := c = '/' || c = '\\'

def fileAuthority (host : Host) : Authority := ⟨[], [], host, none⟩

/-- A file with a host; a drive in place of the host belongs to the path. -/
def readFileHost (scheme s : List Char) : Except UrlFault Url :=
  let text := s.takeWhile fun c => !endsAuthority true c
  if isWindowsDrive text then
    .ok (finish scheme (some (fileAuthority (.domain []))) (readPath scheme ('/' :: s)) s)
  else
    match if text.isEmpty then .ok (.domain []) else Host.parse text with
    | .error e => .error e
    | .ok host =>
      let rest := s.drop text.length
      let path := readPath scheme rest
      let drive := match path with
        | .segments (first :: _) => isWindowsDrive first
        | _ => false
      let host := if drive || host = .domain "localhost".toList then .domain [] else host
      .ok (finish scheme (some (fileAuthority host)) path rest)

def readFile (scheme s : List Char) : Except UrlFault Url :=
  match s with
  | a :: b :: rest =>
    if isSlash a && isSlash b then readFileHost scheme rest
    else .ok (finish scheme (some (fileAuthority (.domain []))) (readPath scheme s) s)
  | s => .ok (finish scheme (some (fileAuthority (.domain []))) (readPath scheme s) s)

def readAfterScheme (scheme s : List Char) : Except UrlFault Url :=
  if isFileScheme scheme then readFile scheme s
  else if isSpecialScheme scheme then
    match readAuthority scheme (s.dropWhile isSlash) with
    | .error e => .error e
    | .ok (authority, rest) => .ok (finish scheme (some authority) (readPath scheme rest) rest)
  else
    match s with
    | '/' :: '/' :: rest =>
      match readAuthority scheme rest with
      | .error e => .error e
      | .ok (authority, rest) => .ok (finish scheme (some authority) (readPath scheme rest) rest)
    | '/' :: rest => .ok (finish scheme none (.segments (readSegments scheme rest)) s)
    | s =>
      let text := s.takeWhile fun c => !isPathEnd c
      .ok (finish scheme none (.opaquePath (percentEncode isControl text)) s)

def isBreak (c : Char) : Bool := c = '\t' || c = '\n' || c = '\r'

/-- The text without controls and spaces at its ends, and without tabs and line breaks. -/
def cleaned (s : List Char) : List Char :=
  let strip := fun (l : List Char) => l.dropWhile fun c => c.toNat ≤ 0x20
  ((strip (strip s).reverse).reverse).filter (!isBreak ·)

/-- An absolute URL by the rules of the WHATWG standard. Parts are encoded as they are read. -/
def parse (s : String) : Except UrlFault Url :=
  match splitScheme? (cleaned s.toList) with
  | some (scheme, rest) => readAfterScheme scheme rest
  | none => .error .relativeWithoutBase

end MediaRemote.Url
