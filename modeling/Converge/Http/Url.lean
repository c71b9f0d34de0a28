import Converge.Http.Host

/-!
# URLs

A URL names a scheme, a host, a port and a path. A reference is joined with a URL by the segments of its path:
`.` stays where it is, `..` goes up by one, however the points are written.

## Main Definitions

* `Url` — a URL that names a host.
* `Url.read` — reads a URL.
* `Url.join` — the URL that a reference names from where a URL stands.
* `Url.target` — path and query as a request names them.

## Design Notes

A path is the list of its segments. A path that ends with a slash has an empty last segment, so
the segments below a folder are those of its path but the last.
-/

namespace Converge.Http

open Chars

/-- Why a text is no URL. -/
inductive UrlError where
  | noScheme
  | badHost (cause : HostError)
  | badPort
  deriving Repr, DecidableEq

/-- The words for a text that is no URL. -/
def UrlError.message : UrlError → String
  | .noScheme => "relative URL without a base"
  | .badHost cause => cause.message
  | .badPort => "invalid port number"

/-- A URL that names a host. -/
structure Url where
  scheme : String
  host : Host
  port : Option Nat
  path : List String
  query : Option String
  deriving Repr, DecidableEq

namespace Url

/-! ### Schemes -/

/-- What a scheme says about the form of its URLs. -/
inductive Form where
  /-- The scheme goes over the network: there is a host, and `\` is a slash. -/
  | network
  /-- The scheme names files. -/
  | file
  /-- Any other scheme. -/
  | other
  deriving Repr, DecidableEq

/-- The ports of the schemes that go over the network. -/
def standardPorts : List (String × Nat) := [("http", 80), ("https", 443), ("ws", 80), ("wss", 443), ("ftp", 21)]

/-- The form of a scheme. -/
def formOf (scheme : String) : Form :=
  if scheme = "file" then .file
  else if (standardPorts.lookup scheme).isSome then .network
  else .other

/-- Whether a character is a slash in URLs of a form. -/
def Form.isSlash (form : Form) (c : Char) : Bool := c = '/' || (form ≠ .other && c = '\\')

/-- Whether a character ends the part of a URL that names the host. -/
def Form.endsAuthority (form : Form) (c : Char) : Bool := form.isSlash c || c = '?' || c = '#'

/-- The scheme in front of a URL, in small letters, and what follows it. -/
def scheme? (text : List Char) : Option (String × List Char) :=
  (splitFirst ':' text).bind fun (name, rest) =>
    match name with
    | first :: _ =>
        if Percent.isAlphanumeric first && !isDigit first
            && name.all (fun c => Percent.isAlphanumeric c || "+-.".toList.contains c) then
          some (String.ofList (name.map asciiLower), rest)
        else none
    | [] => none

/-- A text without control characters and blanks at its ends, and without tabs and line breaks. -/
def cleaned (text : List Char) : List Char :=
  let isEdge (c : Char) : Bool := c.toNat ≤ 0x20
  ((text.dropWhile isEdge).reverse.dropWhile isEdge).reverse.filter fun c => !"\t\n\r".toList.contains c

/-! ### Paths -/

/-- A segment with its encoded points written as points. -/
def plainPoints : List Char → List Char
  | '%' :: '2' :: c :: rest => if c = 'e' || c = 'E' then '.' :: plainPoints rest else '%' :: '2' :: c :: plainPoints rest
  | c :: rest => c :: plainPoints rest
  | [] => []

/-- Puts a segment on a path that is held in reverse order. -/
def addSegment (path : List String) (segment : List Char) (isLast : Bool) : List String :=
  let dots := plainPoints segment
  if dots = ['.', '.'] then (if isLast then [""] else []) ++ path.tail
  else if dots = ['.'] then (if isLast then [""] else []) ++ path
  else String.ofList (Percent.encode Percent.isPathPlain segment) :: path

/-- Puts segments on a path that is held in reverse order. -/
def addSegments (path : List String) : List (List Char) → List String
  | [] => path
  | [segment] => addSegment path segment true
  | segment :: segments => addSegments (addSegment path segment false) segments

/-- The parts of a text between slashes. -/
def Form.segments (form : Form) (text : List Char) : List (List Char) :=
  splitAt '/' (text.map fun c => if form.isSlash c then '/' else c)

/-- The path that a text names from a folder. -/
def walk (form : Form) (folder : List String) (text : List Char) : List String :=
  (addSegments folder.reverse (form.segments text)).reverse

/-- The path in front of a query or a fragment, and the query. -/
def cutQuery (text : List Char) : List Char × Option (List Char) :=
  let withoutFragment := text.takeWhile (· ≠ '#')
  match splitFirst '?' withoutFragment with
  | some (path, query) => (path, some query)
  | none => (withoutFragment, none)

/-- A query with what may not stand in it encoded. -/
def encodeQuery (form : Form) (query : List Char) : String :=
  String.ofList (Percent.encode (Percent.isQueryPlain (form ≠ .other)) query)

/-- The segments of the path after a host; its slash in front is no segment. -/
def pathAfterHost (form : Form) (text : List Char) : List String :=
  match text with
  | [] => if form = .other then [] else [""]
  | c :: rest => walk form [] (if form.isSlash c then rest else c :: rest)

/-! ### Reading -/

/-- The part of an authority before its last `@`, and the part after it. -/
def cutUser (authority : List Char) : Option (List Char × List Char) :=
  (splitFirst '@' authority.reverse).map fun (host, user) => (user.reverse, host.reverse)

/-- The host in front of an authority, which ends at a colon outside brackets. -/
def cutHost : (inBrackets : Bool) → List Char → List Char × List Char
  | _, [] => ([], [])
  | inBrackets, c :: rest =>
      if c = ':' && !inBrackets then ([], c :: rest)
      else
        let (host, after) := cutHost (c = '[' || (inBrackets && c ≠ ']')) rest
        (c :: host, after)

/-- The port of a run of digits: none if there are none, or if it is the one of the scheme. -/
def portOf (scheme : String) (digits : List Char) : Except UrlError (Option Nat) :=
  let port := decimalValue digits
  if 65535 < port then .error .badPort
  else if digits.isEmpty || standardPorts.lookup scheme = some port then .ok none
  else .ok (some port)

/-- The port after a host, and what of the authority belongs to the path. -/
def cutPort (scheme : String) : List Char → Except UrlError (Option Nat × List Char)
  | ':' :: text =>
      let rest := text.dropWhile isDigit
      if rest.isEmpty || rest.head? = some '\\' then
        (portOf scheme (text.takeWhile isDigit)).map fun port => (port, rest)
      else .error .badPort
  | rest => .ok (none, rest)

/-- The host of a URL. With a scheme that goes over the network there has to be one; with any other it may be
missing unless a user or a port is named. -/
def hostOf (form : Form) (named : Bool) (text : List Char) : Except UrlError (Option Host) :=
  if text.isEmpty then
    if form = .network || named then .error (.badHost .empty) else .ok none
  else
    ((if form = .other then Host.readPlain text else Host.read text).map some).mapError .badHost

/-- The URL behind the two slashes. -/
def readAuthority (scheme : String) (form : Form) (text : List Char) : Except UrlError (Option Url) := do
  let authority := text.takeWhile (!form.endsAuthority ·)
  let after := text.dropWhile (!form.endsAuthority ·)
  let (user, site) := (cutUser authority).getD ([], authority)
  if cutUser authority = some ([], []) && !after.isEmpty then throw (.badHost .empty)
  let (hostText, rest) := cutHost false site
  let host ← hostOf form (!user.isEmpty && user ≠ [':'] || rest.head? = some ':') hostText
  let (port, first) ← cutPort scheme rest
  -- What the colon of the host left over belongs to the path.
  let (path, query) := cutQuery (first ++ after)
  return host.map fun host => ⟨scheme, host, port, pathAfterHost form path, query.map (encodeQuery form)⟩

/-- A letter with a colon or a bar after it, which names a drive. -/
def isDrive : List Char → Bool
  | [letter, mark] => Percent.isAlphanumeric letter && !isDigit letter && (mark = ':' || mark = '|')
  | _ => false

/-- The URL of a file. Only a file of another machine has a host. -/
def readFile (text : List Char) : Except UrlError (Option Url) := do
  match text with
  | a :: b :: rest =>
      if Form.file.isSlash a && Form.file.isSlash b then
        let hostText := rest.takeWhile (!Form.file.endsAuthority ·)
        if hostText.isEmpty || isDrive hostText then return none
        let host ← (Host.read hostText).mapError .badHost
        let (path, query) := cutQuery (rest.dropWhile (!Form.file.endsAuthority ·))
        if host = .name "localhost" || ((Form.file.segments path).drop 1).head?.any isDrive then return none
        return some ⟨"file", host, none, pathAfterHost .file path, query.map (encodeQuery .file)⟩
      else return none
  | _ => return none

/-- The URL that a text is; nothing if it names no host. -/
def read (text : String) : Except UrlError (Option Url) :=
  match scheme? (cleaned text.toList) with
  | none => .error .noScheme
  | some (scheme, rest) =>
      match formOf scheme with
      | .network => readAuthority scheme .network (rest.dropWhile Form.network.isSlash)
      | .file => readFile rest
      | .other =>
          match afterStart ['/', '/'] rest with
          | some authority => readAuthority scheme .other authority
          | none => .ok none

/-! ### Use -/

/-- A URL as a folder: its path ends with a slash, and it has no query. -/
def asFolder (url : Url) : Url :=
  { url with path := (if url.path.getLast? = some "" then url.path else url.path ++ [""]), query := none }

/-- The URL that a relative reference names from where a URL stands. -/
def join (base : Url) (reference : String) : Url :=
  let form := formOf base.scheme
  let (path, query) := cutQuery (cleaned reference.toList)
  { base with path := walk form base.path.dropLast path, query := query.map (encodeQuery form) }

/-- A URL with a further value of a form in its query. -/
def withParameter (url : Url) (name value : String) : Url :=
  let given := match url.query with
    | some query => if query.isEmpty then "" else query ++ "&"
    | none => ""
  { url with
    query := some (given ++ String.ofList (Percent.form name.toList) ++ "=" ++ String.ofList (Percent.form value.toList)) }

/-- Path and query as a request names them. -/
def target (url : Url) : String :=
  "/" ++ "/".intercalate url.path
    ++ (match url.query with
        | some query => "?" ++ query
        | none => "")

end Url

end Converge.Http
