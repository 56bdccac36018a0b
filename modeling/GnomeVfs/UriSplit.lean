import GnomeVfs.Escape

/- The authority scanner `split_toplevel_uri`. The scanned text is the whole list; the
byte behind it, which the source sometimes looks at, is an argument of its own. -/
namespace GnomeVfs

/-- The sets `URI_DELIMITER_ALL_SET`, `..._USER_SET`, `..._HOST_SET` and `..._IPV6_SET`. -/
def uriDelimiterAll : Bytes := [chrColon, chrAt, chrClose, chrSlash]
def uriDelimiterUser : Bytes := [chrAt, chrSlash]
def uriDelimiterHost : Bytes := [chrColon, chrSlash]
def uriDelimiterIpv6 : Bytes := [chrClose, chrSlash]

/-- `uri_strspn_to`: the first delimiter, unless the terminator comes first. -/
def uriStrspnTo (str set : Bytes) : Option Bytes :=
  (scanTo (fun c => c == 0 || c ∈ set) str).filter fun found => found.head? != some 0

/-- `cur != NULL && *cur == c`. -/
def pointsAt (cur : Option Bytes) (c : UInt8) : Bool := cur.bind List.head? == some c

/-- Find the end of the user name, or of the host when there is no user information.
A colon before any `@` may belong to a bracketed address, and then the delimiter
is looked for behind the bracket. -/
def splitScan (start : Bytes) : Option Bytes :=
  let first := uriStrspnTo start uriDelimiterAll
  let cur :=
    if pointsAt first chrColon && !pointsAt (uriStrspnTo start uriDelimiterUser) chrAt &&
        pointsAt (uriStrspnTo start uriDelimiterIpv6) chrClose then
      uriStrspnTo start uriDelimiterIpv6
    else first
  if pointsAt cur chrClose then cur.bind (uriStrspnTo · uriDelimiterHost) else cur

/-- The test that `cur` ends a user name: it is `@`, or `@` comes after it before any `/`. -/
def endsUserName (cur : Bytes) : Bool :=
  pointsAt (some cur) chrAt ||
    match uriStrspnTo cur uriDelimiterUser with
    | some next => !pointsAt (some next) chrSlash
    | none => false

/-- A non-empty token is stored unescaped. An undecodable one is stored as `NULL`. -/
def splitToken (start cur : Bytes) : Option Bytes :=
  if strdupTo start cur = [] then none else unescapeString [] (strdupTo start cur)

/-- The end of the host that starts at `start`. -/
def splitHostEnd (start : Bytes) : Option Bytes :=
  match uriStrspnTo start uriDelimiterIpv6 with
  | some cur =>
    if pointsAt (some cur) chrClose then uriStrspnTo cur uriDelimiterHost
    else uriStrspnTo start uriDelimiterHost
  | none => uriStrspnTo start uriDelimiterHost

/-- What the part in front of the host yields, and where the host starts and ends. -/
structure UserInfo where
  user : Option Bytes
  password : Option Bytes
  start : Bytes
  cur : Option Bytes

/-- Step over the `@` at `cur` to the host; `none` is `success = FALSE`. -/
def splitAfterUser (user password : Option Bytes) (cur : Bytes) : Option UserInfo :=
  if pointsAt (some cur) chrSlash then some ⟨user, password, cur, some cur⟩
  else if cur.tail = [] then none
  else some ⟨user, password, cur.tail, splitHostEnd cur.tail⟩

/-- The user name and password in front of the delimiter `cur`. -/
def splitUserInfo (start cur : Bytes) : Option UserInfo :=
  let user := splitToken start cur
  if pointsAt (some cur) chrColon then
    if cur.tail = [] then none
    else
      match uriStrspnTo cur.tail uriDelimiterUser with
      | some stop =>
        if pointsAt (some stop) chrAt then
          splitAfterUser user (splitToken cur.tail stop) stop
        else none
      | none => none
  else splitAfterUser user none cur

/-- The decimal digits at `cur`, accumulated in a `guint`. -/
def scanPort (cur : Bytes) : UInt32 :=
  (cur.takeWhile isDigit).foldl (fun port c => port * 10 + (c - 48).toUInt32) 0

/-- What a successful split stores for the host, the port and the path. -/
structure HostPart where
  host : Option Bytes
  port : UInt32
  text : Bytes

/-- The host from `start` to `cur`, with the port and the path behind it. -/
def splitHost (start : Bytes) (cur : Option Bytes) (after : UInt8) : Option HostPart :=
  match cur with
  | none =>
    if start = [] then none
    else some ⟨some start, 0, if start.getLast? = some chrSlash then [chrSlash] else []⟩
  | some cur =>
    if pointsAt (some cur) chrColon then
      if strdupTo start cur = [] ∨ cur.tail = [] then none
      else
        let rest := cur.tail.dropWhile isDigit
        let next := rest.head?.getD after
        if next ≠ 0 ∧ next ≠ chrSlash then none
        else if 0xffff < scanPort cur.tail then none
        else some ⟨some (strdupTo start cur), scanPort cur.tail,
          if next ≠ 0 ∧ rest ≠ [] then rest else [chrSlash]⟩
    else
      some ⟨if strdupTo start cur = [] then none else some (strdupTo start cur), 0, cur⟩

/-- A host with brackets and a colon loses its first and its last character. -/
def splitHostName (host : Bytes) : Bytes :=
  if chrOpen ∈ host ∧ chrClose ∈ host ∧ chrColon ∈ host then
    strdown ((host.drop 1).take (host.length - 2))
  else strdown host

/-- The return values of `split_toplevel_uri`. -/
structure SplitUri where
  text : Option Bytes
  host : Option Bytes
  user : Option Bytes
  port : UInt32
  password : Option Bytes
  deriving DecidableEq

/-- Everything is discarded when the scan fails. -/
def SplitUri.failed : SplitUri := ⟨none, none, none, 0, none⟩

def splitFinish (info : UserInfo) (after : UInt8) : SplitUri :=
  match splitHost info.start info.cur after with
  | none => .failed
  | some part => ⟨some part.text, part.host.map splitHostName, info.user, part.port, info.password⟩

/-- `split_toplevel_uri (path, path_len, ...)`, where `after` is `path[path_len]`. -/
def splitToplevelUri (path : Bytes) (after : UInt8) : SplitUri :=
  if path = [] then ⟨some [chrSlash], none, none, 0, none⟩
  else
    match splitScan path with
    | none => splitFinish ⟨none, none, path, none⟩ after
    | some cur =>
      if endsUserName cur then
        match splitUserInfo path cur with
        | none => .failed
        | some info => splitFinish info after
      else splitFinish ⟨none, none, path, some cur⟩ after

example : splitToplevelUri (ascii "joe:pass%40word@Foo.se:80/dir") 0 =
    ⟨some (ascii "/dir"), some (ascii "foo.se"), some (ascii "joe"), 80,
      some (ascii "pass@word")⟩ := by decide +kernel

end GnomeVfs
