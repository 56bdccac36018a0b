import GnomeVfs.UriEqual

/- Appending to a URI, its parent directory, its short name, and the test for an ancestor. A
pointer into the text is an index. -/
namespace GnomeVfs

variable {Method : Type}

/-- `while (p != text && *p == '/') p--`. -/
def skipSlashes (text : Bytes) : Nat → Nat
  | 0 => 0
  | p + 1 => if byteAt text (p + 1) = chrSlash then skipSlashes text p else p + 1

/-- `while (p != text && *p != '/') p--`. -/
def skipName (text : Bytes) : Nat → Nat
  | 0 => 0
  | p + 1 => if byteAt text (p + 1) ≠ chrSlash then skipName text p else p + 1

/-- `while (p > text + 1 && p[-1] == '/') p--`. -/
def skipSlashesBefore (text : Bytes) : Nat → Nat
  | 0 => 0
  | 1 => 1
  | p + 2 => if byteAt text (p + 1) = chrSlash then skipSlashesBefore text (p + 1) else p + 2

/-- `gnome_vfs_uri_append_string`. -/
def uriAppendString (ctx : UriContext Method) (uri : Uri Method) (uriFragment : Bytes) : Option (Uri Method) :=
  let uriString := uriToString .none uri
  if uriString = [] then uriNew ctx uriFragment
  else
    let front := uriString.take (skipSlashes uriString (uriString.length - 1) + 1)
    let back := uriFragment.dropWhile (· == chrSlash)
    if byteAt back 0 ≠ chrHash then uriNew ctx (front ++ chrSlash :: back) else uriNew ctx (front ++ back)

/-- `gnome_vfs_uri_append_file_name`. -/
def uriAppendFileName (ctx : UriContext Method) (uri : Uri Method) (filename : Bytes) : Option (Uri Method) :=
  uriAppendString ctx uri (escapeString filename)

/-- A copy with another text and without the fragment. -/
def Uri.withText (text : Bytes) : Uri Method → Uri Method
  | .toplevel e top => .toplevel { e with text := some text, fragmentId := none } top
  | .child e p => .child { e with text := some text, fragmentId := none } p

/-- Where `gnome_vfs_uri_get_parent` leaves its pointer. -/
def parentEnd (text : Bytes) : Nat :=
  skipSlashesBefore text (skipName text (skipSlashes text (text.length - 1)))

/-- `gnome_vfs_uri_get_parent`. -/
def uriGetParent (uri : Uri Method) : Option (Uri Method) :=
  match uri.element.text with
  | none => uri.parent
  | some text =>
    if chrSlash ∈ text then
      let p := parentEnd text
      if byteAt text (p + 1) ≠ 0 then some (uri.withText (if p = 0 then [chrSlash] else text.take p))
      else uri.parent
    else uri.parent

/-- The loop of `gnome_vfs_uri_extract_short_path_name` at `p`, with `short_name_start` and
`short_name_end`. -/
def shortNameLoop : Nat → Bytes → Option Nat → Option Nat → Option Nat × Option Nat
  | p, [], start, stop => (start, stop.or (some p))
  | p, c :: rest, start, stop =>
    if c = chrSlash then shortNameLoop (p + 1) rest start (stop.or (some p))
    else if stop.isSome then shortNameLoop (p + 1) rest (some p) none
    else shortNameLoop (p + 1) rest start stop

/-- `gnome_vfs_uri_extract_short_path_name`. -/
def uriExtractShortPathName (uri : Uri Method) : Option Bytes :=
  uri.element.text.map fun text =>
    match shortNameLoop 0 text none (some 0) with
    | (none, _) => [chrSlash]
    | (some start, stop) => (text.drop start).take (stop.getD 0 - start)

/-- `gnome_vfs_uri_extract_short_name`. -/
def uriExtractShortName (uri : Uri Method) : Option Bytes :=
  let shortPathName := (uriExtractShortPathName uri).bind (unescapeString [chrSlash])
  if shortPathName ≠ none ∧ shortPathName ≠ some [chrSlash] then shortPathName
  else if uri.getToplevel.hostName.getD [] ≠ [] then uri.getToplevel.hostName
  else if shortPathName ≠ none then shortPathName
  else uri.element.text

section IsParent

variable [DecidableEq Method] (ctx : UriContext Method)

/-- `uri_matches_as_parent`. The parent is always a copy, so no two pointers are the same;
a `NULL` alternative is equal to nothing. -/
def uriMatchesAsParent (fuel : Nat) (possibleParent parent : Uri Method) : Option Bool :=
  if possibleParent.element.text.getD [] = [] then
    match uriAppendString ctx possibleParent [chrSlash] with
    | none => some false
    | some alternate => uriEqual fuel false alternate parent
  else uriEqual fuel false possibleParent parent

/-- The loop of `gnome_vfs_uri_is_parent`; `none` while it is still running. -/
def uriIsParentLoop : Nat → Uri Method → Uri Method → Option Bool
  | 0, _, _ => none
  | fuel + 1, possibleParent, item =>
    match uriGetParent item with
    | none => some false
    | some parent =>
      match uriMatchesAsParent ctx fuel possibleParent parent with
      | none => none
      | some true => some true
      | some false => uriIsParentLoop fuel possibleParent parent

/-- `gnome_vfs_uri_is_parent`. -/
def uriIsParent (fuel : Nat) (possibleParent possibleChild : Uri Method) (recursive : Bool) : Option Bool :=
  if !recursive then
    match uriGetParent possibleChild with
    | none => some false
    | some parent => uriMatchesAsParent ctx fuel possibleParent parent
  else uriIsParentLoop ctx fuel possibleParent possibleChild

end IsParent

end GnomeVfs
