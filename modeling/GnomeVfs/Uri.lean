import Mathlib.Data.Nat.Digits.Defs
import GnomeVfs.Canonicalize
import GnomeVfs.UriSplit

/- The parser and the printer of `gnome-vfs-uri.c`. -/
namespace GnomeVfs

/-- The fields of `GnomeVFSURI` other than the parent and the reference count. -/
structure Element (Method : Type) where
  text : Option Bytes
  fragmentId : Option Bytes
  methodString : Bytes
  method : Option Method
  deriving DecidableEq

/-- The fields that `GnomeVFSToplevelURI` adds. -/
structure Toplevel where
  hostName : Option Bytes
  hostPort : UInt32
  userName : Option Bytes
  password : Option Bytes
  deriving DecidableEq

def Toplevel.empty : Toplevel := ⟨none, 0, none, none⟩

/-- A URI chain. The element without a parent is the one with the toplevel fields. -/
inductive Uri (Method : Type) where
  | toplevel (element : Element Method) (top : Toplevel)
  | child (element : Element Method) (parent : Uri Method)
  deriving DecidableEq

/-- What the parser asks of the rest of the library: the registered methods and
transforms, and the bytes that lie behind the table `uri_character_kind`. -/
structure UriContext (Method : Type) where
  methodGet : Bytes → Option Method
  transformGet : Bytes → Option (Bytes → Option Bytes)
  beyond : UInt8 → CharacterKind

variable {Method : Type}

namespace Uri

def element : Uri Method → Element Method
  | .toplevel e _ => e
  | .child e _ => e

def parent : Uri Method → Option (Uri Method)
  | .toplevel _ _ => none
  | .child _ p => some p

/-- `gnome_vfs_uri_get_toplevel`. -/
def getToplevel : Uri Method → Toplevel
  | .toplevel _ top => top
  | .child _ p => p.getToplevel

/-- The elements of the chain, the outermost last. -/
def elements : Uri Method → List (Element Method)
  | .toplevel e _ => [e]
  | .child e p => e :: p.elements

end Uri

/-- The methods whose text keeps the reserved characters as they are. -/
def unescapedMethods : List Bytes :=
  [ascii "http", ascii "https", ascii "dav", ascii "davs", ascii "ghelp", ascii "gnome-help",
    ascii "help"]

def escapedCharacters : Bytes := ascii ";?&=+$,"

/-- What `set_uri_element` does to a text that is not `NULL`. -/
def normalizeText (ctx : UriContext Method) (methodString text : Bytes) : Bytes :=
  let escaped := if methodString ∈ unescapedMethods then text else escapeSet text escapedCharacters
  canonicalizePathname (removeOptionalEscapes ctx.beyond escaped).1

/-- `set_uri_element` on the `len` bytes `text`, in front of the byte `after`. -/
def setUriElement (ctx : UriContext Method) (hasParent : Bool) (methodString text : Bytes)
    (after : UInt8) : Option Bytes × Toplevel :=
  if text = [] then (some [chrSlash], .empty)
  else if !hasParent ∧ text.take 2 = [chrSlash, chrSlash] then
    let split := splitToplevelUri (text.drop 2) after
    (split.text.map (normalizeText ctx methodString),
      ⟨split.host, split.port, split.user, split.password⟩)
  else (some (normalizeText ctx methodString text), .empty)

def isMethodChar (c : UInt8) : Bool := isAlnum c || c ∈ ascii "+-."

/-- `get_method_string`: the method and the text behind it. -/
def getMethodString (substring : Bytes) : Bytes × Bytes :=
  match substring.dropWhile isMethodChar with
  | c :: rest =>
    if c = chrColon then (strdown (substring.takeWhile isMethodChar), rest)
    else (ascii "file", substring)
  | [] => (ascii "file", substring)

/-- The text up to the first `#`, the byte behind it, and what follows the `#`. -/
def splitExtension (scanner : Bytes) : Bytes × UInt8 × Option Bytes :=
  match strchr scanner chrHash with
  | none => (scanner, 0, none)
  | some extension => (strdupTo scanner extension, chrHash, some extension.tail)

/-- `parse_uri_substring`. Each `#` is passed once, so the length of the text is fuel enough. -/
def parseUriSubstring (ctx : UriContext Method) : Nat → Bytes → Uri Method → Option (Uri Method)
  | 0, _, _ => none
  | fuel + 1, substring, parent =>
    if substring = [] then none
    else
      let (methodString, scanner) := getMethodString substring
      match ctx.methodGet methodString with
      | none => none
      | some method =>
        let (body, after, extension) := splitExtension scanner
        let text := (setUriElement ctx true methodString body after).1
        match extension with
        | none => some (.child ⟨text, none, methodString, some method⟩ parent)
        | some rest =>
          if chrColon ∉ rest then
            some (.child ⟨text, some rest, methodString, some method⟩ parent)
          else
            let uri := .child ⟨text, none, methodString, some method⟩ parent
            some ((parseUriSubstring ctx fuel rest uri).getD uri)

/-- The outermost element from the text behind its method, and the chain behind it. -/
def parseToplevel (ctx : UriContext Method) (methodString scanner : Bytes) : Uri Method :=
  let (body, after, extension) := splitExtension scanner
  let (text, top) := setUriElement ctx false methodString body after
  let method := ctx.methodGet methodString
  match extension with
  | none => .toplevel ⟨text, none, methodString, method⟩ top
  | some rest =>
    if chrColon ∉ rest then .toplevel ⟨text, some rest, methodString, method⟩ top
    else
      let uri := .toplevel ⟨text, none, methodString, method⟩ top
      (parseUriSubstring ctx rest.length rest uri).getD uri

/-- The method and the text behind it once a registered transform has been applied. -/
def applyTransform (ctx : UriContext Method) (methodString scanner : Bytes) : Bytes × Bytes :=
  match ctx.transformGet methodString with
  | none => (methodString, scanner)
  | some transform =>
    match transform scanner with
    | none => (methodString, scanner)
    | some newUriString => getMethodString newUriString

/-- `gnome_vfs_uri_new_private`. -/
def uriNewPrivate (ctx : UriContext Method) (textUri : Bytes)
    (allowUnknownMethods allowUnsafeMethods allowTransforms : Bool) : Option (Uri Method) :=
  if textUri = [] then none
  else
    let (methodString, scanner) := getMethodString textUri
    if methodString = ascii "pipe" ∧ !allowUnsafeMethods then none
    else
      let (methodString, scanner) :=
        if allowTransforms then applyTransform ctx methodString scanner
        else (methodString, scanner)
      if (ctx.methodGet methodString).isNone ∧ !allowUnknownMethods then none
      else some (parseToplevel ctx methodString scanner)

/-- `gnome_vfs_uri_new`. -/
def uriNew (ctx : UriContext Method) (textUri : Bytes) : Option (Uri Method) :=
  uriNewPrivate ctx textUri false false true

/-- `GnomeVFSURIHideOptions`. -/
structure HideOptions where
  userName : Bool := false
  password : Bool := false
  hostName : Bool := false
  hostPort : Bool := false
  toplevelMethod : Bool := false
  fragmentIdentifier : Bool := false

def HideOptions.none : HideOptions := {}

/-- `%u`. -/
def decimal (n : Nat) : Bytes :=
  if n = 0 then [48] else (Nat.digits 10 n).reverse.map fun d => UInt8.ofNat (48 + d)

def printHost (host : Bytes) : Bytes :=
  if chrColon ∈ host then chrOpen :: (host ++ [chrClose]) else host

def printUserInfo (user password : Option Bytes) : Bytes :=
  (user.map escapeString).getD [] ++
    ((password.map fun p => chrColon :: escapeString p).getD [] ++
      if user.isSome || password.isSome then [chrAt] else [])

def printPort (port : UInt32) : Bytes :=
  if 0 < port then chrColon :: decimal port.toNat else []

/-- The authority, with what is not hidden of it. -/
def printAuthority (top : Toplevel) (hide : HideOptions) : Bytes :=
  printUserInfo (if hide.userName then none else top.userName)
      (if hide.password then none else top.password) ++
    (((if hide.hostName then none else top.hostName).map printHost).getD [] ++
      printPort (if hide.hostPort then 0 else top.hostPort))

def printFragment (fragment : Option Bytes) (hide : HideOptions) : Bytes :=
  if hide.fragmentIdentifier then [] else (fragment.map (chrHash :: ·)).getD []

/-- `//` is left out for URIs such as `pipe:foo`. -/
def printsSlashes (e : Element Method) (top : Toplevel) : Bool :=
  top.userName.isSome || top.hostName.isSome || e.text.bind List.head? == some chrSlash

/-- `gnome_vfs_uri_to_string`. -/
def uriToString (hide : HideOptions) : Uri Method → Bytes
  | .toplevel e top =>
    (if hide.toplevelMethod then []
      else e.methodString ++ chrColon :: if printsSlashes e top then [chrSlash, chrSlash] else []) ++
      (printAuthority top hide ++ (e.text.getD [] ++ printFragment e.fragmentId hide))
  | .child e parent =>
    uriToString hide parent ++ chrHash ::
      (e.methodString ++ chrColon :: (e.text.getD [] ++ printFragment e.fragmentId hide))

/-- `gnome_vfs_make_uri_canonical_old`. -/
def makeUriCanonicalOld (ctx : UriContext Method) (originalUriText : Bytes) : Option Bytes :=
  (uriNewPrivate ctx originalUriText true true false).map (uriToString .none)

end GnomeVfs
