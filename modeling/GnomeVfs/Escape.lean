import GnomeVfs.CString
import GnomeVfs.Result

/- Percent escapes: the writers and readers of `gnome-vfs-utils.c`. -/
namespace GnomeVfs

/-- Which characters an escaping function leaves alone. -/
inductive UnsafeCharacterSet where
  | all | allowPlus | path | dosPath | host | slashes
  deriving DecidableEq

def UnsafeCharacterSet.mask : UnsafeCharacterSet → UInt8
  | .all => 0x1
  | .allowPlus => 0x2
  | .path => 0x4
  | .dosPath => 0x8
  | .host => 0x10
  | .slashes => 0x20

/-- The table `acceptable`, for the bytes from 32 to 127. -/
def acceptable : List UInt8 := [
    0x00, 0x3F, 0x20, 0x20, 0x20, 0x00, 0x2C, 0x3F, 0x3F, 0x3F, 0x3F, 0x22, 0x20, 0x3F, 0x3F, 0x1C,
    0x3F, 0x3F, 0x3F, 0x3F, 0x3F, 0x3F, 0x3F, 0x3F, 0x3F, 0x3F, 0x38, 0x20, 0x20, 0x2C, 0x20, 0x20,
    0x30, 0x3F, 0x3F, 0x3F, 0x3F, 0x3F, 0x3F, 0x3F, 0x3F, 0x3F, 0x3F, 0x3F, 0x3F, 0x3F, 0x3F, 0x3F,
    0x3F, 0x3F, 0x3F, 0x3F, 0x3F, 0x3F, 0x3F, 0x3F, 0x3F, 0x3F, 0x3F, 0x20, 0x20, 0x20, 0x20, 0x3F,
    0x20, 0x3F, 0x3F, 0x3F, 0x3F, 0x3F, 0x3F, 0x3F, 0x3F, 0x3F, 0x3F, 0x3F, 0x3F, 0x3F, 0x3F, 0x3F,
    0x3F, 0x3F, 0x3F, 0x3F, 0x3F, 0x3F, 0x3F, 0x3F, 0x3F, 0x3F, 0x3F, 0x20, 0x20, 0x20, 0x3F, 0x20]

/-- `ACCEPTABLE_CHAR`. -/
def acceptableChar (useMask : UnsafeCharacterSet) (c : UInt8) : Bool :=
  32 ≤ c && c < 128 && acceptable.getD (c.toNat - 32) 0 &&& useMask.mask != 0

/-- The table `hex`. -/
def hex (n : UInt8) : UInt8 := (ascii "0123456789ABCDEF").getD n.toNat 0

def escapeByte (c : UInt8) : Bytes := [chrPercent, hex (c >>> 4), hex (c &&& 15)]

/-- `gnome_vfs_escape_string_internal`. In host mode the first byte that has to be
escaped, or the first slash, ends the host part and switches to path mode. -/
def escapeStringInternal : UnsafeCharacterSet → Bytes → Bytes
  | _, [] => []
  | useMask, c :: rest =>
    let kept := acceptableChar useMask c
    let nextMask := if useMask = .host && (!kept || c == chrSlash) then .path else useMask
    (if kept then [c] else escapeByte c) ++ escapeStringInternal nextMask rest

/-- Without the `gint` count, which `escapeStringChecked` has. -/
def escapeString : Bytes → Bytes := escapeStringInternal .all

def escapePathString : Bytes → Bytes := escapeStringInternal .path

def escapeHostAndPathString : Bytes → Bytes := escapeStringInternal .host

/-- `gnome_vfs_escape_set`. -/
def escapeSet (s matchSet : Bytes) : Bytes :=
  s.flatMap fun c => if c ∈ matchSet then escapeByte c else [c]

/-- `hex_to_int`, with `none` for -1. -/
def hexToInt (c : UInt8) : Option UInt8 :=
  if 48 ≤ c && c ≤ 57 then some (c - 48)
  else if 65 ≤ c && c ≤ 70 then some (c - 65 + 10)
  else if 97 ≤ c && c ≤ 102 then some (c - 97 + 10)
  else none

/-- `unescape_character` on the two bytes it reads. -/
def unescapeCharacter (first second : UInt8) : Option UInt8 :=
  match hexToInt first, hexToInt second with
  | some high, some low => some (high <<< 4 ||| low)
  | _, _ => none

/-- `gnome_vfs_unescape_string`. A truncated escape runs into the terminator, which
is no hexadecimal digit. -/
def unescapeString (illegal : Bytes) : Bytes → Option Bytes
  | [] => some []
  | c :: rest =>
    if c = chrPercent then
      match rest with
      | first :: second :: tail =>
        match unescapeCharacter first second with
        | some d =>
          if d = 0 ∨ d ∈ illegal then none
          else (unescapeString illegal tail).map (d :: ·)
        | none => none
      | _ => none
    else (unescapeString illegal rest).map (c :: ·)

/-- The values of the table `uri_character_kind`. -/
inductive CharacterKind where
  | reserved | unreserved | delimiters | unwise | control | space
  deriving DecidableEq

def uriCharacterKindTable : List CharacterKind :=
  List.append (List.replicate 32 .control) [
      .space, .unreserved, .delimiters, .delimiters, .reserved, .delimiters, .reserved, .unreserved,
      .unreserved, .unreserved, .unreserved, .reserved, .reserved, .unreserved, .unreserved, .reserved,
      .unreserved, .unreserved, .unreserved, .unreserved, .unreserved, .unreserved, .unreserved, .unreserved,
      .unreserved, .unreserved, .reserved, .reserved, .delimiters, .reserved, .delimiters, .reserved,
      .reserved, .unreserved, .unreserved, .unreserved, .unreserved, .unreserved, .unreserved, .unreserved,
      .unreserved, .unreserved, .unreserved, .unreserved, .unreserved, .unreserved, .unreserved, .unreserved,
      .unreserved, .unreserved, .unreserved, .unreserved, .unreserved, .unreserved, .unreserved, .unreserved,
      .unreserved, .unreserved, .unreserved, .unwise, .unwise, .unwise, .unwise, .unreserved,
      .unwise, .unreserved, .unreserved, .unreserved, .unreserved, .unreserved, .unreserved, .unreserved,
      .unreserved, .unreserved, .unreserved, .unreserved, .unreserved, .unreserved, .unreserved, .unreserved,
      .unreserved, .unreserved, .unreserved, .unreserved, .unreserved, .unreserved, .unreserved, .unreserved,
      .unreserved, .unreserved, .unreserved, .unwise, .unwise, .unwise, .unreserved, .control]

/-- A read of `uri_character_kind`. The table has 128 entries, and what lies behind it
in memory is `beyond`. -/
def uriCharacterKind (beyond : UInt8 → CharacterKind) (c : UInt8) : CharacterKind :=
  if c < 128 then uriCharacterKindTable.getD c.toNat .control else beyond c

/-- `gnome_vfs_remove_optional_escapes`: the text left in the buffer, and the result.
The scan stops at the first byte that must not stand in a URI. -/
def removeOptionalEscapes (beyond : UInt8 → CharacterKind) : Bytes → Bytes × VfsResult
  | [] => ([], .ok)
  | c :: rest =>
    if c = chrPercent then
      match rest with
      | first :: second :: tail =>
        match unescapeCharacter first second with
        | some d =>
          let next := removeOptionalEscapes beyond tail
          if uriCharacterKind beyond d = .unreserved then (d :: next.1, next.2)
          else (c :: first :: second :: next.1, next.2)
        | none => (c :: rest, .invalidUri)
      | _ => (c :: rest, .invalidUri)
    else if 127 < c ∨ uriCharacterKind beyond c = .delimiters ∨
        uriCharacterKind beyond c = .unwise ∨ uriCharacterKind beyond c = .control then
      (c :: rest, .invalidUri)
    else
      let next := removeOptionalEscapes beyond rest
      (c :: next.1, next.2)

end GnomeVfs
