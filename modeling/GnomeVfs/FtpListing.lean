import GnomeVfs.DaemonListing
import GnomeVfs.FtpMethod
import GnomeVfs.ParseLs

/- Reading the entries of a directory from the text of its listing, which the parser of a line is handed
from the line on. -/
namespace GnomeVfs.Ftp

open Daemon (FileInfo)
open ParseLs

section Info

def typeUnknown : BitVec 32 := 0
def typeRegular : BitVec 32 := 1
def typeDirectory : BitVec 32 := 2

/-- `GNOME_VFS_FILE_INFO_FIELDS_*`. -/
def fieldType : BitVec 32 := 1 <<< 0
def fieldPermissions : BitVec 32 := 1 <<< 1
def fieldFlags : BitVec 32 := 1 <<< 2
def fieldDevice : BitVec 32 := 1 <<< 3
def fieldInode : BitVec 32 := 1 <<< 4
def fieldLinkCount : BitVec 32 := 1 <<< 5
def fieldSize : BitVec 32 := 1 <<< 6
def fieldBlockCount : BitVec 32 := 1 <<< 7
def fieldIoBlockSize : BitVec 32 := 1 <<< 8
def fieldAtime : BitVec 32 := 1 <<< 9
def fieldMtime : BitVec 32 := 1 <<< 10
def fieldCtime : BitVec 32 := 1 <<< 11
def fieldSymlinkName : BitVec 32 := 1 <<< 12
def fieldMimeType : BitVec 32 := 1 <<< 13
def fieldIds : BitVec 32 := 1 <<< 15

/-- `GNOME_VFS_FILE_FLAGS_SYMLINK`. -/
def flagSymlink : BitVec 32 := 1 <<< 0

/-- The file types with their `S_IF*`. -/
def fileTypes : List (Nat × BitVec 32) :=
  [(sIfDir, typeDirectory), (sIfChr, 5), (sIfBlk, 6), (sIfIfo, 3), (0o140000, 4), (sIfReg, typeRegular), (sIfLnk, 7)]

/-- Blocks of less than 4k are not told of. -/
def ioBlockSizeOf (blksize : Nat) : Nat := if 0 < blksize ∧ blksize < 4096 then 4096 else blksize

/-- `gnome_vfs_stat_to_file_info`. -/
def statToFileInfo (info : FileInfo) (s : Stat) : FileInfo :=
  { info with
    type := (fileTypes.lookup (s.mode &&& sIfMt)).getD typeUnknown
    permissions := BitVec.ofNat 32 (s.mode &&& 0o7777)
    device := BitVec.ofNat 64 s.dev
    inode := BitVec.ofNat 64 s.ino
    linkCount := BitVec.ofNat 32 s.nlink
    uid := BitVec.ofNat 32 s.uid
    gid := BitVec.ofNat 32 s.gid
    size := BitVec.ofInt 64 s.size
    blockCount := BitVec.ofInt 64 s.blocks
    ioBlockSize := BitVec.ofNat 32 (ioBlockSizeOf s.blksize)
    atime := BitVec.ofInt 64 s.atime
    ctime := BitVec.ofInt 64 s.ctime
    mtime := BitVec.ofInt 64 s.mtime
    validFields := info.validFields ||| (fieldType ||| fieldPermissions ||| fieldFlags ||| fieldDevice ||| fieldInode |||
      fieldLinkCount ||| fieldSize ||| fieldBlockCount ||| fieldIoBlockSize ||| fieldAtime ||| fieldMtime ||| fieldCtime |||
      fieldIds) }

/-- `gnome_vfs_file_info_new`. -/
def newInfo : FileInfo := ⟨none, 0, 0, 0, 0, 0, 0, 0, 0, 0, 0, 0, 0, 0, 0, 0, none, none, none⟩

/-- What is asked outside: the MIME types of a name and of a mode, and GLib for the day that a text stands
for, as the `struct tm` of a valid date. -/
structure Desktop where
  mimeTypeFromName : Option Bytes → Bytes
  mimeTypeFromModeOrDefault : Nat → Bytes
  mimeTypeFromMode : Nat → Option Bytes
  dateParse : Bytes → Option Tm
  deriving Inhabited

variable (system : System) (desktop : Desktop)

/-- The info of an entry that `gnome_vfs_parse_ls_lga` has found. -/
def entryInfo (info : FileInfo) (entry : ParseLs.Entry) : FileInfo :=
  let info := statToFileInfo info entry.stat
  let name := pathGetBasename entry.filename
  let info :=
    { info with
      validFields := (info.validFields &&& ~~~(fieldDevice ||| fieldInode ||| fieldIoBlockSize)) ||| fieldIoBlockSize
      ioBlockSize := 32 * 1024
      name := some (if name = [] then [chrSlash] else name) }
  let info :=
    match entry.linkname with
    | some target =>
      { info with
        symlinkName := some target
        validFields := info.validFields ||| (fieldSymlinkName ||| fieldFlags)
        flags := info.flags ||| flagSymlink }
    | none => info
  { info with
    mimeType := some (if info.type = typeRegular then desktop.mimeTypeFromName info.name
      else desktop.mimeTypeFromModeOrDefault entry.stat.mode)
    validFields := info.validFields ||| fieldMimeType }

/-- `unix_ls_to_file_info`, with a `struct stat` of any contents. -/
def unixLsToFileInfo (stat : Stat) (ls : Bytes) (info : FileInfo) : Parse (Bool × FileInfo) :=
  match gnomeVfsParseLsLga system ls stat with
  | .ok entry => .ok (true, entryInfo desktop info entry)
  | .error .unparsed => .ok (false, info)
  | .error .outOfRange => .error .outOfRange

end Info

section Netware

/-- The value of a digit in any base. -/
def digitIn (c : UInt8) : Nat :=
  if isDigit c then c.toNat - 48
  else if isUpper c then c.toNat - 55
  else if isUpper (c - 32) then c.toNat - 87
  else 36

/-- The number that a text begins with in this base. -/
def valueIn (base : Nat) (s : Bytes) : Nat :=
  (s.takeWhile fun c => digitIn c < base).foldl (fun n c => n * base + digitIn c) 0

/-- The magnitude of a number whose base is told by its prefix. -/
def unsignedValue : Bytes → Nat
  | 48 :: x :: c :: rest => if (x = 120 ∨ x = 88) ∧ digitIn c < 16 then valueIn 16 (c :: rest) else valueIn 8 (x :: c :: rest)
  | 48 :: rest => valueIn 8 rest
  | s => valueIn 10 s

/-- `strtol (s, NULL, 0)`. -/
def strtol (s : Bytes) : Int :=
  match s.dropWhile isSpace with
  | 45 :: rest => clampLong (-(unsignedValue rest : Int))
  | 43 :: rest => clampLong (unsignedValue rest)
  | s => clampLong (unsignedValue s)

variable (system : System) (desktop : Desktop)

/-- The time behind the date, where it is one. -/
def netwareClock (text : Bytes) (tim : Tm) : Tm :=
  if chrColon ∈ text then
    match scanTwos chrColon 2 (text.drop 7) with
    | [hour, minute] => { tim with hour := hour, min := minute }
    | _ => tim
  else tim

/-- The date in the twelve characters of a Netware listing. -/
def netwareTime (text : Bytes) : Option Int :=
  (desktop.dateParse (if chrColon ∈ text then text.take 6 else text)).map fun date =>
    system.mktime (netwareClock text { date with hour := 0, min := 0, sec := 0, isdst := -1 })

def netwareType (ls : Bytes) : BitVec 32 :=
  if ls.head? = some 'd'.toUInt8 then typeDirectory else if ls.head? = some '-'.toUInt8 then typeRegular else typeUnknown

def withSize (ls : Bytes) (info : FileInfo) : FileInfo :=
  if 35 < ls.length then
    { info with size := BitVec.ofInt 64 (strtol (ls.drop 35)), validFields := info.validFields ||| fieldSize }
  else info

def withTime (ls : Bytes) (info : FileInfo) : FileInfo :=
  let info := { info with mtime := 0 }
  let info :=
    if 51 ≤ ls.length then
      match netwareTime system desktop ((ls.drop 51).take 12) with
      | some time => { info with mtime := BitVec.ofInt 64 time, validFields := info.validFields ||| fieldMtime }
      | none => info
    else info
  { info with atime := info.mtime, ctime := info.mtime }

/-- `netware_ls_to_file_info`. -/
def netwareLsToFileInfo (ls : Bytes) (info : FileInfo) : Bool × FileInfo :=
  let info := { info with validFields := 0 }
  if (ascii "total").isPrefixOf ls then (false, info)
  else
    let info := withSize ls { info with type := netwareType ls, validFields := fieldType }
    let info := withTime system desktop ls info
    let info := { info with name := if 64 ≤ ls.length then some ((ls.drop 64).takeWhile isLineByte) else none }
    (true,
      { info with
        mimeType := if info.type = typeRegular then some (desktop.mimeTypeFromName info.name) else desktop.mimeTypeFromMode sIfDir
        validFields := info.validFields ||| fieldMimeType
        permissions := 0o777
        flags := 0 })

end Netware

section Listing

variable (system : System) (desktop : Desktop) (stat : Stat)

/-- The parser for the lines of this server. -/
def lsToFileInfo (serverType : Bytes) (ls : Bytes) (info : FileInfo) : Parse (Bool × FileInfo) :=
  if serverType.take 7 = ascii "NETWARE" then .ok (netwareLsToFileInfo system desktop ls info)
  else unixLsToFileInfo system desktop stat ls info

def withoutPermissions (info : FileInfo) : FileInfo :=
  { info with validFields := info.validFields &&& ~~~fieldPermissions }

/-- The pointer goes to the end of the line, and past all the white space there. -/
def nextLine (text : Bytes) : Bytes := (text.dropWhile isLineByte).dropWhile isAsciiSpace

/-- What a call comes to; `running` is a loop that has not come to its end. -/
inductive Reading where
  | running
  | eof
  | found (info : FileInfo) (rest : Bytes)
  deriving DecidableEq

/-- The loop of `do_read_directory` with so many rounds, for a handle that does not follow links. -/
def readRounds (serverType : Bytes) : Nat → Bytes → FileInfo → Parse Reading
  | 0, _, _ => .ok .running
  | n + 1, text, info => do
    let (success, info) ← lsToFileInfo system desktop stat serverType text info
    let info := withoutPermissions info
    if text = [] then return .eof
    else if success then return .found info (nextLine text)
    else readRounds serverType n (nextLine text) info

/-- `do_read_directory`, from where the handle has got to in its listing. -/
def doReadDirectory (serverType text : Bytes) (info : FileInfo) : Parse Reading :=
  if text = [] then .ok .eof else readRounds system desktop stat serverType (text.length + 1) text info

/-- What a caller is told. -/
inductive Answer where
  | running
  | eof
  | entry (info : FileInfo)
  deriving DecidableEq

/-- The answer, and where the handle has got to. -/
def Reading.answer : Reading → Answer × Bytes
  | .running => (.running, [])
  | .eof => (.eof, [])
  | .found info rest => (.entry info, rest)

/-- The answers to a call for each of these infos. -/
def readDirectory (serverType : Bytes) : Bytes → List FileInfo → Parse (List Answer)
  | _, [] => .ok []
  | text, info :: infos => do
    let reading ← doReadDirectory system desktop stat serverType text info
    let answers ← readDirectory serverType reading.answer.2 infos
    return reading.answer.1 :: answers

end Listing

end GnomeVfs.Ftp
