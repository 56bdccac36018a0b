import GnomeVfs.FtpControl
import GnomeVfs.UriList
import GnomeVfs.UriRelative

/- Lines in the form of `ls -al`. A read behind the end of a string, or of an entry of the columns that
has not been filled, is a fault of its own. -/
namespace GnomeVfs.ParseLs

open Ftp (scanInt isSpace)

/-- Something has been read that is not there, or the line is none of a listing. -/
inductive Fault where
  | outOfRange
  | unparsed
  deriving DecidableEq

abbrev Parse := Except Fault

/-- `s[i]`. The terminator is the last character that there is. -/
def readChar (s : Bytes) (i : Nat) : Parse UInt8 :=
  if i ≤ s.length then .ok (byteAt s i) else .error .outOfRange

/-- The string at `s + i`. -/
def readString (s : Bytes) (i : Nat) : Parse Bytes :=
  if i ≤ s.length then .ok (s.drop i) else .error .outOfRange

/-- `goto error`, unless this holds. -/
def expect (holds : Bool) : Parse Unit := if holds then .ok () else .error .unparsed

def given {α : Type} : Option α → Parse α
  | some a => .ok a
  | none => .error .unparsed

/-- The pointer goes past this character, where it stands there. -/
def skipChar (s : Bytes) (i : Nat) (c : UInt8) : Parse Nat := do
  let d ← readChar s i
  return if d = c then i + 1 else i

/-- An entry of `columns`, and that of `column_ptr`. -/
structure Column where
  start : Nat
  text : Bytes
  deriving DecidableEq

def maxCols : Nat := 30

def isSeparator (c : UInt8) : Bool := c = 32 || c = chrReturn || c = chrLineFeed

/-- The loop of `vfs_split_text`, with room for so many columns. The end of a column is written when the
next one is looked for, so the last column that there is room for goes on to the end of the text. -/
def splitFrom : Nat → Nat → Bytes → List Column
  | 0, _, _ => []
  | left + 1, start, s =>
    if s = [] then []
    else
      let begun := s.dropWhile isSeparator
      let word := begun.takeWhile (!isSeparator ·)
      let start := start + (s.length - begun.length)
      ⟨start, if left = 0 then begun else word⟩ :: splitFrom left (start + word.length) (begun.drop word.length)

def vfsSplitText (p : Bytes) : List Column := splitFrom maxCols 0 p

/-- `columns [i]` and `column_ptr [i]`. -/
def column (columns : List Column) (i : Nat) : Parse Column :=
  match columns[i]? with
  | some c => .ok c
  | none => .error .outOfRange

/-- `%2d` of `sscanf`, and the text behind the number. -/
def scanTwo (s : Bytes) : Option (Int × Bytes) :=
  let s := s.dropWhile isSpace
  (scanInt (s.take 2)).map fun scanned => (scanned.1, scanned.2 ++ s.drop 2)

/-- The numbers that `sscanf` stores for so many `%2d` with this character between them. -/
def scanTwos (between : UInt8) : Nat → Bytes → List Int
  | 0, _ => []
  | n + 1, s =>
    match scanTwo s with
    | none => []
    | some (value, []) => [value]
    | some (value, c :: rest) => value :: if c = between then scanTwos between n rest else []

def clampLong (value : Int) : Int := max (-2 ^ 63) (min value (2 ^ 63 - 1))

/-- `atol`, and `atoll`. -/
def atol (s : Bytes) : Int :=
  match scanInt s with
  | some (value, _) => clampLong value
  | none => 0

/-- A `long` in an `int`. -/
def toInt (value : Int) : Int := value.bmod (2 ^ 32)

/-- An `int` in a `uid_t`. -/
def toUid (value : Int) : Nat := (value % 2 ^ 32).toNat

def isNum (s : Bytes) : Bool := isDigit (byteAt s 0)

def sIfMt : Nat := 0o170000
def sIfDir : Nat := 0o040000
def sIfBlk : Nat := 0o060000
def sIfChr : Nat := 0o020000
def sIfLnk : Nat := 0o120000
def sIfIfo : Nat := 0o010000
def sIfReg : Nat := 0o100000

def isLink (mode : Nat) : Bool := mode &&& sIfMt = sIfLnk
def isDevice (mode : Nat) : Bool := mode &&& sIfMt = sIfChr || mode &&& sIfMt = sIfBlk

/-- The letters of `vfs_parse_filetype`. A socket is a pipe, because `IS_IFSOCK` is nowhere defined. -/
def filetypes : List (UInt8 × Nat) :=
  [('d'.toUInt8, sIfDir), ('b'.toUInt8, sIfBlk), ('c'.toUInt8, sIfChr), ('l'.toUInt8, sIfLnk), ('s'.toUInt8, sIfIfo),
    ('p'.toUInt8, sIfIfo), ('m'.toUInt8, sIfReg), ('n'.toUInt8, sIfReg), ('-'.toUInt8, sIfReg), ('?'.toUInt8, sIfReg)]

def vfsParseFiletype (c : UInt8) : Parse Nat := given (filetypes.lookup c)

/-- The letters of each `switch` of `vfs_parse_filemode`, and the bits that they stand for. -/
def filemodes : List (List (UInt8 × Nat)) :=
  [[('r'.toUInt8, 0o400), ('-'.toUInt8, 0)],
    [('w'.toUInt8, 0o200), ('-'.toUInt8, 0)],
    [('x'.toUInt8, 0o100), ('s'.toUInt8, 0o4100), ('S'.toUInt8, 0o4000), ('-'.toUInt8, 0)],
    [('r'.toUInt8, 0o040), ('-'.toUInt8, 0)],
    [('w'.toUInt8, 0o020), ('-'.toUInt8, 0)],
    [('x'.toUInt8, 0o010), ('s'.toUInt8, 0o2010), ('l'.toUInt8, 0o2000), ('S'.toUInt8, 0o2000), ('-'.toUInt8, 0)],
    [('r'.toUInt8, 0o004), ('-'.toUInt8, 0)],
    [('w'.toUInt8, 0o002), ('-'.toUInt8, 0)],
    [('x'.toUInt8, 0o001), ('t'.toUInt8, 0o1001), ('T'.toUInt8, 0o1000), ('-'.toUInt8, 0)]]

def filemodeFrom (p : Bytes) : List (List (UInt8 × Nat)) → Nat → Parse Nat
  | [], _ => .ok 0
  | letters :: rest, i => do
    let c ← readChar p i
    let bits ← given (letters.lookup c)
    let more ← filemodeFrom p rest (i + 1)
    return bits ||| more

/-- `vfs_parse_filemode (p + i)`. -/
def vfsParseFilemode (p : Bytes) (i : Nat) : Parse Nat := filemodeFrom p filemodes i

/-- The permissions of a Netware server, in brackets. -/
def notwellMode (p : Bytes) (i type : Nat) : Parse (Nat × Nat) := do
  let rest ← readString p i
  expect (8 < rest.length)
  let c ← readChar p (i + 8)
  expect (c = chrClose)
  return (type ||| if type = sIfDir then 0o755 else 0o644, i + 9)

def plainMode (p : Bytes) (i type : Nat) : Parse (Nat × Nat) := do
  let bits ← vfsParseFilemode p i
  let i ← skipChar p (i + 9) '+'.toUInt8
  return (type ||| bits, i)

/-- The type and the permissions, and where the columns begin. -/
def parseMode (p : Bytes) : Parse (Nat × Nat) := do
  let c ← readChar p 0
  let type ← vfsParseFiletype c
  let i ← skipChar p 1 32
  let d ← readChar p i
  if d = chrOpen then notwellMode p i type else plainMode p i type

/-- The fields of `struct tm` that are read or written. -/
structure Tm where
  sec : Int
  min : Int
  hour : Int
  mday : Int
  mon : Int
  year : Int
  wday : Int
  isdst : Int
  deriving DecidableEq, Inhabited

/-- What the system is asked for: accounts, the user and the group of the process, the local time, and
the time that a date stands for. -/
structure System where
  getpwnam : Bytes → Option Int
  getuid : Int
  getgrnam : Bytes → Option Int
  getgid : Int
  localtime : Tm
  mktime : Tm → Int
  deriving Inhabited

def isDosDate (str : Bytes) : Bool :=
  str.length = 8 && byteAt str 2 = byteAt str 5 && (ascii "\\-/").contains (byteAt str 2)

/-- `is_week`, and the day of the week. Any part of the names is one, also the empty one. -/
def isWeek (str : Bytes) : Option Nat := (strstr (ascii "SunMonTueWedThuFriSat") str).map (· / 3)

def isMonth (str : Bytes) : Option Nat := (strstr (ascii "JanFebMarAprMayJunJulAugSepOctNovDec") str).map (· / 3)

/-- The fields that `sscanf` has got a number for. -/
def Tm.setTime (tim : Tm) (numbers : List Int) : Tm :=
  { tim with
    hour := numbers[0]?.getD tim.hour
    min := numbers[1]?.getD tim.min
    sec := numbers[2]?.getD tim.sec }

/-- The numbers in the format that `is_time` chooses: the last colon is another one than the first. -/
def timeFields (str : Bytes) : Nat := if 1 < str.count chrColon then 3 else 2

/-- `is_time`, and what it leaves in the date. -/
def isTime (str : Bytes) (tim : Tm) : Bool × Tm :=
  if chrColon ∈ str then
    let numbers := scanTwos chrColon (timeFields str) str
    (numbers.length = timeFields str, tim.setTime numbers)
  else (false, tim)

/-- `while (*(p + count) != ' ')`, which does not stop at the terminator. -/
def toBlank : Bytes → Parse Bytes
  | [] => .error .outOfRange
  | c :: rest => if c = 32 then .ok (c :: rest) else toBlank rest

/-- The year that a column can stand for. -/
def yearOf (str : Bytes) : Option Int :=
  if chrColon ∈ str then none
  else if str.length ≠ 4 then none
  else
    match scanInt str with
    | none => none
    | some (year, _) => if year < 1900 ∨ 3000 < year then none else some year

/-- Two blanks and a digit. -/
def blanksAndDigit (p : Bytes) : Parse Bool := do
  let c ← readChar p 1
  if c ≠ 32 then return false
  else do
    let d ← readChar p 2
    return isDigit d

/-- `is_year`, and the date with the year in it. -/
def isYear (str : Bytes) (tim : Tm) (carbon : Bytes) (columns : List Column) (idx : Nat) : Parse (Option Tm) :=
  match yearOf str with
  | none => .ok none
  | some year => do
    let before ← column columns (idx - 1)
    let p ← readString carbon before.start
    let p ← toBlank p
    let wide ← blanksAndDigit p
    return if wide then some { tim with year := year - 1900 } else none

def isLastColumn (idx : Nat) (carbon : Bytes) (columns : List Column) : Parse Bool :=
  if idx + 1 = columns.length then .ok true
  else do
    let next ← column columns (idx + 1)
    let c ← readChar carbon (next.start - 1)
    return c = chrReturn || c = chrLineFeed

/-- Where the date goes on, what of it there is, and whether the year is among it. -/
structure Dated where
  idx : Nat
  tim : Tm
  gotYear : Bool
  deriving DecidableEq

/-- The week day goes. -/
def eatWeek (columns : List Column) (idx : Nat) (tim : Tm) : Parse (Column × Nat × Tm) := do
  let p ← column columns idx
  match isWeek p.text with
  | none => return (p, idx + 1, tim)
  | some day => do
    let p ← column columns (idx + 1)
    return (p, idx + 2, { tim with wday := day })

/-- `MM-DD-YY`, with dashes for whatever stands between. -/
def dosDate (p : Bytes) (idx : Nat) (tim : Tm) : Parse Dated := do
  expect (isDosDate p)
  match scanTwos 45 3 ((p.set 2 45).set 5 45) with
  | [month, day, year] =>
    return ⟨idx, { tim with mon := month - 1, mday := day, year := if year < 70 then year + 100 else year }, true⟩
  | _ => .error .unparsed

/-- The day of the month. -/
def parseDay (columns : List Column) (p : Bytes) (idx : Nat) (tim : Tm) : Parse Dated :=
  match isMonth p with
  | none => dosDate p idx tim
  | some month => do
    let day ← column columns idx
    expect (isNum day.text)
    return ⟨idx + 1, { tim with mon := month, mday := toInt (atol day.text) }, false⟩

/-- The other one of the time and the year, behind the first one of them. -/
def eatYear (str : Bytes) (carbon : Bytes) (columns : List Column) (date : Dated) : Parse Dated := do
  let year ← isYear str date.tim carbon columns date.idx
  match year with
  | some tim => return ⟨date.idx + 1, tim, true⟩
  | none => return date

def eatTime (str : Bytes) (date : Dated) : Dated :=
  let (isOne, tim) := isTime str date.tim
  if isOne then ⟨date.idx + 1, tim, date.gotYear⟩ else { date with tim := tim }

def eatSecond (carbon : Bytes) (columns : List Column) (gotTime : Bool) (date : Dated) : Parse Dated := do
  let c ← column columns date.idx
  if isNum c.text then do
    let last ← isLastColumn date.idx carbon columns
    if last then return date
    else if gotTime then if date.gotYear then return date else eatYear c.text carbon columns date
    else return eatTime c.text date
  else return date

/-- The time and the year, or one of them. Without a time there is a year, or the name is here. -/
def parseClock (carbon : Bytes) (columns : List Column) (date : Dated) : Parse Dated := do
  let c ← column columns date.idx
  expect (isNum c.text)
  let (isOne, tim) := isTime c.text date.tim
  if isOne then eatSecond carbon columns true ⟨date.idx + 1, tim, date.gotYear⟩
  else do
    let year ← isYear c.text tim carbon columns date.idx
    match year with
    | some tim => eatSecond carbon columns false ⟨date.idx + 1, tim, true⟩
    | none => return ⟨date.idx, tim, false⟩

/-- The year before this one, for a month that is far ahead. -/
def guessYear (current : Int) (date : Dated) : Tm :=
  if ¬ date.gotYear ∧ current < 6 ∧ current < date.tim.mon ∧ 6 ≤ date.tim.mon - current then
    { date.tim with year := date.tim.year - 1 }
  else date.tim

/-- `vfs_parse_filedate`: the column that the name begins at, and the time. -/
def vfsParseFiledate (system : System) (idx : Nat) (columns : List Column) (carbon : Bytes) : Parse (Nat × Int) := do
  let tim := { system.localtime with hour := 0, min := 0, sec := 0, isdst := -1 }
  let (p, idx, tim) ← eatWeek columns idx tim
  let date ← parseDay columns p.text idx tim
  let date ← parseClock carbon columns date
  return (date.idx, max 0 (system.mktime (guessYear system.localtime.mon date)))

section Line

structure Stat where
  mode : Nat
  nlink : Nat
  uid : Nat
  gid : Nat
  rdev : Nat
  size : Int
  mtime : Int
  atime : Int
  ctime : Int
  dev : Nat
  ino : Nat
  blksize : Nat
  blocks : Int
  deriving DecidableEq, Inhabited

/-- What is filled in for a line. -/
structure Entry where
  stat : Stat
  filename : Bytes
  linkname : Option Bytes
  deriving DecidableEq

variable (system : System)

/-- `finduid`. The cache begins with the empty name in it. -/
def finduid (uname : Bytes) : Int := if uname = [] then -993 else (system.getpwnam uname).getD system.getuid

def findgid (gname : Bytes) : Int := if gname = [] then -993 else (system.getgrnam gname).getD system.getgid

/-- The number in this column, or that of the account with this name. -/
def account (find : Bytes → Int) (c : Column) : Nat := toUid (if isNum c.text then atol c.text else find c.text)

def nlinkOf (c : Column) : Int := toInt (atol c.text)

/-- The link count and the owner. -/
def parseOwner (columns : List Column) (s : Stat) : Parse Stat := do
  let links ← column columns 0
  expect (0 ≤ nlinkOf links)
  let owner ← column columns 1
  return { s with nlink := (nlinkOf links).toNat, uid := account (finduid system) owner }

def startsDate (c : Column) : Bool := (isMonth c.text).isSome || (isWeek c.text).isSome || isDosDate c.text

/-- The column that the date begins at: this one, or one of so many behind it. -/
def dateFrom (columns : List Column) : Nat → Nat → Parse Nat
  | 0, idx => .ok idx
  | n + 1, idx => do
    let c ← column columns idx
    if startsDate c then return idx else dateFrom columns n (idx + 1)

/-- Whether there is no column for the group. -/
def lacksGroup (mode idx : Nat) : Bool := idx = 3 || (idx = 4 && isDevice mode)

/-- The group, and the column that the size begins at. -/
def parseGroup (columns : List Column) (idx : Nat) (s : Stat) : Parse (Nat × Stat) :=
  if lacksGroup s.mode idx then .ok (2, s)
  else do
    let group ← column columns 2
    return (3, { s with gid := account (findgid system) group })

/-- A device number, and a device that has it. -/
def deviceOf (major minor : Int) : Nat :=
  let maj := UInt32.ofInt (clampLong major)
  let min := UInt32.ofInt (clampLong minor)
  let low := min &&& (0xff : UInt32)
  let high := (min &&& (0xfff00 : UInt32)) <<< (12 : UInt32)
  let split := low ||| high
  UInt32.toNat (((maj &&& (0xfff : UInt32)) <<< (8 : UInt32)) ||| (split &&& (0xfff000ff : UInt32)))

/-- A number in this column. -/
def numberAt (columns : List Column) (idx : Nat) : Parse Int := do
  let c ← column columns idx
  expect (isNum c.text)
  let scanned ← given (scanInt c.text)
  return scanned.1

/-- The size, or the device. -/
def parseSize (columns : List Column) (idx : Nat) (s : Stat) : Parse Stat :=
  if isDevice s.mode then do
    let major ← numberAt columns idx
    let minor ← numberAt columns (idx + 1)
    return { s with rdev := deviceOf major minor, size := 0 }
  else do
    let c ← column columns idx
    expect (isNum c.text)
    return { s with size := atol c.text, rdev := 0 }

/-- The first `->` behind this column. -/
def findArrow (columns : List Column) (idx : Nat) : Option Nat :=
  ((columns.drop (idx + 1)).findIdx? fun c => c.text = ascii "->").map (· + (idx + 1))

/-- Whether a link is looked for: some list the target of a hard link as well. -/
def mayLink (columns : List Column) (idx : Nat) (s : Stat) : Bool :=
  isLink s.mode || (columns.length = idx + 3 && 1 < s.nlink)

/-- The names, from the text as it was. -/
def takeNames (carbon : Bytes) (columns : List Column) (idx : Nat) (s : Stat) : Parse Entry :=
  match if mayLink columns idx s then findArrow columns idx else none with
  | some arrow => do
    let first ← column columns idx
    let middle ← column columns arrow
    let name ← readString carbon first.start
    let next ← column columns (arrow + 1)
    let target ← readString carbon next.start
    return ⟨s, name.take (middle.start - first.start - 1), some (target.takeWhile isLineByte)⟩
  | none => do
    let first ← column columns idx
    let name ← readString carbon first.start
    return ⟨s, name.takeWhile isLineByte, none⟩

/-- The columns behind the permissions. -/
def parseColumns (carbon : Bytes) (columns : List Column) (s : Stat) : Parse Entry := do
  let s ← parseOwner system columns s
  let idx ← dateFrom columns 3 3
  expect (¬ (idx = 6 ∨ (idx = 5 ∧ ¬ isDevice s.mode)))
  let (idx2, s) ← parseGroup system columns idx s
  let s ← parseSize columns idx2 s
  let (idx, time) ← vfsParseFiledate system idx columns carbon
  -- no wrap: sizes of 2^63 - 511 and more are left out
  takeNames carbon columns idx
    { s with mtime := time, atime := time, ctime := time, dev := 0, ino := 0, blksize := 512, blocks := (s.size + 511).tdiv 512 }

/-- `gnome_vfs_parse_ls_lga`, of which every caller wants both names. -/
def gnomeVfsParseLsLga (p : Bytes) (s : Stat) : Parse Entry := do
  expect (¬ (ascii "total").isPrefixOf p)
  let (mode, i) ← parseMode p
  let carbon ← readString p i
  parseColumns system carbon (vfsSplitText carbon) { s with mode := mode }

end Line

end GnomeVfs.ParseLs
