import GnomeVfs.ParseLsReads
import GnomeVfs.UriPort
import Mathlib.Tactic.IntervalCases

/- The names in a standard line: which of them are found again, and where a date or a long name leads
the parser elsewhere. -/
namespace GnomeVfs.ParseLs

/-- A column, and what separates it from the one in front of it. -/
structure Field where
  gap : Bytes
  word : Bytes
  apart : gap ≠ [] ∧ ∀ c ∈ gap, isSeparator c = true
  whole : word ≠ [] ∧ ∀ c ∈ word, isSeparator c = false

def Field.text (field : Field) : Bytes := field.gap ++ field.word

/-- The columns that the fields are split into. -/
def columnsOf : Nat → List Field → List Column
  | _, [] => []
  | start, field :: fields =>
    ⟨start + field.gap.length, field.word⟩ :: columnsOf (start + field.text.length) fields

@[simp] theorem columnsOf_length (start : Nat) (fields : List Field) : (columnsOf start fields).length = fields.length := by
  induction fields generalizing start with
  | nil => rfl
  | cons field fields ih => simp [columnsOf, ih]

theorem columnsOf_append (start : Nat) (fields more : List Field) :
    columnsOf start (fields ++ more) = columnsOf start fields ++ columnsOf (start + (fields.flatMap Field.text).length) more := by
  induction fields generalizing start with
  | nil => simp [columnsOf]
  | cons field fields ih =>
    rw [List.cons_append, columnsOf, ih, columnsOf, List.cons_append, List.flatMap_cons, List.length_append, Nat.add_assoc]

/-- A text in which another column begins, or that is at its end. -/
def Begins (s : Bytes) : Prop := ∀ c, s.head? = some c → isSeparator c = true

theorem dropWhile_field (field : Field) (rest : Bytes) :
    (field.text ++ rest).dropWhile isSeparator = field.word ++ rest := by
  obtain ⟨some_word, clean⟩ := field.whole
  rw [Field.text, List.append_assoc, List.dropWhile_append_of_pos field.apart.2]
  cases same : field.word with
  | nil => exact absurd same some_word
  | cons c word => rw [List.cons_append, List.dropWhile_cons_of_neg (by simp [clean c (same ▸ List.mem_cons_self)])]

variable {rest : Bytes}

theorem takeWhile_field (field : Field) (begins : Begins rest) :
    (field.word ++ rest).takeWhile (!isSeparator ·) = field.word := by
  rw [List.takeWhile_append_of_pos fun c member => by simp [field.whole.2 c member]]
  cases rest with
  | nil => simp
  | cons c rest => rw [List.takeWhile_cons_of_neg (by simp [begins c rfl]), List.append_nil]

theorem splitFrom_field (field : Field) (begins : Begins rest) (left start : Nat) :
    splitFrom (left + 1) start (field.text ++ rest) =
      ⟨start + field.gap.length, if left = 0 then field.word ++ rest else field.word⟩ ::
        splitFrom left (start + field.text.length) rest := by
  have some_text : ¬ field.text ++ rest = [] := by simp [Field.text, field.apart.1]
  have behind : start + ((field.text ++ rest).length - (field.word ++ rest).length) = start + field.gap.length := by
    simp [Field.text]
  rw [splitFrom, if_neg some_text]
  dsimp only
  rw [dropWhile_field, takeWhile_field field begins, behind, List.drop_left, Field.text, List.length_append, Nat.add_assoc]

theorem begins_fields (fields : List Field) (begins : Begins rest) :
    Begins (fields.flatMap Field.text ++ rest) := by
  cases fields with
  | nil => exact begins
  | cons field fields =>
    intro c front
    obtain ⟨some_gap, separates⟩ := field.apart
    cases same : field.gap with
    | nil => exact absurd same some_gap
    | cons d gap =>
      simp only [List.flatMap_cons, Field.text, same, List.cons_append, List.head?_cons, Option.some.injEq] at front
      exact front ▸ separates d (same ▸ List.mem_cons_self)

theorem splitFrom_fields (fields : List Field) (begins : Begins rest) (left start : Nat)
    (room : fields.length < left) :
    splitFrom left start (fields.flatMap Field.text ++ rest) =
      columnsOf start fields ++
        splitFrom (left - fields.length) (start + (fields.flatMap Field.text).length) rest := by
  induction fields generalizing left start with
  | nil => rfl
  | cons field fields ih =>
    rw [List.length_cons] at room
    obtain ⟨more, same⟩ : ∃ more, left = more + 1 := ⟨left - 1, by omega⟩
    subst same
    rw [List.flatMap_cons, List.append_assoc, splitFrom_field field (begins_fields fields begins), if_neg (by omega),
      ih more _ (by omega), List.length_cons, Nat.add_sub_add_right, columnsOf, List.cons_append, List.length_append,
      Nat.add_assoc]

variable {c : UInt8}

section Numbers

theorem digit_whole (digit : isDigit c = true) : isSeparator c = false := by
  rw [isSeparator, Bool.or_eq_false_iff, Bool.or_eq_false_iff, decide_eq_false_iff_not, decide_eq_false_iff_not,
    decide_eq_false_iff_not]
  refine ⟨⟨?_, ?_⟩, ?_⟩ <;>
    · rintro rfl
      exact absurd digit (by decide)

theorem digit_ne_colon (digit : isDigit c = true) : chrColon ≠ c := by
  rintro rfl
  exact absurd digit (by decide)

variable {s : Bytes}

theorem scanInt_digits (some_digit : s ≠ []) (digits : ∀ c ∈ s, isDigit c = true) :
    Ftp.scanInt s = some ((decimalValue s : Int), []) := by
  cases s with
  | nil => exact absurd rfl some_digit
  | cons c rest =>
    obtain ⟨no_space, no_sign⟩ := digit_begins (digits c List.mem_cons_self)
    rw [Ftp.scanInt, List.dropWhile_cons_of_neg (by simp [no_space])]
    simp only [if_neg no_sign, List.takeWhile_eq_self_iff.mpr digits, List.dropWhile_eq_nil_iff.mpr digits,
      reduceCtorEq, if_false, List.head?_cons, Option.some.injEq]
    rw [if_neg fun minus => no_sign (Or.inl minus)]
    rfl

theorem isNum_digits (some_digit : s ≠ []) (digits : ∀ c ∈ s, isDigit c = true) : isNum s = true := by
  cases s with
  | nil => exact absurd rfl some_digit
  | cons c rest => exact digits c List.mem_cons_self

theorem atol_decimal {n : Nat} (small : n < 2 ^ 63) : atol (decimal n) = n := by
  rw [atol, scanInt_digits (decimal_ne_nil n) (decimal_isDigit n), decimalValue_decimal]
  simp only [clampLong]
  omega

theorem nlinkOf_decimal {n : Nat} (small : n < 2 ^ 31) (start : Nat) : nlinkOf ⟨start, decimal n⟩ = n := by
  rw [nlinkOf, atol_decimal (by omega), toInt]
  exact Int.bmod_eq_of_le (by omega) (by omega)

end Numbers

variable {table : List (UInt8 × Nat)} {mode : Nat}

section Lines

/-- The kinds of files that are listed here. -/
inductive Kind where
  | regular
  | directory
  | link
  deriving DecidableEq

def Kind.letter : Kind → UInt8
  | .regular => '-'.toUInt8
  | .directory => 'd'.toUInt8
  | .link => 'l'.toUInt8

def Kind.bits : Kind → Nat
  | .regular => sIfReg
  | .directory => sIfDir
  | .link => sIfLnk

/-- A letter for a permission, and a dash without it. -/
def permissionLetter (mode bit : Nat) (letter : Char) : UInt8 := if mode.testBit bit then letter.toUInt8 else '-'.toUInt8

/-- The letter that stands for two permissions. -/
def specialLetter (mode bit special : Nat) (both one : Char) : UInt8 :=
  if mode.testBit special then if mode.testBit bit then both.toUInt8 else one.toUInt8 else permissionLetter mode bit 'x'

/-- The permissions as `ls` prints them. -/
def lsMode (mode : Nat) : Bytes :=
  [permissionLetter mode 8 'r', permissionLetter mode 7 'w', specialLetter mode 6 11 's' 'S',
    permissionLetter mode 5 'r', permissionLetter mode 4 'w', specialLetter mode 3 10 's' 'S',
    permissionLetter mode 2 'r', permissionLetter mode 1 'w', specialLetter mode 0 9 't' 'T']

example : lsMode 0o4755 = ascii "rwsr-xr-x" := by decide

theorem letters_append : ∀ {tables : List (List (UInt8 × Nat))} {front rest : Bytes} {bits : Nat},
    letters tables front = some (bits, rest) → ∀ behind, letters tables (front ++ behind) = some (bits, rest ++ behind)
  | [], front, rest, bits, found, behind => by
    cases found
    rfl
  | table :: tables, [], rest, bits, found, behind => absurd found (by simp [letters])
  | table :: tables, c :: front, rest, bits, found, behind => by
    rw [letters] at found
    rw [List.cons_append, letters]
    cases here : table.lookup c with
    | none => simp [here] at found
    | some first =>
      cases later : letters tables front with
      | none => simp [here, later] at found
      | some pair =>
        rw [here, later] at found
        rw [letters_append later behind]
        cases found
        rfl

/-- This bit of a mode. -/
def bitAt (mode bit : Nat) : Nat := if mode.testBit bit then 2 ^ bit else 0

theorem testBit_bitAt (mode bit i : Nat) : (bitAt mode bit).testBit i = (decide (i = bit) && mode.testBit i) := by
  rw [bitAt]
  split
  next set =>
    rw [Nat.testBit_two_pow]
    by_cases same : i = bit
    · simp [same, set]
    · simp [same, Ne.symm same]
  next unset =>
    by_cases same : i = bit
    · simp [same, unset]
    · simp [same]

theorem lookup_permission (mode bit : Nat) {letter : Char}
    (each : ∀ a : Bool, table.lookup (if a then letter.toUInt8 else '-'.toUInt8) = some (if a then 2 ^ bit else 0)) :
    table.lookup (permissionLetter mode bit letter) = some (bitAt mode bit) :=
  each (mode.testBit bit)

theorem lookup_special (mode bit special : Nat) {both one : Char}
    (each : ∀ a b : Bool, table.lookup
    (if b then if a then both.toUInt8 else one.toUInt8 else if a then 'x'.toUInt8 else '-'.toUInt8) =
        some ((if a then 2 ^ bit else 0) ||| if b then 2 ^ special else 0)):
    table.lookup (specialLetter mode bit special both one) = some (bitAt mode bit ||| bitAt mode special) :=
  each (mode.testBit bit) (mode.testBit special)

theorem letters_cons {tables : List (List (UInt8 × Nat))} {s rest : Bytes} {bits more : Nat}
    (here : table.lookup c = some bits) (behind : letters tables s = some (more, rest)) :
    letters (table :: tables) (c :: s) = some (bits ||| more, rest) := by
  rw [letters, here, behind]

theorem letters_lsMode (small : mode < 2 ^ 12) : letters filemodes (lsMode mode) = some (mode, []) := by
  have parsed : letters filemodes (lsMode mode) = some (bitAt mode 8 ||| (bitAt mode 7 ||| (bitAt mode 6 ||| bitAt mode 11 |||
      (bitAt mode 5 ||| (bitAt mode 4 ||| (bitAt mode 3 ||| bitAt mode 10 ||| (bitAt mode 2 ||| (bitAt mode 1 |||
        (bitAt mode 0 ||| bitAt mode 9 ||| 0)))))))), []) :=
    letters_cons (lookup_permission mode 8 (by decide)) <| letters_cons (lookup_permission mode 7 (by decide)) <|
    letters_cons (lookup_special mode 6 11 (by decide)) <| letters_cons (lookup_permission mode 5 (by decide)) <|
    letters_cons (lookup_permission mode 4 (by decide)) <| letters_cons (lookup_special mode 3 10 (by decide)) <|
    letters_cons (lookup_permission mode 2 (by decide)) <| letters_cons (lookup_permission mode 1 (by decide)) <|
    letters_cons (lookup_special mode 0 9 (by decide)) rfl
  rw [parsed]
  congr 2
  refine Nat.eq_of_testBit_eq fun i => ?_
  simp only [Nat.testBit_or, testBit_bitAt]
  by_cases inside : i < 12
  · interval_cases i <;> simp
  · have above : mode.testBit i = false :=
      Nat.testBit_lt_two_pow (lt_of_lt_of_le small (Nat.pow_le_pow_right (by decide) (Nat.le_of_not_lt inside)))
    simp [above]

/-- The name of a user or of a group. -/
abbrev Word := {s : Bytes // s ≠ [] ∧ ∀ c ∈ s, isSeparator c = false}

/-- A number of so many digits. -/
abbrev Digits (n : Nat) := {s : Bytes // s.length = n ∧ ∀ c ∈ s, isDigit c = true}

/-- `hh:mm` or ` YYYY`, behind the day. -/
inductive Stamp where
  | clock (hour minute : Digits 2)
  | year (digits : Digits 4)

def monthName (month : Fin 12) : Bytes := ((ascii "JanFebMarAprMayJunJulAugSepOctNovDec").drop (3 * month)).take 3

/-- A standard line, but for what it is about. -/
structure Line where
  mode : Fin (2 ^ 12)
  owner : Word
  group : Word
  size : Fin (2 ^ 63)
  month : Fin 12
  day : {s : Bytes // s ≠ [] ∧ ∀ c ∈ s, isDigit c = true}
  gaps : Fin 6 → Nat

/-- A column behind this many blanks and another one. -/
def spaced (n : Nat) (word : Bytes) (whole : word ≠ [] ∧ ∀ c ∈ word, isSeparator c = false) : Field :=
  ⟨List.replicate (n + 1) 32, word, ⟨by simp, by simp [isSeparator]⟩, whole⟩

theorem decimal_whole (n : Nat) : decimal n ≠ [] ∧ ∀ c ∈ decimal n, isSeparator c = false :=
  ⟨decimal_ne_nil n, fun c member => digit_whole (decimal_isDigit n c member)⟩

theorem monthName_whole : ∀ month : Fin 12, monthName month ≠ [] ∧ ∀ c ∈ monthName month, isSeparator c = false := by
  decide

def Stamp.gap : Stamp → Nat
  | .clock .. => 0
  | .year _ => 1

def Stamp.text : Stamp → Bytes
  | .clock hour minute => hour.val ++ chrColon :: minute.val
  | .year digits => digits.val

theorem Stamp.whole (stamp : Stamp) : stamp.text ≠ [] ∧ ∀ c ∈ stamp.text, isSeparator c = false := by
  cases stamp with
  | clock hour minute =>
    refine ⟨by simp [text], fun c member => ?_⟩
    simp only [text, List.mem_append, List.mem_cons] at member
    rcases member with inside | rfl | inside
    · exact digit_whole (hour.property.2 c inside)
    · rfl
    · exact digit_whole (minute.property.2 c inside)
  | year digits =>
    refine ⟨fun empty => ?_, fun c member => digit_whole (digits.property.2 c member)⟩
    have length := digits.property.1
    rw [show digits.val = [] from empty] at length
    cases length

namespace Line

variable (line : Line)

def fields (nlink : Nat) (stamp : Stamp) : List Field :=
  [spaced (line.gaps 0) (decimal nlink) (decimal_whole nlink), spaced (line.gaps 1) line.owner line.owner.property,
    spaced (line.gaps 2) line.group line.group.property, spaced (line.gaps 3) (decimal line.size) (decimal_whole line.size),
    spaced (line.gaps 4) (monthName line.month) (monthName_whole line.month),
    spaced (line.gaps 5) line.day ⟨line.day.property.1, fun c member => digit_whole (line.day.property.2 c member)⟩,
    spaced stamp.gap stamp.text stamp.whole]

/-- What is behind the permissions. -/
def behind (nlink : Nat) (stamp : Stamp) (tail : Bytes) : Bytes :=
  (line.fields nlink stamp).flatMap Field.text ++ 32 :: tail

/-- The line with a name, or with a name and a target. -/
def text (kind : Kind) (nlink : Nat) (stamp : Stamp) (tail : Bytes) : Bytes :=
  kind.letter :: (lsMode line.mode ++ line.behind nlink stamp tail)

theorem permissions_text (kind : Kind) (nlink : Nat) (stamp : Stamp) (tail : Bytes) :
    permissions (line.text kind nlink stamp tail) = some (kind.bits ||| line.mode, line.behind nlink stamp tail) := by
  have front : (lsMode line.mode ++ line.behind nlink stamp tail).head? = some (permissionLetter line.mode 8 'r') := rfl
  have kept : permissionLetter line.mode 8 'r' ≠ 32 ∧ permissionLetter line.mode 8 'r' ≠ chrOpen := by
    rw [permissionLetter]
    split <;> decide
  have known : filetypes.lookup kind.letter = some kind.bits := by
    cases kind <;> rfl
  have parsed := letters_append (letters_lsMode line.mode.isLt) (line.behind nlink stamp tail)
  rw [text, permissions, known, Option.bind_some, without, front, if_neg fun same => kept.1 (Option.some.inj same),
    modeBehind, front, if_neg fun same => kept.2 (Option.some.inj same), parsed]
  rfl

end Line

theorem typeOf (kind : Kind) (small : mode < 2 ^ 12) : (kind.bits ||| mode) &&& sIfMt = kind.bits := by
  have apart : mode &&& sIfMt = 0 := by
    refine Nat.eq_of_testBit_eq fun i => ?_
    rw [Nat.testBit_and, Nat.zero_testBit]
    by_cases inside : i < 12
    · have unset : sIfMt.testBit i = false := by
        interval_cases i <;> rfl
      rw [unset, Bool.and_false]
    · rw [Nat.testBit_lt_two_pow (lt_of_lt_of_le small (Nat.pow_le_pow_right (by decide) (Nat.le_of_not_lt inside))),
        Bool.false_and]
  rw [Nat.and_or_distrib_right, apart, Nat.or_zero]
  cases kind <;> rfl

theorem not_isDevice (kind : Kind) (small : mode < 2 ^ 12) : isDevice (kind.bits ||| mode) = false := by
  rw [isDevice, typeOf kind small]
  cases kind <;> rfl

theorem isLink_iff (kind : Kind) (small : mode < 2 ^ 12) :
    isLink (kind.bits ||| mode) = decide (kind = .link) := by
  rw [isLink, typeOf kind small]
  cases kind <;> rfl

/-- A text occurs only where its characters do. -/
theorem mem_of_strstr {s pattern : Bytes} {i : Nat} (found : strstr s pattern = some i) (member : c ∈ pattern) :
    c ∈ s := by
  obtain ⟨_, here, _⟩ := List.findIdx?_eq_some_iff_getElem.mp found
  rw [List.getElem_tails, List.isPrefixOf_iff_prefix] at here
  exact List.mem_of_mem_drop (here.subset member)

theorem not_startsDate {s : Bytes} (some_digit : s ≠ []) (digits : ∀ c ∈ s, isDigit c = true) (start : Nat) :
    startsDate ⟨start, s⟩ = false := by
  have elsewhere : ∀ names : Bytes, (∀ c ∈ names, isDigit c = false) → strstr names s = none := by
    intro names letters
    cases found : strstr names s with
    | none => rfl
    | some i =>
      cases s with
      | nil => exact absurd rfl some_digit
      | cons c rest =>
        have inside := letters c (mem_of_strstr found List.mem_cons_self)
        rw [digits c List.mem_cons_self] at inside
        cases inside
  have undated : isDosDate s = false := by
    rw [isDosDate]
    by_cases eight : s.length = 8
    · have there : byteAt s 2 ∈ s := by
        rw [byteAt, List.getD_eq_getElem?_getD, List.getElem?_eq_getElem (by omega)]
        exact List.getElem_mem _
      have letters : ∀ c ∈ ascii "\\-/", isDigit c = false := by decide
      cases inside : (ascii "\\-/").contains (byteAt s 2) with
      | false => rw [Bool.and_false]
      | true =>
        have other := letters _ (List.contains_iff_mem.mp inside)
        rw [digits _ there] at other
        cases other
    · rw [decide_eq_false eight, Bool.false_and, Bool.false_and]
  rw [startsDate, isMonth, isWeek, elsewhere _ (by decide), elsewhere _ (by decide), undated]
  rfl

theorem isMonth_monthName : ∀ month : Fin 12, isMonth (monthName month) = some month.val := by
  decide

theorem isWeek_monthName : ∀ month : Fin 12, isWeek (monthName month) = none := by
  decide

end Lines

section Parse

variable (line : Line) (system : System) (nlink : Nat) (stamp : Stamp) (tail : Bytes)

/-- Where the columns of the line end, and the name begins behind a blank. -/
def Line.width : Nat := ((line.fields nlink stamp).flatMap Field.text).length

/-- The columns of the line, and those of the name. -/
def Line.columns : List Column :=
  columnsOf 0 (line.fields nlink stamp) ++ splitFrom 23 (line.width nlink stamp) (32 :: tail)

theorem split_behind : vfsSplitText (line.behind nlink stamp tail) = line.columns nlink stamp tail := by
  have begins : Begins (32 :: tail) := by
    rintro c ⟨rfl⟩
    rfl
  have split := splitFrom_fields (line.fields nlink stamp) begins maxCols 0 (by simp [Line.fields, maxCols])
  rw [Nat.zero_add] at split
  exact split

/-- With the date in the fifth column, the columns up to the day are parsed, and then the time or the year. -/
theorem parseColumns_day (carbon : Bytes) {links owner group size month day : Column} (rest : List Column)
    {s : Stat} {nlink bytes : Int} {m : Nat} (plain : isDevice s.mode = false) (counted : nlinkOf links = nlink)
    (some_link : 0 ≤ nlink) (undated : startsDate size = false) (sized : isNum size.text = true)
    (value : atol size.text = bytes) (no_week : isWeek month.text = none) (is_month : isMonth month.text = some m)
    (numbered : isNum day.text = true) :
    ∃ tim, ∃ filled : Int → Stat,
      (∀ time, (filled time).mode = s.mode ∧ (filled time).nlink = nlink ∧ (filled time).size = bytes) ∧
      parseColumns system carbon (links :: owner :: group :: size :: month :: day :: rest) s =
        (parseClock carbon (links :: owner :: group :: size :: month :: day :: rest) ⟨6, tim, false⟩ >>= fun date =>
          takeNames carbon (links :: owner :: group :: size :: month :: day :: rest) date.idx
            (filled (max 0 (system.mktime (guessYear system.localtime.mon date))))) := by
  let owned := { s with nlink := nlink.toNat, uid := account (finduid system) owner, gid := account (findgid system) group,
                        size := bytes, rdev := 0 }
  let noon := { system.localtime with hour := 0, min := 0, sec := 0, isdst := -1 }
  refine ⟨{ noon with mon := m, mday := toInt (atol day.text) }, fun time =>
    { owned with mtime := time, atime := time, ctime := time, dev := 0, ino := 0, blksize := 512, blocks := (bytes + 511).tdiv 512 },
    fun _ => ⟨rfl, Int.toNat_of_nonneg some_link, rfl⟩, ?_⟩
  have dated : startsDate month = true := by
    rw [startsDate, is_month]
    rfl
  have lacks : lacksGroup s.mode 4 = false := by
    rw [lacksGroup, plain]
    rfl
  simp only [parseColumns, parseOwner, parseGroup, parseSize, vfsParseFiledate, eatWeek, parseDay, dateFrom, column,
    List.getElem?_cons_zero, List.getElem?_cons_succ, ok_bind, counted, some_link, undated, dated, lacks, sized, plain,
    no_week, is_month, numbered, expect, value, decide_true, if_true, Bool.false_eq_true, if_false, pure, Except.pure,
    bind_assoc, Nat.reduceAdd, Nat.reduceEqDiff, false_and, or_self, not_false_eq_true, decide_true]
  rfl

theorem parseColumns_line {nlink : Nat} (few : nlink < 2 ^ 31) (kind : Kind) {s : Stat} (mode : s.mode = kind.bits ||| line.mode) :
    ∃ tim, ∃ filled : Int → Stat,
      (∀ time, (filled time).mode = s.mode ∧ ((filled time).nlink : Int) = nlink ∧ (filled time).size = line.size) ∧
      parseColumns system (line.behind nlink stamp tail) (line.columns nlink stamp tail) s =
        (parseClock (line.behind nlink stamp tail) (line.columns nlink stamp tail) ⟨6, tim, false⟩ >>= fun date =>
          takeNames (line.behind nlink stamp tail) (line.columns nlink stamp tail) date.idx
            (filled (max 0 (system.mktime (guessYear system.localtime.mon date))))) :=
  parseColumns_day system _ _ (mode ▸ not_isDevice kind line.mode.isLt) (nlinkOf_decimal few _) (Int.natCast_nonneg _)
    (not_startsDate (decimal_ne_nil line.size) (decimal_isDigit line.size) _)
    (isNum_digits (decimal_ne_nil line.size) (decimal_isDigit line.size)) (atol_decimal line.size.isLt)
    (isWeek_monthName line.month) (isMonth_monthName line.month) (isNum_digits line.day.property.1 line.day.property.2)

end Parse

section Tail

def firstWord (s : Bytes) : Bytes := s.takeWhile (!isSeparator ·)

def afterWord (s : Bytes) : Bytes := s.dropWhile (!isSeparator ·)

variable {tail : Bytes}

theorem firstWord_append (s : Bytes) : firstWord s ++ afterWord s = s := List.takeWhile_append_dropWhile

theorem drop_firstWord (s : Bytes) : s.drop (firstWord s).length = afterWord s := by
  conv_lhs => rw [← firstWord_append s]
  rw [List.drop_left' (congrArg (fun t => (firstWord t).length) (firstWord_append s).symm)]

theorem begins_afterWord (s : Bytes) : Begins (afterWord s) := by
  intro c first
  have stop := List.head?_dropWhile_not (!isSeparator ·) s
  rw [← afterWord, first] at stop
  simpa using stop

theorem dropWhile_tail (front : ∀ c, tail.head? = some c → isSeparator c = false) :
    (32 :: tail).dropWhile isSeparator = tail := by
  rw [List.dropWhile_cons_of_pos (by rfl)]
  cases tail with
  | nil => rfl
  | cons c rest => exact List.dropWhile_cons_of_neg (by simp [front c rfl])

theorem splitFrom_tail (front : ∀ c, tail.head? = some c → isSeparator c = false) (left start : Nat) :
    splitFrom (left + 2) start (32 :: tail) =
      ⟨start + 1, firstWord tail⟩ :: splitFrom (left + 1) (start + 1 + (firstWord tail).length) (afterWord tail) := by
  rw [splitFrom, if_neg (List.cons_ne_nil _ _)]
  dsimp only
  rw [dropWhile_tail front, if_neg (Nat.succ_ne_zero left), List.length_cons, Nat.add_sub_cancel_left, ← firstWord, drop_firstWord]

/-- A column is behind whatever separates it from what is in front. -/
theorem splitFrom_start {left start : Nat} {s : Bytes} (begins : Begins s) {c : Column} {more : List Column}
    (split : splitFrom left start s = c :: more) : start < c.start ∧ c.start ≤ start + s.length := by
  cases left with
  | zero => cases split
  | succ left =>
    rw [splitFrom] at split
    cases s with
    | nil => cases split
    | cons d rest =>
      rw [if_neg (List.cons_ne_nil _ _), List.dropWhile_cons_of_pos (begins d rfl)] at split
      have shorter : (rest.dropWhile isSeparator).length ≤ rest.length := rest.length_dropWhile_le isSeparator
      have same := (List.cons.inj split).1
      subst same
      simp only [List.length_cons]
      omega

theorem splitFrom_eq_nil {left start : Nat} {s : Bytes} : splitFrom (left + 1) start s = [] ↔ s = [] := by
  rw [splitFrom]
  split <;> simp [*]

end Tail

section Clock

theorem column_of_fields (before : List Field) (field : Field) (after : List Field) (rest : Bytes) :
    ∃ c, (columnsOf 0 (before ++ field :: after))[before.length]? = some c ∧ c.text = field.word ∧
      ((before ++ field :: after).flatMap Field.text ++ rest).drop c.start =
        field.word ++ (after.flatMap Field.text ++ rest) := by
  refine ⟨⟨(before.flatMap Field.text).length + field.gap.length, field.word⟩, ?_, rfl, ?_⟩
  · rw [columnsOf_append, List.getElem?_append_right (by simp), columnsOf_length, Nat.sub_self, columnsOf,
      List.getElem?_cons_zero, Nat.zero_add]
  · rw [List.flatMap_append, List.flatMap_cons, Field.text, List.append_assoc, ← List.drop_drop, List.drop_left]
    simp only [List.append_assoc]
    exact List.drop_left ..

variable (line : Line) (nlink : Nat) (stamp : Stamp) (tail : Bytes)

theorem line_within :
    Within (line.behind nlink stamp tail) (line.columns nlink stamp tail) := by
  rw [← split_behind]
  exact vfsSplitText_within _

theorem drop_width : (line.behind nlink stamp tail).drop (line.width nlink stamp) = 32 :: tail := List.drop_left ..

theorem drop_name : (line.behind nlink stamp tail).drop (line.width nlink stamp + 1) = tail := by
  rw [← List.drop_drop, drop_width]
  rfl

theorem stamp_column : ∃ c, (line.columns nlink stamp tail)[6]? = some c ∧ c.text = stamp.text ∧
    (line.behind nlink stamp tail).drop c.start = stamp.text ++ 32 :: tail := by
  obtain ⟨c, found, text, behind⟩ :=
    column_of_fields ((line.fields nlink stamp).take 6) (spaced stamp.gap stamp.text stamp.whole) [] (32 :: tail)
  refine ⟨c, ?_, text, behind⟩
  rw [Line.columns, List.getElem?_append_left (by simp [Line.fields])]
  exact found

theorem day_column : ∃ c, (line.columns nlink stamp tail)[5]? = some c ∧
    (line.behind nlink stamp tail).drop c.start =
      line.day.val ++ (List.replicate (stamp.gap + 1) 32 ++ (stamp.text ++ 32 :: tail)) := by
  obtain ⟨c, found, _, behind⟩ := column_of_fields ((line.fields nlink stamp).take 5)
    (spaced (line.gaps 5) line.day ⟨line.day.property.1, fun c member => digit_whole (line.day.property.2 c member)⟩)
    [spaced stamp.gap stamp.text stamp.whole] (32 :: tail)
  refine ⟨c, ?_, behind.trans ?_⟩
  · rw [Line.columns, List.getElem?_append_left (by simp [Line.fields])]
    exact found
  · simp [spaced, Field.text]

variable {tail}

theorem name_columns (front : ∀ c, tail.head? = some c → isSeparator c = false) :
    (line.columns nlink stamp tail).drop 7 =
      ⟨line.width nlink stamp + 1, firstWord tail⟩ ::
        splitFrom 22 (line.width nlink stamp + 1 + (firstWord tail).length) (afterWord tail) := by
  have length : (columnsOf 0 (line.fields nlink stamp)).length = 7 := columnsOf_length 0 _
  rw [Line.columns, ← length, List.drop_left, splitFrom_tail front 21]

theorem scanTwo_digits {a b : UInt8} (first : isDigit a = true) (second : isDigit b = true) (rest : Bytes) :
    ∃ n, scanTwo (a :: b :: rest) = some (n, rest) := by
  have digits : ∀ c ∈ [a, b], isDigit c = true := by
    intro c member
    rcases List.mem_cons.mp member with rfl | member
    · exact first
    · rw [List.mem_singleton.mp member]
      exact second
  refine ⟨decimalValue [a, b], ?_⟩
  rw [scanTwo, List.dropWhile_cons_of_neg (by simp [(digit_begins first).1])]
  dsimp only [List.take, List.drop]
  rw [scanInt_digits (List.cons_ne_nil _ _) digits]
  rfl

theorem isClock_clock (hour minute : Digits 2) : isClock (Stamp.clock hour minute).text = true := by
  obtain ⟨hour, two_hours, hours⟩ := hour
  obtain ⟨minute, two_minutes, minutes⟩ := minute
  obtain ⟨a, b, rfl⟩ := List.length_eq_two.mp two_hours
  obtain ⟨c, d, rfl⟩ := List.length_eq_two.mp two_minutes
  have digits : isDigit a = true ∧ isDigit b = true ∧ isDigit c = true ∧ isDigit d = true :=
    ⟨hours a (by simp), hours b (by simp), minutes c (by simp), minutes d (by simp)⟩
  obtain ⟨h, scanned⟩ := scanTwo_digits digits.1 digits.2.1 [chrColon, c, d]
  obtain ⟨m, behind⟩ := scanTwo_digits digits.2.2.1 digits.2.2.2 []
  have one : [a, b, chrColon, c, d].count chrColon = 1 := by
    rw [List.count_cons_of_ne (digit_ne_colon digits.1).symm, List.count_cons_of_ne (digit_ne_colon digits.2.1).symm,
      List.count_cons_self, List.count_cons_of_ne (digit_ne_colon digits.2.2.1).symm,
      List.count_cons_of_ne (digit_ne_colon digits.2.2.2).symm, List.count_nil]
  rw [isClock, timeFields, Stamp.text]
  simp only [List.cons_append, List.nil_append, one, Nat.lt_irrefl, if_false, scanTwos, scanned, behind, if_true,
    List.length_cons, List.length_nil, List.mem_cons, true_or, or_true, decide_true, Bool.and_self]

theorem isClock_digits {s : Bytes} (digits : ∀ c ∈ s, isDigit c = true) : isClock s = false := by
  have absent : chrColon ∉ s := fun member => digit_ne_colon (digits _ member) rfl
  rw [isClock, decide_eq_false absent, Bool.false_and]

theorem dropWhile_stamp (stamp : Stamp) (rest : Bytes) :
    (stamp.text ++ 32 :: rest).dropWhile (· ≠ 32) = 32 :: rest := by
  have clean : ∀ c ∈ stamp.text, decide (c ≠ 32) = true := by
    intro c member
    rw [decide_eq_true_eq]
    rintro rfl
    exact absurd (stamp.whole.2 32 member) (by decide)
  rw [List.dropWhile_append_of_pos clean, List.dropWhile_cons_of_neg (by simp)]

/-- One blank, and no digit behind another one. -/
theorem not_isGap (front : ∀ c, tail.head? = some c → isSeparator c = false) : isGap (32 :: tail) = false := by
  cases tail with
  | nil => rfl
  | cons d rest =>
    have other : d ≠ 32 := by
      rintro rfl
      exact absurd (front 32 rfl) (by decide)
    cases rest with
    | nil => rfl
    | cons e rest => rw [isGap, decide_eq_false other, Bool.false_and]

section Year

variable {carbon : Bytes} {columns : List Column} {before : Column} {idx : Nat}

theorem isYear_narrow (within : Within carbon columns) (there : columns[idx - 1]? = some before)
    (blank : 32 ∈ carbon.drop before.start) (narrow : isWide carbon before = false) (str : Bytes) (tim : Tm) :
    isYear str tim carbon columns idx = .ok none := by
  rw [isYear_eq within there]
  cases yearOf str with
  | none => rfl
  | some year =>
    dsimp only
    rw [if_pos blank, narrow, if_neg Bool.false_ne_true]

theorem isYear_wide (within : Within carbon columns) (there : columns[idx - 1]? = some before)
    (blank : 32 ∈ carbon.drop before.start) (wide : isWide carbon before = true) (str : Bytes) (tim : Tm) :
    isYear str tim carbon columns idx = .ok ((yearOf str).map fun year => { tim with year := year - 1900 }) := by
  rw [isYear_eq within there]
  cases yearOf str with
  | none => rfl
  | some year =>
    dsimp only
    rw [if_pos blank, wide, if_pos rfl]
    rfl

end Year

/-- Behind a time the name begins, whatever it looks like, where no digit follows two blanks. -/
theorem parseClock_clock (hour minute : Digits 2) (tim : Tm) {first : Column} {more : List Column}
    (names : (line.columns nlink (.clock hour minute) tail).drop 7 = first :: more)
    (narrow : isGap (32 :: tail) = false) :
    ∃ tim', parseClock (line.behind nlink (.clock hour minute) tail) (line.columns nlink (.clock hour minute) tail)
      ⟨6, tim, false⟩ = .ok ⟨7, tim', false⟩ := by
  obtain ⟨c, found, text, behind⟩ := stamp_column line nlink (.clock hour minute) tail
  have within := line_within line nlink (.clock hour minute) tail
  have wide : isWide (line.behind nlink (.clock hour minute) tail) c = false := by
    rw [isWide, behind, dropWhile_stamp, narrow]
  have blank : 32 ∈ (line.behind nlink (.clock hour minute) tail).drop c.start := by
    rw [behind]
    exact List.mem_append_right _ List.mem_cons_self
  have numbered : isNum c.text = true := by
    obtain ⟨a, b, digits⟩ := List.length_eq_two.mp hour.property.1
    rw [text, Stamp.text, digits]
    exact hour.property.2 a (digits ▸ List.mem_cons_self)
  have clock : (isTime c.text tim).1 = true := by rw [isTime_fst, text, isClock_clock]
  cases parsed : isTime c.text tim with
  | mk isOne tim' =>
    rw [parsed] at clock
    refine ⟨tim', ?_⟩
    rw [parseClock, column, found, ok_bind, numbered, expect, if_pos rfl, ok_bind, parsed]
    dsimp only at clock ⊢
    rw [clock, if_pos rfl, eatSecond, column_of_drop names, ok_bind]
    by_cases number : isNum first.text = true
    · rw [if_pos number, isLastColumn_eq within names, ok_bind]
      split
      · rfl
      · rw [if_pos rfl, if_neg Bool.false_ne_true, eatYear, isYear_narrow within found blank wide]
        rfl
    · rw [if_neg number]
      rfl

/-- The column behind a year that the name is taken to begin at. -/
def nameAfterYear (digits : Bytes) (name : Bytes) : Nat :=
  if yearOf digits = none then 6
  else if isNum (firstWord name) && isClock (firstWord name) && afterWord name ≠ [] then 8 else 7

theorem endsLine_name (clean : ∀ c ∈ tail, isLineByte c = true) :
    endsLine (line.behind nlink stamp tail)
      (splitFrom 22 (line.width nlink stamp + 1 + (firstWord tail).length) (afterWord tail)) =
      decide (afterWord tail = []) := by
  cases split : splitFrom 22 (line.width nlink stamp + 1 + (firstWord tail).length) (afterWord tail) with
  | nil => rw [splitFrom_eq_nil.mp split]; rfl
  | cons next more =>
    have some_more : afterWord tail ≠ [] := fun empty => by
      rw [empty] at split
      cases split
    obtain ⟨above, below⟩ := splitFrom_start (begins_afterWord tail) split
    have parts := congrArg List.length (firstWord_append tail)
    rw [List.length_append] at parts
    have inside : byteAt (line.behind nlink stamp tail) (next.start - 1) ∈ tail := by
      obtain ⟨i, here⟩ : ∃ i, next.start - 1 = line.width nlink stamp + 1 + i :=
        ⟨next.start - 1 - (line.width nlink stamp + 1), by omega⟩
      have short : i < tail.length := by omega
      rw [byteAt, List.getD_eq_getElem?_getD, here, ← List.getElem?_drop, drop_name, List.getElem?_eq_getElem short]
      exact List.getElem_mem short
    rw [endsLine, clean _ inside, decide_eq_false some_more]
    rfl

theorem isGap_year (digits : Digits 4) (day rest : Bytes) (numbers : ∀ c ∈ day, isDigit c = true) :
    isGap ((day ++ (List.replicate 2 32 ++ (digits.val ++ rest))).dropWhile (· ≠ 32)) = true := by
  have clean : ∀ c ∈ day, decide (c ≠ 32) = true := by
    intro c member
    rw [decide_eq_true_eq]
    rintro rfl
    exact absurd (numbers 32 member) (by decide)
  rw [List.dropWhile_append_of_pos clean]
  obtain ⟨text, four, all⟩ := digits
  cases text with
  | nil => cases four
  | cons c others =>
    have digit := all c List.mem_cons_self
    change isGap (32 :: 32 :: c :: (others ++ rest)) = true
    rw [isGap, digit]
    rfl

theorem parseClock_year (front : ∀ c, tail.head? = some c → isSeparator c = false)
    (clean : ∀ c ∈ tail, isLineByte c = true) (digits : Digits 4) (tim : Tm) :
    ∃ date, parseClock (line.behind nlink (.year digits) tail) (line.columns nlink (.year digits) tail) ⟨6, tim, false⟩ = .ok date ∧
      date.idx = nameAfterYear digits tail := by
  obtain ⟨c, found, text, _⟩ := stamp_column line nlink (.year digits) tail
  obtain ⟨day, day_found, behind⟩ := day_column line nlink (.year digits) tail
  have within := line_within line nlink (.year digits) tail
  have names := name_columns line nlink (.year digits) front
  have wide : isWide (line.behind nlink (.year digits) tail) day = true := by
    rw [isWide, behind]
    exact isGap_year digits line.day _ line.day.property.2
  have blank : 32 ∈ (line.behind nlink (.year digits) tail).drop day.start := by
    rw [behind]
    exact List.mem_append_right _ (List.mem_append_left _ (by simp))
  have numbered : isNum c.text = true := by
    rw [text]
    exact isNum_digits (Stamp.year digits).whole.1 digits.property.2
  have clock : (isTime c.text tim).1 = false := by
    rw [isTime_fst, text]
    exact isClock_digits digits.property.2
  cases parsed : isTime c.text tim with
  | mk isOne tim' =>
    rw [parsed] at clock
    rw [parseClock, column, found, ok_bind, numbered, expect, if_pos rfl, ok_bind, parsed]
    dsimp only at clock ⊢
    rw [clock, if_neg Bool.false_ne_true, isYear_wide within day_found blank wide, nameAfterYear, text, Stamp.text, ok_bind]
    cases yearOf digits.val with
    | none => exact ⟨_, rfl, rfl⟩
    | some year =>
      dsimp only [Option.map_some]
      rw [if_neg (by simp), eatSecond, column_of_drop names, ok_bind]
      by_cases number : isNum (firstWord tail) = true
      · rw [if_pos number, isLastColumn_eq within names, ok_bind, endsLine_name line nlink _ clean]
        by_cases last : afterWord tail = []
        · simp [last, pure, Except.pure]
        · rw [decide_eq_false last, if_neg Bool.false_ne_true, if_neg Bool.false_ne_true, eatTime]
          cases timed : isTime (firstWord tail) { tim' with year := year - 1900 } with
          | mk isTwo tim'' =>
            have same := isTime_fst (firstWord tail) { tim' with year := year - 1900 }
            rw [timed] at same
            dsimp only at same ⊢
            rw [number, ← same]
            cases isTwo <;> simp [last, pure, Except.pure]
      · rw [if_neg number]
        simp [number, pure, Except.pure]

end Clock

section Names

variable (system : System) (line : Line)

theorem parse_text (kind : Kind) (nlink : Nat) (stamp : Stamp) (tail : Bytes) (s : Stat) :
    gnomeVfsParseLsLga system (line.text kind nlink stamp tail) s =
      parseColumns system (line.behind nlink stamp tail) (line.columns nlink stamp tail)
        { s with mode := kind.bits ||| line.mode } := by
  have listed : (ascii "total").isPrefixOf (line.text kind nlink stamp tail) = false := by
    cases kind <;> rfl
  have gives := parseMode_gives (line.text kind nlink stamp tail)
  rw [line.permissions_text] at gives
  obtain ⟨i, parsed, inside, behind⟩ := gives
  rw [gnomeVfsParseLsLga, listed, expect, if_pos (by simp), ok_bind, parsed, ok_bind]
  dsimp only
  rw [readString_eq inside, ok_bind, behind, split_behind]

theorem takeNames_plain {carbon : Bytes} {columns : List Column} {idx : Nat} {c : Column}
    (within : Within carbon columns) (here : columns[idx]? = some c) (s : Stat)
    (plain : mayLink columns idx s = false) :
    takeNames carbon columns idx s = .ok ⟨s, (carbon.drop c.start).takeWhile isLineByte, none⟩ := by
  have inside := within c (List.mem_of_getElem? here)
  rw [takeNames, plain, if_neg Bool.false_ne_true]
  dsimp only
  rw [column, here, ok_bind, readString_eq inside]
  rfl

/-- The name of a file as it can be listed. -/
abbrev ListedName := {s : Bytes // (∀ c ∈ s, isLineByte c = true) ∧ s.head? ≠ some 32}

theorem ListedName.front (name : ListedName) : ∀ c, name.val.head? = some c → isSeparator c = false := by
  intro c first
  have other : c ≠ 32 := by
    rintro rfl
    exact name.property.2 first
  have inside := name.property.1 c (List.mem_of_mem_head? first)
  rw [isLineByte, Bool.and_eq_true, decide_eq_true_eq, decide_eq_true_eq] at inside
  simp [isSeparator, other, inside.1, inside.2]

/-- The line has been read as one of a file with this name, and with this target. -/
def ReadAs (kind : Kind) (name : Bytes) (target : Option Bytes) (x : Parse Entry) : Prop :=
  ∃ entry, x = .ok entry ∧ entry.filename = name ∧ entry.linkname = target ∧ entry.stat.size = line.size ∧
    entry.stat.mode = kind.bits ||| line.mode

/-- The name begins with a time, and goes on behind a blank. -/
def TimeFirst (name : Bytes) : Prop :=
  ∃ word rest, name = word ++ 32 :: rest ∧ (∀ c ∈ word, isSeparator c = false) ∧ isNum word = true ∧ isClock word = true

/-- The date is over where this name begins: the year is one that the parser knows, and is not taken to be
followed by a time. -/
def Stamp.EndsBefore (name : Bytes) : Stamp → Prop
  | .clock .. => True
  | .year digits => 1900 ≤ decimalValue digits ∧ decimalValue digits ≤ 3000 ∧ ¬ TimeFirst name

theorem yearOf_digits (digits : Digits 4) :
    yearOf digits ≠ none ↔ 1900 ≤ decimalValue digits ∧ decimalValue digits ≤ 3000 := by
  have no_colon : chrColon ∉ digits.val := fun member => digit_ne_colon (digits.property.2 _ member) rfl
  have some_digit : digits.val ≠ [] := (Stamp.year digits).whole.1
  rw [yearOf, if_neg no_colon, if_neg (not_not_intro digits.property.1), scanInt_digits some_digit digits.property.2]
  dsimp only
  split
  next outside =>
    simp only [ne_eq, not_true_eq_false, false_iff]
    omega
  next inside =>
    simp only [ne_eq, reduceCtorEq, not_false_eq_true, true_iff]
    omega

theorem timeFirst_iff (name : ListedName) : TimeFirst name ↔
    isNum (firstWord name) = true ∧ isClock (firstWord name) = true ∧ afterWord name ≠ [] := by
  constructor
  · rintro ⟨word, rest, same, whole, number, clock⟩
    have first : firstWord name = word := by
      rw [same, firstWord, List.takeWhile_append_of_pos fun c member => by simp [whole c member],
        List.takeWhile_cons_of_neg (by simp [isSeparator]), List.append_nil]
    have parts := congrArg List.length (firstWord_append name)
    rw [first]
    refine ⟨number, clock, fun none_left => ?_⟩
    rw [none_left, first, same] at parts
    simp at parts
  · rintro ⟨number, clock, more⟩
    cases split : afterWord name with
    | nil => exact absurd split more
    | cons c rest =>
      have separates := begins_afterWord name c (by rw [split]; rfl)
      have whole := firstWord_append name
      have inside := name.property.1 c (by rw [← whole, split]; exact List.mem_append_right _ List.mem_cons_self)
      rw [isLineByte, Bool.and_eq_true, decide_eq_true_eq, decide_eq_true_eq] at inside
      obtain rfl : c = 32 := by simpa [isSeparator, inside.1, inside.2] using separates
      refine ⟨firstWord name, rest, by rw [← split, whole], fun d member => ?_, number, clock⟩
      simpa using List.mem_takeWhile_imp member

theorem nameAfterYear_eq (digits : Digits 4) (name : ListedName) :
    nameAfterYear digits name = 7 ↔ (Stamp.year digits).EndsBefore name := by
  rw [nameAfterYear, Stamp.EndsBefore, timeFirst_iff, ← and_assoc, ← yearOf_digits digits]
  by_cases unknown : yearOf digits = none
  · simp [unknown]
  · rw [if_neg unknown]
    by_cases timed : isNum (firstWord name) = true ∧ isClock (firstWord name) = true ∧ afterWord name ≠ []
    · simp [timed]
    · simp [unknown]

theorem takeWhile_lineByte {s : Bytes} (clean : ∀ c ∈ s, isLineByte c = true) : s.takeWhile isLineByte = s :=
  List.takeWhile_eq_self_iff.mpr clean

theorem lineByte_of_whole (whole : isSeparator c = false) : isLineByte c = true := by
  rw [isSeparator, Bool.or_eq_false_iff, Bool.or_eq_false_iff, decide_eq_false_iff_not, decide_eq_false_iff_not] at whole
  simp [isLineByte, whole.1.2, decide_eq_false_iff_not.mp whole.2]

theorem takeNames_name (nlink : Nat) (stamp : Stamp) (name : ListedName) {s : Stat}
    (plain : mayLink (line.columns nlink stamp name) 7 s = false) :
    takeNames (line.behind nlink stamp name) (line.columns nlink stamp name) 7 s = .ok ⟨s, name, none⟩ := by
  have here := (drop_cons (name_columns line nlink stamp name.front)).1
  rw [takeNames_plain (line_within line nlink stamp name) here s plain]
  dsimp only
  rw [drop_name, takeWhile_lineByte name.property.1]

/-- In any other column, another text is found. -/
theorem takeNames_elsewhere (nlink : Nat) (digits : Digits 4) (name : ListedName) {s : Stat}
    (plain : ∀ idx, mayLink (line.columns nlink (.year digits) name) idx s = false)
    (elsewhere : nameAfterYear digits name ≠ 7) :
    ∃ found, takeNames (line.behind nlink (.year digits) name) (line.columns nlink (.year digits) name)
        (nameAfterYear digits name) s = .ok ⟨s, found, none⟩ ∧ found ≠ name := by
  have within := line_within line nlink (.year digits) name
  rw [nameAfterYear] at elsewhere ⊢
  split
  next unknown =>
    obtain ⟨c, found, text, behind⟩ := stamp_column line nlink (.year digits) name
    refine ⟨_, takeNames_plain within found s (plain 6), fun same => ?_⟩
    have clean : ∀ c ∈ (Stamp.year digits).text ++ 32 :: name.val, isLineByte c = true := by
      intro c member
      rcases List.mem_append.mp member with inside | inside
      · exact lineByte_of_whole ((Stamp.year digits).whole.2 c inside)
      · rcases List.mem_cons.mp inside with rfl | inside
        · rfl
        · exact name.property.1 c inside
    rw [behind, takeWhile_lineByte clean] at same
    have length := congrArg List.length same
    rw [List.length_append, List.length_cons] at length
    omega
  next known =>
    rw [if_neg known] at elsewhere
    split at elsewhere
    next timed =>
      rw [if_pos timed]
      have names := name_columns line nlink (.year digits) name.front
      cases split : splitFrom 22 (line.width nlink (.year digits) + 1 + (firstWord name).length) (afterWord name) with
      | nil =>
        simp [splitFrom_eq_nil.mp split] at timed
      | cons next more =>
        rw [split] at names
        obtain ⟨above, below⟩ := splitFrom_start (begins_afterWord name) split
        refine ⟨_, takeNames_plain within (drop_cons (drop_cons names).2).1 s (plain 8), fun same => ?_⟩
        have length := congrArg List.length same
        have shorter := (List.takeWhile_prefix isLineByte (l := (line.behind nlink (.year digits) name).drop next.start)).length_le
        have whole := congrArg List.length (drop_name line nlink (.year digits) name.val)
        have parts := congrArg List.length (firstWord_append name.val)
        have more_left : 0 < (afterWord name.val).length :=
          List.length_pos_iff.mpr fun empty => by
            rw [empty] at split
            cases split
        rw [List.length_append] at parts
        rw [List.length_drop] at shorter whole
        omega
    next plain_name => exact absurd rfl elsewhere

/-- A standard line of a file or a directory with one link is read as one with its name if and only if the
name begins right behind what is taken for the date. -/
theorem standard_line_read (directory : Bool) (stamp : Stamp) (name : ListedName) (s : Stat) :
    ReadAs line (if directory then .directory else .regular) name none
        (gnomeVfsParseLsLga system (line.text (if directory then .directory else .regular) 1 stamp name) s) ↔
      stamp.EndsBefore name := by
  rw [parse_text]
  generalize known : (if directory then Kind.directory else Kind.regular) = kind
  have other : kind ≠ .link := by
    rw [← known]
    split <;> simp
  obtain ⟨tim, filled, holds, parsed⟩ := parseColumns_line line system stamp name.val (by decide : 1 < 2 ^ 31) kind
    (s := { s with mode := kind.bits ||| line.mode }) rfl
  have plain : ∀ time idx, mayLink (line.columns 1 stamp name) idx (filled time) = false := by
    intro time idx
    obtain ⟨mode, nlink, _⟩ := holds time
    have one : ¬ 1 < (filled time).nlink := by omega
    rw [mayLink, mode, isLink_iff kind line.mode.isLt, decide_eq_false other, decide_eq_false one, Bool.and_false]
    rfl
  rw [parsed]
  cases stamp with
  | clock hour minute =>
    obtain ⟨tim', found⟩ := parseClock_clock line 1 hour minute tim (name_columns line 1 _ name.front) (not_isGap name.front)
    rw [found, ok_bind, takeNames_name line 1 _ name (plain _ 7)]
    exact iff_of_true ⟨_, rfl, rfl, rfl, (holds _).2.2, (holds _).1⟩ trivial
  | year digits =>
    obtain ⟨date, found, idx⟩ := parseClock_year line 1 name.front name.property.1 digits tim
    rw [found, ok_bind, idx, ← nameAfterYear_eq]
    by_cases here : nameAfterYear digits name = 7
    · rw [here, takeNames_name line 1 _ name (plain _ 7)]
      exact iff_of_true ⟨_, rfl, rfl, rfl, (holds _).2.2, (holds _).1⟩ rfl
    · obtain ⟨text, taken, differs⟩ := takeNames_elsewhere line 1 digits name (plain (max 0 (system.mktime (guessYear system.localtime.mon date)))) here
      rw [taken]
      refine iff_of_false ?_ here
      rintro ⟨entry, ⟨rfl⟩, same, -⟩
      exact differs same

def sampleLine : Line where
  mode := 0o644
  owner := ⟨ascii "root", by decide⟩
  group := ⟨ascii "root", by decide⟩
  size := 5
  month := 0
  day := ⟨ascii "1", by decide⟩
  gaps := fun _ => 0

example : sampleLine.text .regular 1 (.year ⟨ascii "2004", by decide⟩) (ascii "bla") =
    ascii "-rw-r--r-- 1 root root 5 Jan 1  2004 bla" := by decide

/-- A time at the front of a name behind a year is eaten with the date, and a year before 1900 is part of
the name. -/
theorem dates_and_names_confused :
    (gnomeVfsParseLsLga default (sampleLine.text .regular 1 (.year ⟨ascii "2004", by decide⟩) (ascii "10:30 notes")) default).map
        Entry.filename = .ok (ascii "notes") ∧
      (gnomeVfsParseLsLga default (sampleLine.text .regular 1 (.year ⟨ascii "1850", by decide⟩) (ascii "notes")) default).map
        Entry.filename = .ok (ascii "1850 notes") := by
  decide

end Names

end GnomeVfs.ParseLs
