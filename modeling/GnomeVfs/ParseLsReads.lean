import GnomeVfs.ParseLs

/- Which lines are read no further than they go: the parts of a date and of a link are looked for in the
next column, whether or not there is one. -/
namespace GnomeVfs.ParseLs

variable {α β : Type}

/-- Nothing is read that is not there. -/
def InRange (x : Parse α) : Prop := x ≠ .error .outOfRange

@[simp] theorem inRange_ok (a : α) : InRange (.ok a : Parse α) := by simp [InRange]

@[simp] theorem inRange_pure (a : α) : InRange (pure a : Parse α) := inRange_ok a

@[simp] theorem inRange_unparsed : InRange (.error .unparsed : Parse α) := by simp [InRange]

@[simp] theorem not_inRange_outOfRange : ¬ InRange (.error .outOfRange : Parse α) := by simp [InRange]

@[simp] theorem ok_bind (a : α) (f : α → Parse β) : ((.ok a : Parse α) >>= f) = f a := rfl

@[simp] theorem error_bind (fault : Fault) (f : α → Parse β) : ((.error fault : Parse α) >>= f) = .error fault := rfl

theorem inRange_expect {holds : Bool} {f : Unit → Parse β} :
    InRange (expect holds >>= f) ↔ (holds = true → InRange (f ())) := by
  cases holds <;> simp [expect]

variable {i : Nat}

theorem drop_cons {columns rest : List Column} {c : Column} (here : columns.drop i = c :: rest) :
    columns[i]? = some c ∧ columns.drop (i + 1) = rest := by
  constructor
  · rw [← List.head?_drop, here, List.head?_cons]
  · rw [← List.tail_drop, here, List.tail_cons]

theorem column_of_drop {columns rest : List Column} {c : Column} (here : columns.drop i = c :: rest) :
    column columns i = .ok c := by
  rw [column, (drop_cons here).1]

theorem column_of_end {columns : List Column} (none_here : columns.drop i = []) :
    column columns i = .error .outOfRange := by
  rw [column, List.getElem?_eq_none (List.drop_eq_nil_iff.mp none_here)]

/-- The columns lie within the text. -/
def Within (carbon : Bytes) (columns : List Column) : Prop := ∀ c ∈ columns, c.start ≤ carbon.length

theorem splitFrom_within : ∀ (left start : Nat) (s : Bytes), ∀ c ∈ splitFrom left start s, c.start ≤ start + s.length := by
  intro left
  induction left with
  | zero =>
    intro start s c member
    exact absurd member List.not_mem_nil
  | succ left ih =>
    intro start s c member
    rw [splitFrom] at member
    split at member
    · exact absurd member List.not_mem_nil
    · have begun : (s.dropWhile isSeparator).length ≤ s.length := s.length_dropWhile_le isSeparator
      have word := (List.takeWhile_prefix (!isSeparator ·) (l := s.dropWhile isSeparator)).length_le
      rcases List.mem_cons.mp member with rfl | later
      · simp only
        omega
      · have inside := ih _ _ c later
        rw [List.length_drop] at inside
        omega

theorem vfsSplitText_within (carbon : Bytes) : Within carbon (vfsSplitText carbon) := fun c member => by
  simpa using splitFrom_within maxCols 0 carbon c member

/-- The bits of the letters that the text begins with, and what is behind them. -/
def letters : List (List (UInt8 × Nat)) → Bytes → Option (Nat × Bytes)
  | [], s => some (0, s)
  | _ :: _, [] => none
  | table :: tables, c :: s =>
    match table.lookup c, letters tables s with
    | some bits, some (more, s) => some (bits ||| more, s)
    | _, _ => none

/-- The text without this character in front of it. -/
def without (c : UInt8) (s : Bytes) : Bytes := if s.head? = some c then s.tail else s

/-- The mode behind the type. -/
def modeBehind (type : Nat) (s : Bytes) : Option (Nat × Bytes) :=
  if s.head? = some chrOpen then
    if s[8]? = some chrClose then some (type ||| if type = sIfDir then 0o755 else 0o644, s.drop 9) else none
  else (letters filemodes s).map fun (bits, s) => (type ||| bits, without '+'.toUInt8 s)

/-- The type and the permissions that a line begins with, and the columns behind them. -/
def permissions : Bytes → Option (Nat × Bytes)
  | [] => none
  | c :: s => (filetypes.lookup c).bind fun type => modeBehind type (without 32 s)

variable {s : Bytes}

theorem readChar_eq (inside : i ≤ s.length) : readChar s i = .ok ((s.drop i).head?.getD 0) := by
  rw [readChar, if_pos inside, byteAt, List.head?_drop, List.getD_eq_getElem?_getD]

theorem readString_eq (inside : i ≤ s.length) : readString s i = .ok (s.drop i) := if_pos inside

theorem skipChar_eq {c : UInt8} (inside : i ≤ s.length) (some_char : c ≠ 0) :
    ∃ j, skipChar s i c = .ok j ∧ j ≤ s.length ∧ s.drop j = without c (s.drop i) := by
  rw [skipChar, readChar_eq inside, ok_bind, without]
  cases here : s.drop i with
  | nil =>
    refine ⟨i, ?_, inside, by simpa using here⟩
    simp [some_char.symm, pure, Except.pure]
  | cons d rest =>
    have longer : i < s.length := by
      have := congrArg List.length here
      simp at this
      omega
    by_cases same : d = c
    · refine ⟨i + 1, by simp [same, pure, Except.pure], longer, ?_⟩
      rw [← List.tail_drop, here]
      simp [same]
    · refine ⟨i, by simp [same, pure, Except.pure], inside, ?_⟩
      simp [same, here]

/-- The terminator is no letter of any of the tables, so the letters are read within the string. -/
theorem filemodeFrom_eq (s : Bytes) : ∀ (tables : List (List (UInt8 × Nat))) (i : Nat), i ≤ s.length →
    (∀ table ∈ tables, table.lookup 0 = none) →
    filemodeFrom s tables i = given ((letters tables (s.drop i)).map Prod.fst) ∧
      ∀ bits rest, letters tables (s.drop i) = some (bits, rest) →
        i + tables.length ≤ s.length ∧ rest = s.drop (i + tables.length) := by
  intro tables
  induction tables with
  | nil =>
    intro i inside _
    refine ⟨rfl, ?_⟩
    rintro bits rest ⟨rfl, rfl⟩
    exact ⟨inside, rfl⟩
  | cons table tables ih =>
    intro i inside ends
    rw [filemodeFrom, readChar_eq inside, ok_bind]
    cases here : s.drop i with
    | nil =>
      rw [List.head?_nil, Option.getD_none, ends table List.mem_cons_self]
      exact ⟨rfl, fun bits rest impossible => absurd impossible (by simp [letters])⟩
    | cons c rest =>
      have longer : i + 1 ≤ s.length := by
        have := congrArg List.length here
        simp at this
        omega
      have behind : s.drop (i + 1) = rest := by rw [← List.tail_drop, here, List.tail_cons]
      have ⟨same, inside⟩ := ih (i + 1) longer fun table member => ends table (List.mem_cons_of_mem _ member)
      rw [behind] at same inside
      rw [List.head?_cons, Option.getD_some, letters]
      cases table.lookup c with
      | none => exact ⟨rfl, fun bits rest impossible => absurd impossible (by simp)⟩
      | some bits =>
        rw [same]
        cases found : letters tables rest with
        | none => exact ⟨rfl, fun bits rest impossible => absurd impossible (by simp)⟩
        | some pair =>
          refine ⟨rfl, ?_⟩
          rintro bits' rest' ⟨rfl, rfl⟩
          have ⟨bound, tail⟩ := inside pair.1 pair.2 found
          rw [List.length_cons, tail, Nat.add_right_comm]
          exact ⟨by omega, by rw [Nat.add_assoc]⟩

/-- A pointer into the string is returned, and this is behind it. -/
def Gives (p : Bytes) (x : Parse (Nat × Nat)) : Option (Nat × Bytes) → Prop
  | none => x = .error .unparsed
  | some (mode, carbon) => ∃ i, x = .ok (mode, i) ∧ i ≤ p.length ∧ p.drop i = carbon

theorem notwellMode_gives {p s : Bytes} (type : Nat) (inside : i ≤ p.length) (here : p.drop i = s) :
    Gives p (notwellMode p i type)
      (if s[8]? = some chrClose then some (type ||| if type = sIfDir then 0o755 else 0o644, s.drop 9) else none) := by
  rw [notwellMode, readString_eq inside, ok_bind, here]
  by_cases long : 8 < s.length
  · have within : i + 8 < p.length := by
      rw [← here, List.length_drop] at long
      omega
    have eighth : s[8]? = some (byteAt p (i + 8)) := by
      rw [← here, List.getElem?_drop, byteAt, List.getD_eq_getElem?_getD, List.getElem?_eq_getElem within]
      rfl
    rw [expect, decide_eq_true long, if_pos rfl, ok_bind, readChar, if_pos within.le, ok_bind, eighth]
    by_cases close : byteAt p (i + 8) = chrClose
    · rw [if_pos (congrArg some close), close]
      exact ⟨i + 9, rfl, within, by rw [← here, List.drop_drop]⟩
    · rw [if_neg fun same => close (Option.some.inj same), expect, decide_eq_false close]
      rfl
  · have absent : ¬ s[8]? = some chrClose := by simp [List.getElem?_eq_none (Nat.le_of_not_lt long)]
    rw [if_neg absent, expect, decide_eq_false long]
    rfl

theorem plainMode_gives {p s : Bytes} (type : Nat) (inside : i ≤ p.length) (here : p.drop i = s) :
    Gives p (plainMode p i type)
      ((letters filemodes s).map fun (bits, s) => (type ||| bits, without '+'.toUInt8 s)) := by
  have ⟨same, within⟩ := filemodeFrom_eq p filemodes i inside (by decide)
  rw [here] at same within
  rw [plainMode, vfsParseFilemode, same]
  cases found : letters filemodes s with
  | none => rfl
  | some pair =>
    have ⟨bound, tail⟩ := within pair.1 pair.2 found
    have ⟨j, skipped, longer, behind⟩ := skipChar_eq (c := '+'.toUInt8) bound (by decide)
    rw [← tail] at behind
    rw [Option.map_some, given, ok_bind]
    change Gives p (skipChar p (i + filemodes.length) '+'.toUInt8 >>= _) _
    rw [skipped, ok_bind]
    exact ⟨j, rfl, longer, behind⟩

/-- The header is read within the string, and it is what the line begins with. -/
theorem parseMode_gives (p : Bytes) : Gives p (parseMode p) (permissions p) := by
  rw [parseMode, readChar_eq p.length.zero_le, ok_bind, List.drop_zero, vfsParseFiletype]
  cases p with
  | nil => rfl
  | cons c s =>
    rw [List.head?_cons, Option.getD_some, permissions]
    cases filetypes.lookup c with
    | none => rfl
    | some type =>
      have ⟨i, skipped, inside, here⟩ :=
        skipChar_eq (s := c :: s) (i := 1) (c := 32) (by simp) (by decide)
      rw [List.drop_succ_cons, List.drop_zero] at here
      rw [given, ok_bind, skipped, ok_bind, readChar_eq inside, ok_bind, here, Option.bind_some, modeBehind]
      cases front : (without 32 s).head? with
      | none =>
        rw [Option.getD_none, if_neg (by decide), if_neg (by simp)]
        exact plainMode_gives type inside here
      | some d =>
        rw [Option.getD_some]
        by_cases bracket : d = chrOpen
        · rw [if_pos bracket, if_pos (congrArg some bracket)]
          exact notwellMode_gives type inside here
        · rw [if_neg bracket, if_neg fun same => bracket (Option.some.inj same)]
          exact plainMode_gives type inside here

section Condition

/-- Whether the text is a time. -/
def isClock (str : Bytes) : Bool :=
  chrColon ∈ str && (scanTwos chrColon (timeFields str) str).length = timeFields str

/-- Whether the text is a date with numbers in it. -/
def isDosDay (str : Bytes) : Bool := isDosDate str && (scanTwos 45 3 ((str.set 2 45).set 5 45)).length = 3

def isArrow (c : Column) : Bool := c.text = ascii "->"

variable (carbon : Bytes)

/-- A blank, another one and a digit. -/
def isGap : Bytes → Bool
  | _ :: d :: e :: _ => d = 32 && isDigit e
  | _ => false

/-- Two blanks and a digit stand behind the column. -/
def isWide (c : Column) : Bool := isGap ((carbon.drop c.start).dropWhile (· ≠ 32))

/-- The column is followed by none, or by the end of the line. -/
def endsLine : List Column → Bool
  | [] => true
  | next :: _ => !isLineByte (byteAt carbon (next.start - 1))

/-- There is a column for the name, and where a link is looked for, the first arrow behind that column is
not the last column. -/
def NamesFit (mode : Nat) (nlink : Int) : List Column → Prop
  | [] => False
  | _ :: more => (isLink mode || (more.length = 2 && 1 < nlink)) = true →
      ∀ i, more.findIdx? isArrow = some i → i + 1 < more.length

/-- Where a year can stand, there is a blank from the column in front of it on. -/
def YearFits (before : Column) (str : Bytes) (here behind : Prop) : Prop :=
  if yearOf str = none then here
  else 32 ∈ carbon.drop before.start ∧ if isWide carbon before then behind else here

variable (rest : List Column → Prop)

/-- A column follows the first one of the time and the year. -/
def SecondFits (before : Column) (gotTime gotYear : Bool) : List Column → Prop
  | [] => False
  | c :: more =>
    if isNum c.text && !endsLine carbon more then
      if gotTime then if gotYear then rest (c :: more) else YearFits carbon before c.text (rest (c :: more)) (rest more)
      else if isClock c.text then rest more
      else rest (c :: more)
    else rest (c :: more)

/-- A column follows the day. -/
def ClockFits (before : Column) (gotYear : Bool) : List Column → Prop
  | [] => False
  | c :: more => isNum c.text = true →
      if isClock c.text then SecondFits carbon rest c true gotYear more
      else YearFits carbon before c.text (rest (c :: more)) (SecondFits carbon rest c false true more)

/-- A column follows the month. -/
def DayFits : List Column → Prop
  | [] => False
  | day :: more => isNum day.text = true → ClockFits carbon rest day false more

def MonthFits : List Column → Prop
  | [] => False
  | c :: more =>
    if isMonth c.text = none then isDosDay c.text = true → ClockFits carbon rest c true more
    else DayFits carbon rest more

/-- A column follows the week day. -/
def DateFits : List Column → Prop
  | [] => False
  | c :: more => if isWeek c.text = none then MonthFits carbon rest (c :: more) else MonthFits carbon rest more

/-- The size, or the two numbers of a device. -/
def Sized (mode : Nat) (first second : Column) : Prop :=
  isNum first.text = true ∧ (isDevice mode = true → isNum second.text = true)

/-- A column follows the columns in front of the date, of which there are three with the link count, four,
or five for a device that has a group. -/
def FieldsFit (mode : Nat) : List Column → Prop
  | _ :: group :: third :: more =>
    if startsDate third then Sized mode group third → DateFits carbon rest (third :: more)
    else
      match more with
      | [] => False
      | fourth :: more =>
        if startsDate fourth then
          (if isDevice mode then Sized mode group third else isNum third.text = true) →
            DateFits carbon rest (fourth :: more)
        else
          match more with
          | [] => False
          | fifth :: more =>
            startsDate fifth = true → isDevice mode = true → Sized mode third fourth → DateFits carbon rest (fifth :: more)
  | _ => False

/-- The columns of a line that is read no further than it goes, unless it cannot be parsed before that. -/
def LineFits (mode : Nat) : List Column → Prop
  | [] => False
  | links :: more => 0 ≤ nlinkOf links → FieldsFit carbon (NamesFit mode (nlinkOf links)) mode more

/-- A line that is read no further than it goes. -/
def Complete (p : Bytes) : Prop :=
  (ascii "total").isPrefixOf p = false →
    ∀ mode carbon, permissions p = some (mode, carbon) → LineFits carbon mode (vfsSplitText carbon)

end Condition

section Names

variable {carbon : Bytes} {columns rest : List Column} {c : Column} {idx : Nat}

theorem readString_within (within : Within carbon columns) (here : columns.drop idx = c :: rest) :
    readString carbon c.start = .ok (carbon.drop c.start) :=
  readString_eq (within c (List.mem_of_mem_drop (here ▸ List.mem_cons_self)))

theorem mayLink_eq (here : columns.drop idx = c :: rest) (s : Stat) :
    mayLink columns idx s = (isLink s.mode || (rest.length = 2 && 1 < (s.nlink : Int))) := by
  have length := congrArg List.length here
  rw [List.length_drop, List.length_cons] at length
  have same : columns.length = idx + 3 ↔ rest.length = 2 := by omega
  simp only [mayLink, same, Nat.one_lt_cast]

theorem findArrow_eq (here : columns.drop idx = c :: rest) :
    findArrow columns idx = (rest.findIdx? isArrow).map (· + (idx + 1)) := by
  rw [findArrow, (drop_cons here).2]
  rfl

theorem takeNames_inRange (within : Within carbon columns) (s : Stat) :
    InRange (takeNames carbon columns idx s) ↔ NamesFit s.mode s.nlink (columns.drop idx) := by
  cases here : columns.drop idx with
  | nil =>
    have nowhere : findArrow columns idx = none := by
      rw [findArrow, ← List.tail_drop, here]
      rfl
    rw [takeNames, nowhere, ite_self]
    simp [column_of_end here, NamesFit]
  | cons name more =>
    rw [takeNames, mayLink_eq here, findArrow_eq here, NamesFit]
    by_cases link : (isLink s.mode || (more.length = 2 && 1 < (s.nlink : Int))) = true
    · rw [if_pos link]
      cases found : more.findIdx? isArrow with
      | none => simp [column_of_drop here, readString_within within here]
      | some i =>
        have ⟨short, _⟩ := List.findIdx?_eq_some_iff_getElem.mp found
        have middle : columns.drop (i + (idx + 1)) = more[i] :: more.drop (i + 1) := by
          rw [Nat.add_comm, ← List.drop_drop, (drop_cons here).2, List.drop_eq_getElem_cons short]
        simp only [Option.map_some, column_of_drop here, column_of_drop middle, readString_within within here,
          ok_bind, link, forall_const, Option.some.injEq, forall_eq']
        cases next : more.drop (i + 1) with
        | nil =>
          rw [column_of_end ((drop_cons middle).2.trans next)]
          have := List.drop_eq_nil_iff.mp next
          simp [this]
        | cons target others =>
          have there := (drop_cons middle).2.trans next
          rw [column_of_drop there, ok_bind, readString_within within there]
          have := congrArg List.length next
          simp only [List.length_drop, List.length_cons] at this
          simp only [ok_bind, inRange_pure, true_iff]
          omega
    · rw [if_neg link]
      simp only [column_of_drop here, readString_within within here, ok_bind, inRange_pure, true_iff]
      exact fun looked => absurd looked link

end Names

section Dates

theorem isTime_fst (str : Bytes) (tim : Tm) : (isTime str tim).1 = isClock str := by
  rw [isTime, isClock]
  split <;> simp [*]

theorem toBlank_eq (s : Bytes) :
    toBlank s = if 32 ∈ s then .ok (s.dropWhile (· ≠ 32)) else .error .outOfRange := by
  induction s with
  | nil => rfl
  | cons c rest ih =>
    by_cases blank : c = 32
    · simp [toBlank, blank]
    · simp only [toBlank, if_neg blank, ih, List.mem_cons, Ne.symm blank, false_or]
      simp [blank]

theorem dropWhile_blank (blank : 32 ∈ s) : ∃ rest, s.dropWhile (· ≠ 32) = 32 :: rest := by
  cases found : s.dropWhile (· ≠ 32) with
  | nil => simpa using List.dropWhile_eq_nil_iff.mp found 32 blank
  | cons c rest =>
    have stop := List.head?_dropWhile_not (fun c : UInt8 => decide (c ≠ 32)) s
    rw [found] at stop
    have same : c = 32 := by simpa using stop
    exact ⟨rest, by rw [same]⟩

/-- Behind the blank that has been found, the two next characters are there to be read. -/
theorem blanksAndDigit_eq (rest : Bytes) : blanksAndDigit (32 :: rest) = .ok (isGap (32 :: rest)) := by
  cases rest with
  | nil => rfl
  | cons d rest =>
    rw [blanksAndDigit, readChar, if_pos (by simp), ok_bind]
    by_cases blank : d = 32
    · cases rest with
      | nil => simp [byteAt, blank, readChar, pure, Except.pure, isDigit, isGap]
      | cons e rest => simp [byteAt, blank, readChar, pure, Except.pure, isGap]
    · cases rest <;> simp [byteAt, blank, pure, Except.pure, isGap]

variable {carbon : Bytes} {columns : List Column} {before : Column} {idx : Nat}

theorem isYear_eq (within : Within carbon columns) (there : columns[idx - 1]? = some before) (str : Bytes) (tim : Tm) :
    isYear str tim carbon columns idx =
      match yearOf str with
      | none => .ok none
      | some year =>
        if 32 ∈ carbon.drop before.start then
          .ok (if isWide carbon before then some { tim with year := year - 1900 } else none)
        else .error .outOfRange := by
  have inside := within before (List.mem_of_getElem? there)
  rw [isYear]
  cases yearOf str with
  | none => rfl
  | some year =>
    simp only [column, there, ok_bind, readString_eq inside, toBlank_eq]
    by_cases blank : 32 ∈ carbon.drop before.start
    · rw [if_pos blank, if_pos blank, ok_bind]
      have ⟨more, found⟩ := dropWhile_blank blank
      rw [found, blanksAndDigit_eq, ok_bind, isWide, found]
      rfl
    · rw [if_neg blank, if_neg blank, error_bind]

variable {k : Dated → Parse β} {P : List Column → Prop}

theorem eatYear_inRange (within : Within carbon columns)
    (goes : ∀ date, InRange (k date) ↔ P (columns.drop date.idx)) (str : Bytes) (date : Dated)
    (there : columns[date.idx - 1]? = some before) :
    InRange (eatYear str carbon columns date >>= k) ↔
      YearFits carbon before str (P (columns.drop date.idx)) (P (columns.drop (date.idx + 1))) := by
  rw [eatYear, isYear_eq within there, YearFits]
  cases yearOf str with
  | none => simp [pure, Except.pure, goes]
  | some year =>
    by_cases blank : 32 ∈ carbon.drop before.start
    · by_cases wide : isWide carbon before = true
      · simp [blank, wide, pure, Except.pure, goes]
      · simp [blank, wide, pure, Except.pure, goes]
    · simp [blank]

theorem eatTime_fits (goes : ∀ date, InRange (k date) ↔ P (columns.drop date.idx)) (str : Bytes) (date : Dated) :
    InRange (k (eatTime str date)) ↔
      if isClock str then P (columns.drop (date.idx + 1)) else P (columns.drop date.idx) := by
  rw [goes, eatTime]
  have same := isTime_fst str date.tim
  by_cases clock : isClock str = true
  · simp [same, clock]
  · simp [same, clock]

theorem isLastColumn_eq (within : Within carbon columns) {c : Column} {more : List Column}
    (here : columns.drop idx = c :: more) : isLastColumn idx carbon columns = .ok (endsLine carbon more) := by
  have length := congrArg List.length here
  rw [List.length_drop, List.length_cons] at length
  rw [isLastColumn]
  cases more with
  | nil =>
    rw [List.length_nil] at length
    rw [if_pos (by omega)]
    rfl
  | cons next others =>
    rw [List.length_cons] at length
    have there := (drop_cons here).2
    have inside := within next (List.mem_of_mem_drop (there ▸ List.mem_cons_self))
    rw [if_neg (by omega), column_of_drop there, ok_bind, readChar, if_pos (by omega), ok_bind, endsLine]
    simp [isLineByte, pure, Except.pure, Bool.or_comm]

theorem eatSecond_inRange (within : Within carbon columns)
    (goes : ∀ date, InRange (k date) ↔ P (columns.drop date.idx)) (gotTime : Bool) (date : Dated)
    (there : columns[date.idx - 1]? = some before) :
    InRange (eatSecond carbon columns gotTime date >>= k) ↔
      SecondFits carbon P before gotTime date.gotYear (columns.drop date.idx) := by
  rw [eatSecond]
  cases here : columns.drop date.idx with
  | nil => simp [column_of_end here, SecondFits]
  | cons c more =>
    rw [column_of_drop here, ok_bind, SecondFits, isLastColumn_eq within here]
    have behind := (drop_cons here).2
    by_cases number : isNum c.text = true
    · cases ends : endsLine carbon more with
      | true => simp [number, pure, Except.pure, goes, here]
      | false =>
        cases gotTime with
        | true =>
          cases year : date.gotYear with
          | true => simp [number, pure, Except.pure, goes, here]
          | false =>
            have := eatYear_inRange within goes c.text date there
            rw [here, behind] at this
            simpa [number, year] using this
        | false =>
          have := eatTime_fits goes c.text date
          rw [here, behind] at this
          simpa [number, pure, Except.pure] using this
    · simp [number, pure, Except.pure, goes, here]

theorem parseClock_inRange (within : Within carbon columns)
    (goes : ∀ date, InRange (k date) ↔ P (columns.drop date.idx)) (date : Dated)
    (there : columns[date.idx - 1]? = some before) :
    InRange (parseClock carbon columns date >>= k) ↔
      ClockFits carbon P before date.gotYear (columns.drop date.idx) := by
  rw [parseClock]
  cases here : columns.drop date.idx with
  | nil => simp [column_of_end here, ClockFits]
  | cons c more =>
    have ⟨at_idx, behind⟩ := drop_cons here
    rw [column_of_drop here, ok_bind, ClockFits, bind_assoc, inRange_expect]
    refine imp_congr_right fun number => ?_
    have clock := isTime_fst c.text date.tim
    cases parsed : isTime c.text date.tim with
    | mk isOne tim =>
      rw [parsed] at clock
      dsimp only at clock ⊢
      rw [← clock]
      cases isOne with
      | true =>
        rw [if_pos rfl, if_pos rfl]
        have second := eatSecond_inRange within goes true ⟨date.idx + 1, tim, date.gotYear⟩ at_idx
        rwa [behind] at second
      | false =>
        rw [if_neg Bool.false_ne_true, if_neg Bool.false_ne_true, isYear_eq within there, YearFits]
        cases yearOf c.text with
        | none => simp [pure, Except.pure, goes, here]
        | some year =>
          by_cases blank : 32 ∈ carbon.drop before.start
          · by_cases wide : isWide carbon before = true
            · have second := eatSecond_inRange within goes false
                ⟨date.idx + 1, { tim with year := year - 1900 }, true⟩ at_idx
              rw [behind] at second
              simpa [blank, wide] using second
            · simp [blank, wide, pure, Except.pure, goes, here]
          · simp [blank]

/-- What is parsed behind the month. -/
theorem parseDay_inRange (within : Within carbon columns)
    (goes : ∀ date, InRange (k date) ↔ P (columns.drop date.idx)) {c : Column} {more : List Column}
    (here : columns.drop idx = c :: more) (tim : Tm) :
    InRange (parseDay columns c.text (idx + 1) tim >>= fun date => parseClock carbon columns date >>= k) ↔
      MonthFits carbon P (c :: more) := by
  have ⟨at_idx, behind⟩ := drop_cons here
  rw [parseDay, MonthFits]
  cases isMonth c.text with
  | none =>
    rw [if_pos rfl, dosDate]
    dsimp only
    rw [bind_assoc, inRange_expect, isDosDay, Bool.and_eq_true, decide_eq_true_eq, and_imp]
    refine imp_congr_right fun _ => ?_
    split
    next month day year numbers =>
      have clock := parseClock_inRange within goes
        ⟨idx + 1, { tim with mon := month - 1, mday := day, year := if year < 70 then year + 100 else year }, true⟩ at_idx
      rw [behind] at clock
      simp only [numbers, List.length_cons, List.length_nil, forall_const]
      exact clock
    next other =>
      simp only [error_bind, inRange_unparsed, true_iff]
      intro three
      have ⟨month, day, year, numbers⟩ := List.length_eq_three.mp three
      exact absurd numbers (other month day year)
  | some month =>
    rw [if_neg (by simp)]
    dsimp only
    rw [bind_assoc]
    cases there : more with
    | nil =>
      rw [column_of_end (behind.trans there)]
      simp [DayFits]
    | cons day others =>
      have next := behind.trans there
      rw [column_of_drop next, ok_bind, bind_assoc, inRange_expect, DayFits]
      refine imp_congr_right fun _ => ?_
      have clock := parseClock_inRange within goes
        ⟨idx + 2, { tim with mon := month, mday := toInt (atol day.text) }, false⟩ (drop_cons next).1
      rw [(drop_cons next).2] at clock
      exact clock

theorem eatWeek_inRange (within : Within carbon columns)
    (goes : ∀ date, InRange (k date) ↔ P (columns.drop date.idx)) (idx : Nat) (tim : Tm) :
    InRange (eatWeek columns idx tim >>= fun (p, idx, tim) =>
      parseDay columns p.text idx tim >>= fun date => parseClock carbon columns date >>= k) ↔
      DateFits carbon P (columns.drop idx) := by
  rw [eatWeek]
  cases here : columns.drop idx with
  | nil => simp [column_of_end here, DateFits]
  | cons c more =>
    rw [column_of_drop here, ok_bind, DateFits]
    cases isWeek c.text with
    | none =>
      rw [if_pos rfl]
      exact parseDay_inRange within goes here tim
    | some day =>
      rw [if_neg (by simp)]
      have behind := (drop_cons here).2
      cases there : more with
      | nil => simp [column_of_end (behind.trans there), MonthFits]
      | cons month others =>
        have next := behind.trans there
        dsimp only
        rw [column_of_drop next, ok_bind]
        exact parseDay_inRange within goes next { tim with wday := day }

end Dates

section Fields

variable {carbon : Bytes} {columns : List Column}

theorem vfsParseFiledate_inRange (within : Within carbon columns) (system : System) (idx : Nat)
    {f : Nat × Int → Parse β} {P : List Column → Prop}
    (goes : ∀ idx time, InRange (f (idx, time)) ↔ P (columns.drop idx)) :
    InRange (vfsParseFiledate system idx columns carbon >>= f) ↔ DateFits carbon P (columns.drop idx) := by
  rw [vfsParseFiledate, ← eatWeek_inRange within
    (k := fun date => f (date.idx, max 0 (system.mktime (guessYear system.localtime.mon date)))) (fun date => goes _ _) idx
    { system.localtime with hour := 0, min := 0, sec := 0, isdst := -1 }]
  simp only [bind_assoc, pure_bind]

theorem digit_begins {c : UInt8} (digit : isDigit c = true) : Ftp.isSpace c = false ∧ ¬ (c = 45 ∨ c = 43) := by
  rw [isDigit, Bool.and_eq_true, decide_eq_true_eq, decide_eq_true_eq, UInt8.le_iff_toNat_le, UInt8.le_iff_toNat_le] at digit
  constructor
  · have blank : c ≠ 32 := by rintro rfl; exact absurd digit (by decide)
    have above : ¬ c ≤ 13 := by
      rw [UInt8.le_iff_toNat_le]
      have low : 48 ≤ c.toNat := digit.1
      change ¬ c.toNat ≤ 13
      omega
    simp [Ftp.isSpace, blank, above]
  · rintro (rfl | rfl) <;> exact absurd digit (by decide)

theorem scanInt_of_isNum (number : isNum s = true) : ∃ scanned, Ftp.scanInt s = some scanned := by
  cases s with
  | nil => exact absurd number (by decide)
  | cons c rest =>
    have digit : isDigit c = true := number
    have ⟨no_space, no_sign⟩ := digit_begins digit
    rw [Ftp.scanInt, List.dropWhile_cons_of_neg (by simp [no_space])]
    simp only [if_neg no_sign, List.takeWhile_cons, digit, if_true]
    exact ⟨_, rfl⟩

theorem numberAt_inRange {c : Column} {idx : Nat} {P : Prop} (there : columns[idx]? = some c) {f : Int → Parse β}
    (goes : ∀ n, InRange (f n) ↔ P) : InRange (numberAt columns idx >>= f) ↔ (isNum c.text = true → P) := by
  simp only [numberAt, column, there, ok_bind, bind_assoc, inRange_expect]
  refine imp_congr_right fun number => ?_
  have ⟨scanned, found⟩ := scanInt_of_isNum number
  rw [found]
  exact goes scanned.1

theorem parseSize_inRange {first second : Column} {idx : Nat} {P : Prop} (s : Stat)
    (here : columns[idx]? = some first) (next : columns[idx + 1]? = some second) {f : Stat → Parse β}
    (goes : ∀ t : Stat, t.mode = s.mode → t.nlink = s.nlink → (InRange (f t) ↔ P)) :
    InRange (parseSize columns idx s >>= f) ↔ (Sized s.mode first second → P) := by
  rw [parseSize, Sized]
  cases device : isDevice s.mode with
  | true =>
    rw [if_pos rfl, bind_assoc, numberAt_inRange here (P := isNum second.text = true → P), and_imp]
    · simp only [forall_const]
    · intro major
      rw [bind_assoc, numberAt_inRange next]
      exact fun minor => goes _ rfl rfl
  | false =>
    rw [if_neg Bool.false_ne_true]
    simp only [column, here, ok_bind, bind_assoc, inRange_expect, Bool.false_eq_true, false_imp_iff, and_true]
    exact imp_congr_right fun _ => goes _ rfl rfl

variable (system : System)

/-- What is parsed once the column of the date is known. -/
theorem fromDate_inRange (within : Within carbon columns) {group : Column} (first second : Column) (idx : Nat)
    (s : Stat) (there : columns[2]? = some group)
    (here : columns[if lacksGroup s.mode idx then 2 else 3]? = some first)
    (next : columns[(if lacksGroup s.mode idx then 2 else 3) + 1]? = some second) :
    InRange (do
      let (idx2, s) ← parseGroup system columns idx s
      let s ← parseSize columns idx2 s
      let (idx, time) ← vfsParseFiledate system idx columns carbon
      takeNames carbon columns idx
        { s with mtime := time, atime := time, ctime := time, dev := 0, ino := 0, blksize := 512, blocks := (s.size + 511).tdiv 512 }) ↔
      (Sized s.mode first second → DateFits carbon (NamesFit s.mode s.nlink) (columns.drop idx)) := by
  have goes : ∀ t : Stat, t.mode = s.mode → t.nlink = s.nlink →
      (InRange (do
        let (idx, time) ← vfsParseFiledate system idx columns carbon
        takeNames carbon columns idx
          { t with mtime := time, atime := time, ctime := time, dev := 0, ino := 0, blksize := 512, blocks := (t.size + 511).tdiv 512 }) ↔
        DateFits carbon (NamesFit s.mode s.nlink) (columns.drop idx)) := by
    intro t mode nlink
    refine vfsParseFiledate_inRange within system idx fun behind time => ?_
    rw [← mode, ← nlink]
    exact takeNames_inRange within _
  rw [parseGroup]
  cases lacks : lacksGroup s.mode idx with
  | true =>
    simp only [lacks, if_true] at here next
    rw [if_pos rfl, ok_bind]
    exact parseSize_inRange s here next goes
  | false =>
    simp only [lacks, Bool.false_eq_true, if_false] at here next
    simp only [Bool.false_eq_true, if_false, column, there, ok_bind]
    exact parseSize_inRange { s with gid := _ } here next goes

theorem dateFrom_cons {c : Column} {idx : Nat} (here : columns[idx]? = some c) (n : Nat) :
    dateFrom columns (n + 1) idx = if startsDate c then .ok idx else dateFrom columns n (idx + 1) := by
  simp only [dateFrom, column, here, ok_bind]
  rfl

theorem dateFrom_end {idx : Nat} (none_here : columns[idx]? = none) (n : Nat) :
    dateFrom columns (n + 1) idx = .error .outOfRange := by
  simp only [dateFrom, column, none_here, error_bind]

theorem parseColumns_inRange (within : Within carbon columns) (s : Stat) :
    InRange (parseColumns system carbon columns s) ↔ LineFits carbon s.mode columns := by
  rw [parseColumns, parseOwner]
  rcases columns with _ | ⟨links, _ | ⟨owner, _ | ⟨group, _ | ⟨third, more⟩⟩⟩⟩
  · simp [column, LineFits]
  · simp [column, LineFits, FieldsFit, inRange_expect]
  · simp [column, LineFits, FieldsFit, inRange_expect, dateFrom]
  · simp [column, LineFits, FieldsFit, inRange_expect, dateFrom]
  rw [column_of_drop (List.drop_zero), ok_bind, bind_assoc, inRange_expect, decide_eq_true_eq, LineFits]
  refine imp_congr_right fun counted => ?_
  have nlink : ((nlinkOf links).toNat : Int) = nlinkOf links := Int.toNat_of_nonneg counted
  let owned := { s with nlink := (nlinkOf links).toNat, uid := account (finduid system) owner }
  change InRange (dateFrom _ 3 3 >>= fun idx => expect (¬ (idx = 6 ∨ (idx = 5 ∧ ¬ isDevice s.mode))) >>= fun _ => do
    let (idx2, s) ← parseGroup system _ idx owned
    let s ← parseSize _ idx2 s
    let (idx, time) ← vfsParseFiledate system idx _ carbon
    takeNames carbon _ idx
      { s with mtime := time, atime := time, ctime := time, dev := 0, ino := 0, blksize := 512, blocks := (s.size + 511).tdiv 512 }) ↔ _
  rw [dateFrom_cons (c := third) rfl]
  unfold FieldsFit
  dsimp only
  by_cases dated : startsDate third = true
  · rw [if_pos dated, if_pos dated, ok_bind, inRange_expect]
    have date := fromDate_inRange system within group third 3 owned rfl rfl rfl
    simpa [nlink, owned] using date
  rw [if_neg dated, if_neg dated]
  rcases more with _ | ⟨fourth, more⟩
  · simp [dateFrom_end]
  rw [dateFrom_cons (c := fourth) rfl]
  dsimp only
  by_cases dated : startsDate fourth = true
  · rw [if_pos dated, if_pos dated, ok_bind, inRange_expect]
    cases device : isDevice s.mode with
    | true =>
      have lacks : lacksGroup s.mode (3 + 1) = true := by simp [lacksGroup, device]
      have date := fromDate_inRange system within group third (3 + 1) owned rfl
        (by rw [lacks]; rfl) (by rw [lacks]; rfl)
      simpa [nlink, owned] using date
    | false =>
      have lacks : lacksGroup s.mode (3 + 1) = false := by simp [lacksGroup, device]
      have date := fromDate_inRange system within third fourth (3 + 1) owned rfl
        (by rw [lacks]; rfl) (by rw [lacks]; rfl)
      simpa [nlink, owned, Sized, device] using date
  rw [if_neg dated, if_neg dated]
  rcases more with _ | ⟨fifth, more⟩
  · simp [dateFrom_end]
  rw [dateFrom_cons (c := fifth) rfl]
  dsimp only
  by_cases dated : startsDate fifth = true
  · rw [if_pos dated, ok_bind, inRange_expect]
    have lacks : lacksGroup s.mode (3 + 1 + 1) = false := by simp [lacksGroup]
    have date := fromDate_inRange system within third fourth (3 + 1 + 1) owned rfl
      (by rw [lacks]; rfl) (by rw [lacks]; rfl)
    simpa [nlink, owned, dated] using imp_congr_right (a := isDevice s.mode = true) fun _ => date
  · rw [if_neg dated, dateFrom, ok_bind, inRange_expect]
    simp [dated]

/-- A line is read no further than it goes if and only if each part of it that calls for another column
has one behind it. -/
theorem line_read_within (p : Bytes) (s : Stat) : InRange (gnomeVfsParseLsLga system p s) ↔ Complete p := by
  rw [gnomeVfsParseLsLga, inRange_expect, Complete]
  simp only [Bool.not_eq_true, decide_eq_true_eq]
  refine imp_congr_right fun _ => ?_
  have gives := parseMode_gives p
  cases header : permissions p with
  | none =>
    rw [header] at gives
    rw [show parseMode p = .error .unparsed from gives]
    simp
  | some found =>
    rw [header] at gives
    have ⟨i, parsed, inside, behind⟩ := gives
    rw [parsed, ok_bind]
    dsimp only
    rw [readString_eq inside, ok_bind, behind, parseColumns_inRange system (vfsSplitText_within found.2)]
    constructor
    · rintro fits mode carbon ⟨rfl, rfl⟩
      exact fits
    · exact fun fits => fits found.1 found.2 rfl

/-- A line that ends behind the time. -/
theorem cut_line_reads_on :
    gnomeVfsParseLsLga default (ascii "-rw-r--r-- 1 root root 5 Jan 1 10:00") default = .error .outOfRange := by
  decide

end Fields

end GnomeVfs.ParseLs
