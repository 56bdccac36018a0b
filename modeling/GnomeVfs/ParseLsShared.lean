import GnomeVfs.ParseLsNames

/- A line on its own and the same line with others behind it: both are parsed alike as long as everything
that the parser looks for is found in the columns of the line. -/
namespace GnomeVfs.ParseLs

variable {α β : Type}

section Settled

/-- A text that goes on behind a line, whose columns are `own`, and the columns behind them. -/
structure GoesOn (carbon : Bytes) (own : List Column) (tail : Bytes) (behind : List Column) : Prop where
  within : Within (carbon ++ tail) (own ++ behind)
  inside : ∀ c ∈ own, c.start < carbon.length
  ends : ∀ c, tail.head? = some c → isLineByte c = false
  closes : own.length + 1 < maxCols → endsLine (carbon ++ tail) behind = true

variable (carbon : Bytes) (own : List Column) (tail tail' : Bytes) (behind behind' : List Column)

/-- What is done comes to the same in both texts, and it comes to this. -/
def Settled (f : Bytes → List Column → Parse α) (P : α → Prop) : Prop :=
  f (carbon ++ tail) (own ++ behind) = f (carbon ++ tail') (own ++ behind') ∧
    ∀ a, f (carbon ++ tail) (own ++ behind) = .ok a → P a

variable {carbon own tail tail' behind behind'} {f : Bytes → List Column → Parse α} {P : α → Prop}

theorem settled_const {x : Parse α} (holds : ∀ a, x = .ok a → P a) : Settled carbon own tail tail' behind behind' (fun _ _ => x) P :=
  ⟨rfl, holds⟩

theorem settled_ok {a : α} (holds : P a) : Settled carbon own tail tail' behind behind' (fun _ _ => .ok a) P :=
  settled_const fun _ same => Except.ok.inj same ▸ holds

theorem settled_unparsed : Settled carbon own tail tail' behind behind' (fun _ _ => (.error .unparsed : Parse α)) P :=
  settled_const fun _ impossible => by cases impossible

theorem Settled.bind {g : α → Bytes → List Column → Parse β} {Q : β → Prop}
    (first : Settled carbon own tail tail' behind behind' f P)
    (next : ∀ a, P a → Settled carbon own tail tail' behind behind' (g a) Q) :
    Settled carbon own tail tail' behind behind' (fun text columns => f text columns >>= fun a => g a text columns) Q := by
  obtain ⟨same, holds⟩ := first
  dsimp only [Settled]
  rw [← same]
  cases found : f (carbon ++ tail) (own ++ behind) with
  | error fault => exact ⟨rfl, fun a impossible => by cases impossible⟩
  | ok a => exact next a (holds a found)

theorem Settled.mono {Q : α → Prop} (first : Settled carbon own tail tail' behind behind' f P) (weaker : ∀ a, P a → Q a) :
    Settled carbon own tail tail' behind behind' f Q :=
  ⟨first.1, fun a found => weaker a (first.2 a found)⟩

theorem settled_ite {p : Prop} [Decidable p] {g : Bytes → List Column → Parse α}
    (yes : p → Settled carbon own tail tail' behind behind' f P)
    (no : ¬ p → Settled carbon own tail tail' behind behind' g P) :
    Settled carbon own tail tail' behind behind' (fun text columns => if p then f text columns else g text columns) P := by
  by_cases holds : p
  · simp only [if_pos holds]
    exact yes holds
  · simp only [if_neg holds]
    exact no holds

theorem settled_expect {holds : Bool} : Settled carbon own tail tail' behind behind' (fun _ _ => expect holds) fun _ => holds = true := by
  refine settled_const fun a found => ?_
  cases holds with
  | true => rfl
  | false => cases found

theorem drop_append_cons {own more : List Column} {c : Column} {idx : Nat} (here : own.drop idx = c :: more)
    (behind : List Column) : (own ++ behind).drop idx = c :: (more ++ behind) := by
  have short : idx ≤ own.length := by
    by_contra above
    rw [List.drop_eq_nil_of_le (by omega)] at here
    cases here
  rw [List.drop_append_of_le_length short, here, List.cons_append]

theorem settled_column {more : List Column} {c : Column} {idx : Nat} (here : own.drop idx = c :: more) :
    Settled carbon own tail tail' behind behind' (fun _ columns => column columns idx) (c = ·) := by
  dsimp only [Settled]
  rw [column_of_drop (drop_append_cons here behind), column_of_drop (drop_append_cons here behind')]
  exact ⟨rfl, fun _ same => Except.ok.inj same⟩

end Settled

variable {i : Nat}

section Dates

variable {carbon tail tail' : Bytes} {own behind behind' more : List Column} {before c : Column} {idx : Nat}

theorem getElem_own (there : own[i]? = some c) (behind : List Column) : (own ++ behind)[i]? = some c := by
  obtain ⟨short, _⟩ := List.getElem?_eq_some_iff.mp there
  rw [List.getElem?_append_left short, there]

/-- The gap behind a column is told by the line. -/
theorem isWide_append (on : GoesOn carbon own tail behind) (there : own[idx]? = some before)
    (blank : 32 ∈ carbon.drop before.start) : isWide (carbon ++ tail) before = isWide carbon before := by
  have inside := on.inside before (List.mem_of_getElem? there)
  obtain ⟨rest, found⟩ := dropWhile_blank blank
  rw [isWide, isWide, List.drop_append_of_le_length inside.le, List.dropWhile_append, found]
  dsimp only [List.isEmpty]
  rw [if_neg Bool.false_ne_true]
  have other : ∀ d, tail.head? = some d → (d = 32) = False ∧ isDigit d = false := by
    intro d first
    have ended := on.ends d first
    rw [isLineByte, Bool.and_eq_false_iff, decide_eq_false_iff_not, decide_eq_false_iff_not, not_not, not_not] at ended
    rcases ended with rfl | rfl <;> exact ⟨eq_false (by decide), rfl⟩
  cases rest with
  | nil =>
    cases tail with
    | nil => rfl
    | cons d tail =>
      have := other d rfl
      cases tail <;> simp [isGap, this.1]
  | cons d rest =>
    cases rest with
    | nil =>
      cases tail with
      | nil => rfl
      | cons e tail =>
        have := other e rfl
        simp [isGap, this.2]
    | cons e rest => rfl

theorem isYear_own (on : GoesOn carbon own tail behind) (there : own[idx - 1]? = some before) (str : Bytes)
    (tim : Tm) (blank : yearOf str ≠ none → 32 ∈ carbon.drop before.start) :
    isYear str tim (carbon ++ tail) (own ++ behind) idx =
      .ok (if isWide carbon before then (yearOf str).map fun year => { tim with year := year - 1900 } else none) := by
  have inside := on.inside before (List.mem_of_getElem? there)
  rw [isYear_eq on.within (getElem_own there _)]
  cases found : yearOf str with
  | none => simp
  | some year =>
    have here : 32 ∈ carbon.drop before.start := blank (by simp [found])
    have there' : 32 ∈ (carbon ++ tail).drop before.start := by
      rw [List.drop_append_of_le_length inside.le]
      exact List.mem_append_left _ here
    dsimp only
    rw [if_pos there', isWide_append on there here]
    rfl

theorem isYear_settled (on : GoesOn carbon own tail behind) (on' : GoesOn carbon own tail' behind')
    (there : own[idx - 1]? = some before) (str : Bytes) (tim : Tm)
    (blank : yearOf str ≠ none → 32 ∈ carbon.drop before.start) :
    Settled carbon own tail tail' behind behind' (fun text columns => isYear str tim text columns idx)
      fun year => year = if isWide carbon before then (yearOf str).map fun year => { tim with year := year - 1900 } else none := by
  dsimp only [Settled]
  rw [isYear_own on there str tim blank, isYear_own on' there str tim blank]
  exact ⟨rfl, fun a same => (Except.ok.inj same).symm⟩

variable {P : List Column → Prop}

theorem eatYear_settled (on : GoesOn carbon own tail behind) (on' : GoesOn carbon own tail' behind') (date : Dated)
    (there : own[date.idx - 1]? = some before) (str : Bytes)
    (fits : YearFits carbon before str (P (own.drop date.idx)) (P (own.drop (date.idx + 1)))) :
    Settled carbon own tail tail' behind behind' (fun text columns => eatYear str text columns date)
      fun dated => dated.idx ≤ date.idx + 1 ∧ P (own.drop dated.idx) := by
  rw [YearFits] at fits
  have blank : yearOf str ≠ none → 32 ∈ carbon.drop before.start := by
    intro known
    rw [if_neg known] at fits
    exact fits.1
  refine (isYear_settled on on' there str date.tim blank).bind fun year found => ?_
  subst found
  by_cases known : yearOf str = none
  · rw [if_pos known] at fits
    simp only [known, Option.map_none, ite_self]
    exact settled_ok ⟨Nat.le_succ _, fits⟩
  · rw [if_neg known] at fits
    obtain ⟨n, some_year⟩ := Option.ne_none_iff_exists'.mp known
    cases wide : isWide carbon before with
    | true =>
      rw [wide, if_pos rfl] at fits
      rw [if_pos rfl, some_year]
      exact settled_ok ⟨le_rfl, fits.2⟩
    | false =>
      rw [wide, if_neg Bool.false_ne_true] at fits
      rw [if_neg Bool.false_ne_true]
      exact settled_ok ⟨Nat.le_succ _, fits.2⟩

theorem isLastColumn_own (on : GoesOn carbon own tail behind) (here : own.drop idx = c :: more) (room : idx + 2 < maxCols) :
    isLastColumn idx (carbon ++ tail) (own ++ behind) = .ok (endsLine carbon more) := by
  rw [isLastColumn_eq on.within (drop_append_cons here behind)]
  cases more with
  | nil =>
    have length := congrArg List.length here
    rw [List.length_drop, List.length_singleton] at length
    rw [List.nil_append, on.closes (by omega), endsLine]
  | cons next rest =>
    have inside := on.inside next (List.mem_of_mem_drop ((drop_cons here).2 ▸ List.mem_cons_self))
    rw [List.cons_append, endsLine, endsLine, byteAt, byteAt, List.getD_eq_getElem?_getD, List.getD_eq_getElem?_getD,
      List.getElem?_append_left (by omega)]

theorem isLastColumn_settled (on : GoesOn carbon own tail behind) (on' : GoesOn carbon own tail' behind')
    (here : own.drop idx = c :: more) (room : idx + 2 < maxCols) :
    Settled carbon own tail tail' behind behind' (fun text columns => isLastColumn idx text columns) (· = endsLine carbon more) := by
  dsimp only [Settled]
  rw [isLastColumn_own on here room, isLastColumn_own on' here room]
  exact ⟨rfl, fun a same => (Except.ok.inj same).symm⟩

theorem eatTime_settled (date : Dated) (str : Bytes)
    (fits : if isClock str then P (own.drop (date.idx + 1)) else P (own.drop date.idx)) :
    Settled carbon own tail tail' behind behind' (fun _ _ => .ok (eatTime str date))
      fun dated => dated.idx ≤ date.idx + 1 ∧ P (own.drop dated.idx) := by
  have same := isTime_fst str date.tim
  refine settled_ok ?_
  rw [eatTime]
  cases parsed : isTime str date.tim with
  | mk isOne tim =>
    rw [parsed] at same
    dsimp only at same ⊢
    rw [← same] at fits
    cases isOne with
    | true => exact ⟨le_rfl, fits⟩
    | false => exact ⟨Nat.le_succ _, fits⟩

theorem eatSecond_settled (on : GoesOn carbon own tail behind) (on' : GoesOn carbon own tail' behind')
    (gotTime : Bool) (date : Dated) (room : date.idx + 2 < maxCols) (there : own[date.idx - 1]? = some before)
    (fits : SecondFits carbon P before gotTime date.gotYear (own.drop date.idx)) :
    Settled carbon own tail tail' behind behind' (fun text columns => eatSecond text columns gotTime date)
      fun dated => dated.idx ≤ date.idx + 1 ∧ P (own.drop dated.idx) := by
  cases here : own.drop date.idx with
  | nil =>
    rw [here] at fits
    exact fits.elim
  | cons c more =>
    rw [here, SecondFits] at fits
    have behind := (drop_cons here).2
    refine (settled_column here).bind fun _ found => ?_
    subst found
    refine settled_ite (fun number => ?_) fun other => ?_
    · rw [number, Bool.true_and] at fits
      refine (isLastColumn_settled on on' here room).bind fun last same => ?_
      subst same
      refine settled_ite (fun ends => ?_) fun goes_on => ?_
      · rw [ends] at fits
        exact settled_ok ⟨Nat.le_succ _, here ▸ fits⟩
      · rw [Bool.not_eq_true] at goes_on
        rw [goes_on] at fits
        refine settled_ite (fun timed => settled_ite (fun dated => ?_) fun undated => ?_) fun untimed => ?_
        · rw [timed, dated] at fits
          exact settled_ok ⟨Nat.le_succ _, here ▸ fits⟩
        · rw [Bool.not_eq_true] at undated
          rw [timed, undated] at fits
          refine eatYear_settled on on' date there c.text ?_
          rw [here, behind]
          exact fits
        · rw [Bool.not_eq_true] at untimed
          rw [untimed] at fits
          refine eatTime_settled date c.text ?_
          rw [here, behind]
          exact fits
    · rw [Bool.not_eq_true] at other
      rw [other] at fits
      exact settled_ok ⟨Nat.le_succ _, here ▸ fits⟩

theorem parseClock_settled (on : GoesOn carbon own tail behind) (on' : GoesOn carbon own tail' behind')
    (date : Dated) (room : date.idx + 3 < maxCols) (there : own[date.idx - 1]? = some before)
    (fits : ClockFits carbon P before date.gotYear (own.drop date.idx)) :
    Settled carbon own tail tail' behind behind' (fun text columns => parseClock text columns date)
      fun dated => dated.idx ≤ date.idx + 2 ∧ P (own.drop dated.idx) := by
  cases here : own.drop date.idx with
  | nil =>
    rw [here] at fits
    exact fits.elim
  | cons c more =>
    rw [here, ClockFits] at fits
    obtain ⟨at_idx, behind⟩ := drop_cons here
    refine (settled_column here).bind fun _ found => ?_
    subst found
    refine settled_expect.bind fun _ number => ?_
    have fits := fits number
    have clock := isTime_fst c.text date.tim
    cases parsed : isTime c.text date.tim with
    | mk isOne tim =>
      rw [parsed] at clock
      dsimp only at clock ⊢
      rw [← clock] at fits
      refine settled_ite (fun timed => ?_) fun untimed => ?_
      · rw [if_pos timed] at fits
        exact (eatSecond_settled on on' true ⟨date.idx + 1, tim, date.gotYear⟩ room at_idx (behind.symm ▸ fits)).mono
          fun _ both => ⟨both.1, both.2⟩
      · rw [if_neg untimed, YearFits] at fits
        have blank : yearOf c.text ≠ none → 32 ∈ carbon.drop before.start := by
          intro known
          rw [if_neg known] at fits
          exact fits.1
        refine (isYear_settled on on' there c.text tim blank).bind fun year same => ?_
        subst same
        by_cases known : yearOf c.text = none
        · rw [if_pos known] at fits
          simp only [known, Option.map_none, ite_self]
          exact settled_ok ⟨by simp, here.symm ▸ fits⟩
        · rw [if_neg known] at fits
          obtain ⟨n, some_year⟩ := Option.ne_none_iff_exists'.mp known
          cases wide : isWide carbon before with
          | true =>
            rw [wide, if_pos rfl] at fits
            rw [if_pos rfl, some_year]
            exact (eatSecond_settled on on' false ⟨date.idx + 1, { tim with year := n - 1900 }, true⟩ room at_idx
              (behind.symm ▸ fits.2)).mono fun _ both => ⟨both.1, both.2⟩
          | false =>
            rw [wide, if_neg Bool.false_ne_true] at fits
            rw [if_neg Bool.false_ne_true]
            exact settled_ok ⟨by simp, here.symm ▸ fits.2⟩

/-- What is parsed behind the week day. -/
theorem parseDay_settled (on : GoesOn carbon own tail behind) (on' : GoesOn carbon own tail' behind')
    (here : own.drop idx = c :: more) (room : idx + 5 < maxCols) (tim : Tm) (fits : MonthFits carbon P (c :: more)) :
    Settled carbon own tail tail' behind behind'
      (fun text columns => parseDay columns c.text (idx + 1) tim >>= fun date => parseClock text columns date)
      fun dated => dated.idx ≤ idx + 4 ∧ P (own.drop dated.idx) := by
  obtain ⟨at_idx, behind⟩ := drop_cons here
  rw [MonthFits] at fits
  dsimp only [parseDay]
  cases month : isMonth c.text with
  | none =>
    rw [if_pos month] at fits
    simp only [dosDate, bind_assoc]
    refine settled_expect.bind fun _ dated => ?_
    split
    next first second third numbers =>
      simp only [pure_bind]
      let date : Dated :=
        ⟨idx + 1, { tim with mon := first - 1, mday := second, year := if third < 70 then third + 100 else third }, true⟩
      have fits : ClockFits carbon P c date.gotYear (own.drop date.idx) := by
        rw [behind]
        refine fits ?_
        rw [isDosDay, dated, numbers]
        rfl
      exact (parseClock_settled on on' date (by simp only [date]; omega) at_idx fits).mono fun _ both => ⟨both.1.trans (by simp [date]), both.2⟩
    next other =>
      simp only [error_bind]
      exact settled_unparsed
  | some m =>
    rw [if_neg (by simp [month])] at fits
    cases there : more with
    | nil =>
      rw [there] at fits
      exact fits.elim
    | cons day others =>
      rw [there, DayFits] at fits
      have next := behind.trans there
      simp only [bind_assoc, pure_bind]
      refine (settled_column next).bind fun _ found => ?_
      subst found
      refine settled_expect.bind fun _ number => ?_
      let date : Dated := ⟨idx + 2, { tim with mon := m, mday := toInt (atol day.text) }, false⟩
      have fits : ClockFits carbon P day date.gotYear (own.drop date.idx) := by
        rw [(drop_cons next).2]
        exact fits number
      exact (parseClock_settled on on' date (by simp only [date]; omega) (drop_cons next).1 fits).mono fun _ both => ⟨both.1, both.2⟩

theorem vfsParseFiledate_settled (on : GoesOn carbon own tail behind) (on' : GoesOn carbon own tail' behind')
    (system : System) (idx : Nat) (room : idx + 6 < maxCols) (fits : DateFits carbon P (own.drop idx)) :
    Settled carbon own tail tail' behind behind' (fun text columns => vfsParseFiledate system idx columns text)
      fun dated => dated.1 ≤ idx + 5 ∧ P (own.drop dated.1) := by
  simp only [vfsParseFiledate, eatWeek, bind_assoc]
  cases here : own.drop idx with
  | nil =>
    rw [here] at fits
    exact fits.elim
  | cons c more =>
    rw [here, DateFits] at fits
    refine (settled_column here).bind fun _ found => ?_
    subst found
    cases week : isWeek c.text with
    | none =>
      rw [if_pos week] at fits
      simp only [pure_bind, ← bind_assoc]
      exact (parseDay_settled on on' here (by omega) _ fits).bind fun date both => settled_ok ⟨by omega, both.2⟩
    | some day =>
      rw [if_neg (by simp [week])] at fits
      have behind := (drop_cons here).2
      cases there : more with
      | nil =>
        rw [there] at fits
        exact fits.elim
      | cons month others =>
        rw [there] at fits
        have next := behind.trans there
        simp only [bind_assoc, pure_bind]
        refine (settled_column next).bind fun _ found => ?_
        subst found
        simp only [← bind_assoc]
        exact (parseDay_settled on on' next (by omega) _ fits).bind fun date both => settled_ok ⟨by omega, both.2⟩

end Dates

section Names

variable {carbon tail tail' : Bytes} {own behind behind' more : List Column} {c : Column} {idx : Nat}

/-- The columns behind the name, with those of the text behind: an arrow that a link is looked for at is
followed by a column of the line, and there is none where a hard link would be shown by it. -/
def NamesKept (carbon : Bytes) (behind : List Column) (mode : Nat) (nlink : Int) : List Column → Prop
  | [] => False
  | _ :: more =>
    if isLink mode then
      ∀ i, (more ++ behind).findIdx? isArrow = some i → ∃ next, (more ++ behind)[i + 1]? = some next ∧ next.start < carbon.length
    else
      1 < nlink → (more.length = 1 → more.findIdx? isArrow = none) ∧
        ((more ++ behind).length = 2 → (more ++ behind).findIdx? isArrow = none)

/-- The column that the line ends in where it has more columns than there is room for, and else an empty
one, at the end of a text without another line. -/
inductive LastOf (carbon tail tail' : Bytes) : List Column → List Column → Prop where
  | ended (start : Nat) {behind' : List Column} (other : ∀ c ∈ behind', carbon.length ≤ c.start) :
      LastOf carbon tail tail' [⟨start, []⟩] behind'
  | crowded (start : Nat) (s : Bytes) (inside : start < carbon.length) :
      LastOf carbon tail tail' [⟨start, s ++ tail⟩] [⟨start, s ++ tail'⟩]

theorem takeWhile_own (ends : ∀ c, tail.head? = some c → isLineByte c = false) (s : Bytes) :
    (s ++ tail).takeWhile isLineByte = s.takeWhile isLineByte := by
  induction s with
  | nil =>
    cases tail with
    | nil => rfl
    | cons c tail => rw [List.nil_append, List.takeWhile_cons_of_neg (by simp [ends c rfl]), List.takeWhile_nil]
  | cons d s ih => rw [List.cons_append, List.takeWhile_cons, List.takeWhile_cons, ih]

theorem no_arrow_behind (some_tail : tail ≠ []) (ends : ∀ c, tail.head? = some c → isLineByte c = false) (start : Nat) (s : Bytes) :
    isArrow ⟨start, s ++ tail⟩ = false := by
  rw [isArrow, decide_eq_false_iff_not]
  intro same
  cases tail with
  | nil => exact some_tail rfl
  | cons c tail =>
    have member : c ∈ ascii "->" := same ▸ by simp
    have clean : ∀ d ∈ ascii "->", isLineByte d = true := by decide
    exact absurd (clean c member) (by simp [ends c rfl])

theorem takeNames_none (on : GoesOn carbon own tail behind) (here : own.drop idx = c :: more) (s : Stat)
    (missing : (if mayLink (own ++ behind) idx s then findArrow (own ++ behind) idx else none) = none) :
    takeNames (carbon ++ tail) (own ++ behind) idx s = .ok ⟨s, (carbon.drop c.start).takeWhile isLineByte, none⟩ := by
  have inside := on.inside c (List.mem_of_mem_drop (here ▸ List.mem_cons_self))
  have first := drop_append_cons here behind
  rw [takeNames, missing]
  dsimp only
  rw [column_of_drop first, ok_bind, readString_within on.within first, ok_bind, List.drop_append_of_le_length inside.le,
    takeWhile_own on.ends]
  rfl

theorem takeNames_some (on : GoesOn carbon own tail behind) (here : own.drop idx = c :: more) (s : Stat)
    {middle next : Column}
    (found : (if mayLink (own ++ behind) idx s then findArrow (own ++ behind) idx else none) = some (i + (idx + 1)))
    (there : more[i]? = some middle) (after : (more ++ behind)[i + 1]? = some next)
    (follows : next.start < carbon.length) :
    takeNames (carbon ++ tail) (own ++ behind) idx s =
      .ok ⟨s, (carbon.drop c.start).take (middle.start - c.start - 1), some ((carbon.drop next.start).takeWhile isLineByte)⟩ := by
  have first := drop_append_cons here behind
  have inside := on.inside c (List.mem_of_mem_drop (here ▸ List.mem_cons_self))
  have member : middle ∈ own :=
    List.mem_of_mem_drop (i := idx) (here ▸ List.mem_cons_of_mem c (List.mem_of_getElem? there))
  have column_at : ∀ {j : Nat} {d : Column}, (more ++ behind)[j]? = some d → column (own ++ behind) (j + (idx + 1)) = .ok d := by
    intro j d at_j
    rw [← (drop_cons first).2, List.getElem?_drop] at at_j
    rw [column, Nat.add_comm, at_j]
  have short : i < more.length := (List.getElem?_eq_some_iff.mp there).1
  have arrow : (more ++ behind)[i]? = some middle := by rw [List.getElem?_append_left short, there]
  have last : column (own ++ behind) (i + (idx + 1) + 1) = .ok next := by
    rw [Nat.add_right_comm]
    exact column_at after
  have target : readString (carbon ++ tail) next.start = .ok (carbon.drop next.start ++ tail) := by
    rw [readString_eq (by rw [List.length_append]; omega), List.drop_append_of_le_length follows.le]
  have name : ((carbon ++ tail).drop c.start).take (middle.start - c.start - 1) =
      (carbon.drop c.start).take (middle.start - c.start - 1) := by
    have bound := on.inside middle member
    rw [List.drop_append_of_le_length inside.le, List.take_append_of_le_length (by rw [List.length_drop]; omega)]
  rw [takeNames, found]
  dsimp only
  rw [column_of_drop first, ok_bind, column_at arrow, ok_bind, readString_within on.within first, ok_bind, last, ok_bind,
    target, ok_bind, name, takeWhile_own on.ends]
  rfl

theorem findIdx_own {behind : List Column} (found : (more ++ behind).findIdx? isArrow = some i) (short : i < more.length) :
    more.findIdx? isArrow = some i := by
  rw [List.findIdx?_append] at found
  cases own_arrow : more.findIdx? isArrow with
  | some j =>
    rw [own_arrow] at found
    exact found
  | none =>
    rw [own_arrow] at found
    simp only [Option.none_or, Option.map_eq_some_iff] at found
    obtain ⟨j, _, same⟩ := found
    omega

theorem findIdx_last (some_tail : tail ≠ []) (on : GoesOn carbon own tail behind) (last : LastOf carbon tail tail' behind behind') :
    (more ++ behind).findIdx? isArrow = more.findIdx? isArrow := by
  have none_last : behind.findIdx? isArrow = none := by
    cases last with
    | ended start other => rfl
    | crowded start s inside => simp [List.findIdx?_cons, no_arrow_behind some_tail on.ends start s]
  rw [List.findIdx?_append, none_last, Option.map_none, Option.or_none]

theorem next_of_line (last : LastOf carbon tail tail' behind behind') {next : Column}
    (after : (more ++ behind')[i + 1]? = some next) (follows : next.start < carbon.length) :
    i < more.length ∧ ∃ next', (more ++ behind)[i + 1]? = some next' ∧ next'.start = next.start := by
  by_cases inner : i + 1 < more.length
  · rw [List.getElem?_append_left inner] at after
    exact ⟨by omega, next, by rw [List.getElem?_append_left inner, after], rfl⟩
  · cases last with
    | ended start other =>
      rw [List.getElem?_append_right (by omega)] at after
      exact absurd (other next (List.mem_of_getElem? after)) (by omega)
    | crowded start s inside =>
      have bound := (List.getElem?_eq_some_iff.mp after).1
      rw [List.length_append, List.length_singleton] at bound
      have at_end : i + 1 = more.length := by omega
      rw [at_end, List.getElem?_concat_length, Option.some.injEq] at after
      subst after
      exact ⟨by omega, ⟨start, s ++ tail⟩, by rw [at_end, List.getElem?_concat_length], rfl⟩

/-- The names are those of the line. -/
theorem takeNames_settled (some_tail : tail ≠ []) (on : GoesOn carbon own tail behind)
    (on' : GoesOn carbon own tail' behind') (last : LastOf carbon tail tail' behind behind') (s : Stat)
    {nlink : Int} (links : (s.nlink : Int) = nlink) (kept : NamesKept carbon behind' s.mode nlink (own.drop idx)) :
    Settled carbon own tail tail' behind behind' (fun text columns => takeNames text columns idx s) fun _ => True := by
  subst links
  refine ⟨?_, fun _ _ => trivial⟩
  dsimp only
  cases here : own.drop idx with
  | nil =>
    rw [here] at kept
    exact kept.elim
  | cons c more =>
    rw [here, NamesKept] at kept
    have link := mayLink_eq (drop_append_cons here behind) s
    have link' := mayLink_eq (drop_append_cons here behind') s
    have arrow := findArrow_eq (drop_append_cons here behind)
    have arrow' := findArrow_eq (drop_append_cons here behind')
    rw [findIdx_last some_tail on last] at arrow
    by_cases symbolic : isLink s.mode = true
    · rw [if_pos symbolic] at kept
      rw [symbolic, Bool.true_or] at link link'
      cases found : (more ++ behind').findIdx? isArrow with
      | none =>
        have none_own : more.findIdx? isArrow = none := by
          rw [List.findIdx?_append, Option.or_eq_none_iff] at found
          exact found.1
        rw [none_own] at arrow
        rw [found] at arrow'
        rw [takeNames_none on here s (by rw [link, if_pos rfl, arrow]; rfl),
          takeNames_none on' here s (by rw [link', if_pos rfl, arrow']; rfl)]
      | some i =>
        obtain ⟨next, after, follows⟩ := kept i found
        obtain ⟨short, next', after', same⟩ := next_of_line last after follows
        rw [findIdx_own found short] at arrow
        rw [found] at arrow'
        have there : more[i]? = some more[i] := List.getElem?_eq_getElem short
        rw [takeNames_some on here s (by rw [link, if_pos rfl, arrow]; rfl) there after' (same ▸ follows),
          takeNames_some on' here s (by rw [link', if_pos rfl, arrow']; rfl) there after follows, same]
    · rw [if_neg symbolic] at kept
      rw [Bool.not_eq_true] at symbolic
      rw [symbolic, Bool.false_or] at link link'
      have one : (more ++ behind).length = more.length + 1 := by
        cases last <;> simp
      have none_here : (if mayLink (own ++ behind) idx s then findArrow (own ++ behind) idx else none) = none := by
        rw [link, one]
        split
        next both =>
          simp only [Bool.and_eq_true, decide_eq_true_eq, Nat.reduceEqDiff] at both
          rw [arrow, (kept both.2).1 both.1]
          rfl
        next => rfl
      have none_there : (if mayLink (own ++ behind') idx s then findArrow (own ++ behind') idx else none) = none := by
        rw [link']
        split
        next both =>
          simp only [Bool.and_eq_true, decide_eq_true_eq] at both
          rw [arrow', (kept both.2).2 both.1]
          rfl
        next => rfl
      rw [takeNames_none on here s none_here, takeNames_none on' here s none_there]

end Names

/-- The columns of a line all of whose parts are found in it, unless it cannot be parsed before that. -/
def LineKept (carbon : Bytes) (behind : List Column) (mode : Nat) : List Column → Prop
  | [] => False
  | links :: more => 0 ≤ nlinkOf links → FieldsFit carbon (NamesKept carbon behind mode (nlinkOf links)) mode more

section Fields

variable {carbon tail tail' : Bytes} {own behind behind' : List Column} (system : System)

theorem settled_column_at {c : Column} {idx : Nat} (there : own[idx]? = some c) :
    Settled carbon own tail tail' behind behind' (fun _ columns => column columns idx) (c = ·) := by
  dsimp only [Settled]
  rw [column, column, getElem_own there, getElem_own there]
  exact ⟨rfl, fun _ same => Except.ok.inj same⟩

theorem numberAt_settled {c : Column} {idx : Nat} (there : own[idx]? = some c) :
    Settled carbon own tail tail' behind behind' (fun _ columns => numberAt columns idx) fun _ => isNum c.text = true := by
  refine (settled_column_at there).bind fun _ found => ?_
  subst found
  refine settled_expect.bind fun _ number => ?_
  exact settled_const fun _ _ => number

theorem parseSize_settled (first second : Column) {idx : Nat} (s : Stat) (here : own[idx]? = some first)
    (next : own[idx + 1]? = some second) :
    Settled carbon own tail tail' behind behind' (fun _ columns => parseSize columns idx s)
      fun t => t.mode = s.mode ∧ t.nlink = s.nlink ∧ Sized s.mode first second := by
  refine settled_ite (fun device => ?_) fun other => ?_
  · refine (numberAt_settled here).bind fun major number => ?_
    refine (numberAt_settled next).bind fun minor also => ?_
    exact settled_ok ⟨rfl, rfl, number, fun _ => also⟩
  · refine (settled_column_at here).bind fun _ found => ?_
    subst found
    refine settled_expect.bind fun _ number => ?_
    exact settled_ok ⟨rfl, rfl, number, fun device => absurd device other⟩

theorem parseGroup_settled {group : Column} {idx : Nat} (s : Stat) (there : own[2]? = some group) :
    Settled carbon own tail tail' behind behind' (fun _ columns => parseGroup system columns idx s)
      fun grouped => grouped.1 = (if lacksGroup s.mode idx then 2 else 3) ∧ grouped.2.mode = s.mode ∧ grouped.2.nlink = s.nlink := by
  refine settled_ite (fun lacks => ?_) fun has => ?_
  · exact settled_ok ⟨by rw [if_pos lacks], rfl, rfl⟩
  · refine (settled_column_at there).bind fun _ found => ?_
    exact settled_ok ⟨by rw [if_neg has], rfl, rfl⟩

variable (some_tail : tail ≠ []) (on : GoesOn carbon own tail behind) (on' : GoesOn carbon own tail' behind')
  (last : LastOf carbon tail tail' behind behind')

include some_tail on on' last in
/-- What is parsed once the column of the date is known. -/
theorem fromDate_settled (group first second : Column) (idx : Nat) (room : idx + 6 < maxCols) (s : Stat)
    {nlink : Int} (links : (s.nlink : Int) = nlink) (there : own[2]? = some group)
    (here : own[if lacksGroup s.mode idx then 2 else 3]? = some first)
    (next : own[(if lacksGroup s.mode idx then 2 else 3) + 1]? = some second)
    (fits : Sized s.mode first second → DateFits carbon (NamesKept carbon behind' s.mode nlink) (own.drop idx)) :
    Settled carbon own tail tail' behind behind'
      (fun text columns => parseGroup system columns idx s >>= fun grouped => parseSize columns grouped.1 grouped.2 >>= fun t =>
        vfsParseFiledate system idx columns text >>= fun dated => takeNames text columns dated.1
          { t with mtime := dated.2, atime := dated.2, ctime := dated.2, dev := 0, ino := 0, blksize := 512,
                   blocks := (t.size + 511).tdiv 512 })
      fun _ => True := by
  refine (parseGroup_settled system s there).bind fun grouped group_read => ?_
  obtain ⟨column_of, mode, count⟩ := group_read
  refine (parseSize_settled first second grouped.2 (by rw [column_of, here])
    (by rw [column_of, next])).bind fun t size_read => ?_
  obtain ⟨mode', count', sized⟩ := size_read
  refine (vfsParseFiledate_settled on on' system idx room (fits (mode ▸ sized))).bind fun dated both => ?_
  have counted : (t.nlink : Int) = nlink := by rw [count', count, links]
  have kept := both.2
  rw [← mode, ← mode'] at kept
  exact takeNames_settled some_tail on on' last _ counted kept

theorem settled_dateFrom {c : Column} {idx : Nat} (there : own[idx]? = some c) (n : Nat) {g : Nat → Bytes → List Column → Parse β}
    {Q : β → Prop} (yes : startsDate c = true → Settled carbon own tail tail' behind behind' (g idx) Q)
    (no : ¬ startsDate c = true → Settled carbon own tail tail' behind behind'
    (fun text columns => dateFrom columns n (idx + 1) >>= fun i => g i text columns) Q):
    Settled carbon own tail tail' behind behind' (fun text columns => dateFrom columns (n + 1) idx >>= fun i => g i text columns) Q := by
  dsimp only [Settled]
  rw [dateFrom_cons (getElem_own there behind), dateFrom_cons (getElem_own there behind')]
  by_cases starts : startsDate c = true
  · rw [if_pos starts, if_pos starts]
    exact yes starts
  · rw [if_neg starts, if_neg starts]
    exact no starts

include some_tail on on' last in
theorem parseColumns_settled (s : Stat) (kept : LineKept carbon behind' s.mode own) :
    Settled carbon own tail tail' behind behind' (fun text columns => parseColumns system text columns s) fun _ => True := by
  rcases own with _ | ⟨links, _ | ⟨owner, _ | ⟨group, _ | ⟨third, more⟩⟩⟩⟩
  · exact kept.elim
  all_goals
    simp only [parseColumns, parseOwner, bind_assoc, pure_bind]
    refine (settled_column_at (c := links) rfl).bind fun _ found => ?_
    subst found
    refine settled_expect.bind fun _ counted => ?_
    rw [decide_eq_true_eq] at counted
    have fits := kept counted
  · exact fits.elim
  · exact fits.elim
  · exact fits.elim
  refine (settled_column_at (c := owner) rfl).bind fun _ found => ?_
  subst found
  have nlink : ((nlinkOf links).toNat : Int) = nlinkOf links := Int.toNat_of_nonneg counted
  have read := fun first second idx room => fromDate_settled system some_tail on on' last group first second idx room
      { s with nlink := (nlinkOf links).toNat, uid := account (finduid system) owner } nlink
  unfold FieldsFit at fits
  dsimp only at fits
  refine settled_dateFrom (c := third) rfl 2 (fun dated => ?_) fun undated => ?_
  · rw [if_pos dated] at fits
    refine settled_expect.bind fun _ _ => ?_
    exact read group third 3 (by decide) rfl rfl rfl fits
  rw [if_neg undated] at fits
  rcases more with _ | ⟨fourth, more⟩
  · exact fits.elim
  dsimp only at fits
  refine settled_dateFrom (c := fourth) rfl 1 (fun dated => ?_) fun undated => ?_
  · rw [if_pos dated] at fits
    refine settled_expect.bind fun _ _ => ?_
    cases device : isDevice s.mode with
    | true =>
      rw [device, if_pos rfl] at fits
      have lacks : lacksGroup s.mode (3 + 1) = true := by simp [lacksGroup, device]
      exact read group third (3 + 1) (by decide) rfl (by rw [lacks]; rfl)
        (by rw [lacks]; rfl) fits
    | false =>
      rw [device, if_neg Bool.false_ne_true] at fits
      have lacks : lacksGroup s.mode (3 + 1) = false := by simp [lacksGroup, device]
      exact read third fourth (3 + 1) (by decide) rfl (by rw [lacks]; rfl)
        (by rw [lacks]; rfl) fun sized => fits sized.1
  rw [if_neg undated] at fits
  rcases more with _ | ⟨fifth, more⟩
  · exact fits.elim
  dsimp only at fits
  refine settled_dateFrom (c := fifth) rfl 0 (fun dated => ?_) fun undated => ?_
  · refine settled_expect.bind fun _ expected => ?_
    have device : isDevice s.mode = true := by simpa using expected
    have lacks : lacksGroup s.mode (3 + 1 + 1) = false := by simp [lacksGroup]
    exact read third fourth (3 + 1 + 1) (by decide) rfl (by rw [lacks]; rfl)
      (by rw [lacks]; rfl) (fits dated device)
  · simp only [dateFrom, ok_bind]
    refine settled_expect.bind fun _ impossible => ?_
    exact absurd impossible (by simp)

end Fields

/-- The columns of a line, while there is room for another one behind them. -/
def ownColumns : Nat → Nat → Bytes → List Column
  | 0, _, _ => []
  | left + 1, start, s =>
    let begun := s.dropWhile isSeparator
    let word := begun.takeWhile (!isSeparator ·)
    let start := start + (s.length - begun.length)
    if begun = [] then [] else ⟨start, word⟩ :: ownColumns left (start + word.length) (begun.drop word.length)

variable {s : Bytes}

theorem dropWhile_begun (some_word : s.dropWhile isSeparator ≠ []) (t : Bytes) :
    (s ++ t).dropWhile isSeparator = s.dropWhile isSeparator ++ t := by
  rw [List.dropWhile_append, if_neg (by simpa using some_word)]

theorem takeWhile_begins {t : Bytes} (begins : Begins t) (s : Bytes) :
    (s ++ t).takeWhile (!isSeparator ·) = s.takeWhile (!isSeparator ·) := by
  induction s with
  | nil =>
    cases t with
    | nil => rfl
    | cons c t => rw [List.nil_append, List.takeWhile_cons_of_neg (by simp [begins c rfl]), List.takeWhile_nil]
  | cons d s ih => rw [List.cons_append, List.takeWhile_cons, List.takeWhile_cons, ih]

theorem splitFrom_separators {s t : Bytes} (separates : s.dropWhile isSeparator = []) (some_text : t ≠ []) (left start : Nat) :
    splitFrom (left + 1) start (s ++ t) = splitFrom (left + 1) (start + s.length) t := by
  have passed : (s ++ t).dropWhile isSeparator = t.dropWhile isSeparator := by
    rw [List.dropWhile_append, separates]
    rfl
  have shorter : (t.dropWhile isSeparator).length ≤ t.length := t.length_dropWhile_le isSeparator
  rw [splitFrom, if_neg (by simp [some_text]), splitFrom, if_neg some_text]
  dsimp only
  rw [passed, List.length_append, Nat.add_sub_assoc shorter, ← Nat.add_assoc start]

/-- The columns of a line are split off, whatever line end is behind them, and either the rest of the text
is split, or there is room for one column, which begins in the line. -/
theorem splitFrom_own (left : Nat) : ∀ (start : Nat) (s : Bytes),
    (∀ t, t ≠ [] → Begins t → splitFrom (left + 1) start (s ++ t) =
      ownColumns left start s ++ splitFrom (left + 1 - (ownColumns left start s).length) (start + s.length) t) ∨
    ((ownColumns left start s).length = left ∧ ∃ a u, a < start + s.length ∧
      ∀ t, t ≠ [] → Begins t → splitFrom (left + 1) start (s ++ t) = ownColumns left start s ++ [⟨a, u ++ t⟩]) := by
  induction left with
  | zero =>
    intro start s
    by_cases none_begun : s.dropWhile isSeparator = []
    · exact .inl fun t some_text _ => splitFrom_separators none_begun some_text 0 start
    · refine .inr ⟨rfl, start + (s.length - (s.dropWhile isSeparator).length), s.dropWhile isSeparator, ?_, ?_⟩
      · have shorter := s.length_dropWhile_le isSeparator
        have longer := List.length_pos_iff.mpr none_begun
        omega
      · intro t some_text _
        rw [splitFrom, if_neg (by simp [some_text])]
        dsimp only
        rw [dropWhile_begun none_begun, if_pos rfl, List.length_append, List.length_append, Nat.add_sub_add_right]
        rfl
  | succ left ih =>
    intro start s
    rw [ownColumns]
    by_cases none_begun : s.dropWhile isSeparator = []
    · rw [if_pos none_begun]
      exact .inl fun t some_text _ => splitFrom_separators none_begun some_text (left + 1) start
    · rw [if_neg none_begun]
      have shorter := s.length_dropWhile_le isSeparator
      have word := (List.takeWhile_prefix (!isSeparator ·) (l := s.dropWhile isSeparator)).length_le
      have split_off : ∀ t, t ≠ [] → Begins t → splitFrom (left + 1 + 1) start (s ++ t) =
          ⟨start + (s.length - (s.dropWhile isSeparator).length), (s.dropWhile isSeparator).takeWhile (!isSeparator ·)⟩ ::
            splitFrom (left + 1) (start + (s.length - (s.dropWhile isSeparator).length) +
              ((s.dropWhile isSeparator).takeWhile (!isSeparator ·)).length)
              ((s.dropWhile isSeparator).drop ((s.dropWhile isSeparator).takeWhile (!isSeparator ·)).length ++ t) := by
        intro t some_text begins
        rw [splitFrom, if_neg (by simp [some_text])]
        dsimp only
        rw [dropWhile_begun none_begun, takeWhile_begins begins, if_neg (by omega), List.length_append, List.length_append,
          Nat.add_sub_add_right, List.drop_append_of_le_length word]
      have behind : start + (s.length - (s.dropWhile isSeparator).length) +
          ((s.dropWhile isSeparator).takeWhile (!isSeparator ·)).length +
          ((s.dropWhile isSeparator).drop ((s.dropWhile isSeparator).takeWhile (!isSeparator ·)).length).length =
            start + s.length := by
        rw [List.length_drop]
        omega
      rcases ih (start + (s.length - (s.dropWhile isSeparator).length) +
        ((s.dropWhile isSeparator).takeWhile (!isSeparator ·)).length)
        ((s.dropWhile isSeparator).drop ((s.dropWhile isSeparator).takeWhile (!isSeparator ·)).length) with ended | crowded
      · refine .inl fun t some_text begins => ?_
        rw [split_off t some_text begins, ended t some_text begins, behind, List.length_cons, Nat.add_sub_add_right,
          List.cons_append]
      · obtain ⟨full, a, u, inside, rest⟩ := crowded
        rw [behind] at inside
        refine .inr ⟨by rw [List.length_cons, full], a, u, inside, fun t some_text begins => ?_⟩
        rw [split_off t some_text begins, rest t some_text begins, List.cons_append]

theorem ownColumns_length (left : Nat) : ∀ (start : Nat) (s : Bytes), (ownColumns left start s).length ≤ left := by
  induction left with
  | zero => exact fun _ _ => le_rfl
  | succ left ih =>
    intro start s
    rw [ownColumns]
    split
    · exact Nat.zero_le _
    · exact Nat.succ_le_succ (ih _ _)

theorem ownColumns_inside (left : Nat) : ∀ (start : Nat) (s : Bytes), ∀ c ∈ ownColumns left start s, c.start < start + s.length := by
  induction left with
  | zero => exact fun _ _ c member => absurd member List.not_mem_nil
  | succ left ih =>
    intro start s c member
    rw [ownColumns] at member
    split at member
    · exact absurd member List.not_mem_nil
    next some_word =>
      have shorter := s.length_dropWhile_le isSeparator
      have longer := List.length_pos_iff.mpr some_word
      have word := (List.takeWhile_prefix (!isSeparator ·) (l := s.dropWhile isSeparator)).length_le
      rcases List.mem_cons.mp member with rfl | later
      · dsimp only
        omega
      · have inside := ih _ _ c later
        rw [List.length_drop] at inside
        omega

/-- The columns of a text begin where it does, or later. -/
theorem splitFrom_from (left : Nat) : ∀ (start : Nat) (s : Bytes), ∀ c ∈ splitFrom left start s, start ≤ c.start := by
  induction left with
  | zero => exact fun _ _ c member => absurd member List.not_mem_nil
  | succ left ih =>
    intro start s c member
    rw [splitFrom] at member
    split at member
    · exact absurd member List.not_mem_nil
    · rcases List.mem_cons.mp member with rfl | later
      · exact Nat.le_add_right _ _
      · have := ih _ _ c later
        omega

section Header

variable {tail : Bytes} (some_tail : tail ≠ []) (ends : ∀ c, tail.head? = some c → isLineByte c = false)

include some_tail ends in
theorem isPrefixOf_own (word : Bytes) (clean : ∀ c ∈ word, isLineByte c = true) (p : Bytes) :
    word.isPrefixOf (p ++ tail) = word.isPrefixOf p := by
  induction word generalizing p with
  | nil => rfl
  | cons c word ih =>
    cases p with
    | nil =>
      cases tail with
      | nil => exact absurd rfl some_tail
      | cons d tail =>
        have other : c ≠ d := by
          rintro rfl
          exact absurd (clean c List.mem_cons_self) (by simp [ends c rfl])
        simp [List.isPrefixOf, other]
    | cons d p =>
      rw [List.cons_append, List.isPrefixOf, List.isPrefixOf, ih fun e member => clean e (List.mem_cons_of_mem c member)]

include ends in
theorem without_own {c : UInt8} (clean : isLineByte c = true) (s : Bytes) : without c (s ++ tail) = without c s ++ tail := by
  cases s with
  | nil =>
    have other : ¬ tail.head? = some c := fun same => absurd clean (by simp [ends c same])
    rw [List.nil_append, without, if_neg other]
    rfl
  | cons d s =>
    rw [List.cons_append, without, without, List.head?_cons, List.head?_cons]
    split <;> rfl

include some_tail ends in
theorem letters_own : ∀ (tables : List (List (UInt8 × Nat))), (∀ table ∈ tables, ∀ c, isLineByte c = false → table.lookup c = none) →
    ∀ s, letters tables (s ++ tail) = (letters tables s).map fun found => (found.1, found.2 ++ tail) := by
  intro tables
  induction tables with
  | nil => exact fun _ _ => rfl
  | cons table tables ih =>
    intro clean s
    cases s with
    | nil =>
      cases tail with
      | nil => exact absurd rfl some_tail
      | cons d tail =>
        have missing : table.lookup d = none := clean table List.mem_cons_self d (ends d rfl)
        simp only [List.nil_append, letters, missing, Option.map_none]
    | cons d s =>
      rw [List.cons_append, letters, letters, ih (fun other member => clean other (List.mem_cons_of_mem table member))]
      cases table.lookup d with
      | none => rfl
      | some bits =>
        cases letters tables s with
        | none => rfl
        | some found => rfl

theorem lookup_ends {table : List (UInt8 × Nat)}
    (clean : table.lookup chrReturn = none ∧ table.lookup chrLineFeed = none) (c : UInt8)
    (ended : isLineByte c = false) : table.lookup c = none := by
  rw [isLineByte, Bool.and_eq_false_iff, decide_eq_false_iff_not, decide_eq_false_iff_not, not_not, not_not] at ended
  rcases ended with rfl | rfl
  · exact clean.2
  · exact clean.1

/-- Where a bracket is opened in a line that ends before it can be closed, it is not closed behind the line. -/
def HeaderKept (tail : Bytes) : Bytes → Prop
  | [] => True
  | c :: s => (filetypes.lookup c).isSome = true → (without 32 s).head? = some chrOpen → (without 32 s).length ≤ 8 →
      (without 32 s ++ tail)[8]? ≠ some chrClose

theorem headerKept_of_open (opened : chrClose ∉ tail) (p : Bytes) : HeaderKept tail p := by
  cases p with
  | nil => exact trivial
  | cons c s =>
    intro _ _ short closed
    rw [List.getElem?_append_right short] at closed
    exact opened (List.mem_of_getElem? closed)

include some_tail ends in
theorem modeBehind_own (type : Nat)
    (kept : s.head? = some chrOpen → s.length ≤ 8 → (s ++ tail)[8]? ≠ some chrClose) :
    modeBehind type (s ++ tail) = (modeBehind type s).map fun found => (found.1, found.2 ++ tail) := by
  have opened : (s ++ tail).head? = some chrOpen ↔ s.head? = some chrOpen := by
    cases s with
    | nil =>
      have other : ¬ tail.head? = some chrOpen := fun same => absurd (ends chrOpen same) (by decide)
      simp [other]
    | cons c s => rfl
  rw [modeBehind, modeBehind]
  by_cases bracket : s.head? = some chrOpen
  · rw [if_pos (opened.mpr bracket), if_pos bracket]
    by_cases long : 8 < s.length
    · rw [List.getElem?_append_left long, List.drop_append_of_le_length long]
      split <;> rfl
    · rw [if_neg (kept bracket (by omega)), if_neg (by simp [List.getElem?_eq_none (Nat.le_of_not_lt long)])]
      rfl
  · rw [if_neg (mt opened.mp bracket), if_neg bracket, letters_own some_tail ends filemodes]
    · cases letters filemodes s with
      | none => rfl
      | some found =>
        rw [Option.map_some, Option.map_some, Option.map_some]
        dsimp only
        rw [without_own ends (by decide)]
        rfl
    · intro table member c ended
      refine lookup_ends ?_ c ended
      revert table
      decide

include some_tail ends in
theorem permissions_own {p : Bytes} (kept : HeaderKept tail p) :
    permissions (p ++ tail) = (permissions p).map fun found => (found.1, found.2 ++ tail) := by
  cases p with
  | nil =>
    cases tail with
    | nil => exact absurd rfl some_tail
    | cons c tail =>
      have missing : filetypes.lookup c = none := lookup_ends (by decide) c (ends c rfl)
      simp only [List.nil_append, permissions, missing, Option.bind_none, Option.map_none]
  | cons c s =>
    rw [HeaderKept] at kept
    rw [List.cons_append, permissions, permissions, without_own ends (by decide)]
    cases found : filetypes.lookup c with
    | none => rfl
    | some type =>
      rw [found] at kept
      exact modeBehind_own some_tail ends type (kept rfl)

end Header

section Line

/-- A text behind a line: it begins with a line end, and the first column in it begins a line. -/
structure Follows (tail : Bytes) : Prop where
  some_tail : tail ≠ []
  ends : ∀ c, tail.head? = some c → isLineByte c = false
  closes : ∀ c, (tail.takeWhile isSeparator).getLast? = some c → isLineByte c = false

theorem separator_of_end {c : UInt8} (ended : isLineByte c = false) : isSeparator c = true := by
  rw [isLineByte, Bool.and_eq_false_iff, decide_eq_false_iff_not, decide_eq_false_iff_not, not_not, not_not] at ended
  rcases ended with rfl | rfl <;> rfl

theorem Follows.begins {tail : Bytes} (follows : Follows tail) : Begins tail := fun c front =>
  separator_of_end (follows.ends c front)

/-- The columns of the line that have room for another one behind them, and the columns behind these. -/
def lineColumns (carbon : Bytes) : List Column := ownColumns 29 0 carbon

def columnsBehind (carbon tail : Bytes) : List Column := (vfsSplitText (carbon ++ tail)).drop (lineColumns carbon).length

variable {carbon tail tail' : Bytes}

theorem vfsSplitText_own (follows : Follows tail) : vfsSplitText (carbon ++ tail) = lineColumns carbon ++ columnsBehind carbon tail := by
  have front : ∃ behind, vfsSplitText (carbon ++ tail) = lineColumns carbon ++ behind := by
    rcases splitFrom_own 29 0 carbon with ended | crowded
    · exact ⟨_, ended tail follows.some_tail follows.begins⟩
    · obtain ⟨_, a, u, _, rest⟩ := crowded
      exact ⟨_, rest tail follows.some_tail follows.begins⟩
  obtain ⟨behind, same⟩ := front
  rw [columnsBehind, same, List.drop_left]

/-- The first column behind the line begins a line. -/
theorem closes_of_follows (follows : Follows tail) (left : Nat) :
    endsLine (carbon ++ tail) (splitFrom (left + 1) carbon.length tail) = true := by
  have parts : tail.takeWhile isSeparator ++ tail.dropWhile isSeparator = tail := List.takeWhile_append_dropWhile
  have lengths := congrArg List.length parts
  rw [List.length_append] at lengths
  have some_gap : tail.takeWhile isSeparator ≠ [] := by
    cases same : tail with
    | nil => exact absurd same follows.some_tail
    | cons c rest =>
      have separates : isSeparator c = true := follows.begins c (by rw [same]; rfl)
      simp [separates]
  have positive := List.length_pos_iff.mpr some_gap
  have last : byteAt (carbon ++ tail) (carbon.length + (tail.length - (tail.dropWhile isSeparator).length) - 1) =
      (tail.takeWhile isSeparator).getLast some_gap := by
    have place : carbon.length + (tail.length - (tail.dropWhile isSeparator).length) - 1 - carbon.length =
        (tail.takeWhile isSeparator).length - 1 := by omega
    have before_end : (tail.takeWhile isSeparator).length - 1 < (tail.takeWhile isSeparator).length := by omega
    rw [byteAt, List.getD_eq_getElem?_getD, List.getElem?_append_right (by omega), place]
    nth_rewrite 1 [← parts]
    rw [List.getElem?_append_left before_end, List.getElem?_eq_getElem before_end, Option.getD_some, List.getLast_eq_getElem]
  have ended := follows.closes _ (List.getLast?_eq_some_getLast some_gap)
  rw [splitFrom, if_neg follows.some_tail]
  dsimp only
  rw [endsLine, last, ended]
  rfl

theorem goesOn_of_follows (follows : Follows tail) : GoesOn carbon (lineColumns carbon) tail (columnsBehind carbon tail) := by
  refine ⟨?_, ?_, follows.ends, ?_⟩
  · rw [← vfsSplitText_own follows]
    exact vfsSplitText_within _
  · intro c member
    simpa using ownColumns_inside 29 0 carbon c member
  · intro room
    rcases splitFrom_own 29 0 carbon with ended | crowded
    · have split_off := ended tail follows.some_tail follows.begins
      have whole : (lineColumns carbon).length ≤ 29 := ownColumns_length 29 0 carbon
      have left : 29 + 1 - (lineColumns carbon).length = 29 - (lineColumns carbon).length + 1 := by omega
      rw [columnsBehind, vfsSplitText, maxCols, split_off]
      change endsLine _ ((lineColumns carbon ++ splitFrom (29 + 1 - (lineColumns carbon).length) (0 + carbon.length) tail).drop
        (lineColumns carbon).length) = true
      rw [List.drop_left, left, Nat.zero_add]
      exact closes_of_follows follows _
    · exact absurd crowded.1 (by simp only [maxCols, lineColumns] at room; omega)

/-- What is behind a line with no other one behind it. -/
theorem lastOf_follows (follows : Follows tail) (follows' : Follows tail') (separates : tail.dropWhile isSeparator = []) :
    LastOf carbon tail tail' (columnsBehind carbon tail) (columnsBehind carbon tail') := by
  rcases splitFrom_own 29 0 carbon with ended | crowded
  · have whole : (lineColumns carbon).length ≤ 29 := ownColumns_length 29 0 carbon
    have left : 29 + 1 - (lineColumns carbon).length = 29 - (lineColumns carbon).length + 1 := by omega
    have behind : ∀ {t : Bytes}, Follows t →
        columnsBehind carbon t = splitFrom (29 - (lineColumns carbon).length + 1) carbon.length t := by
      intro t following
      have split_off := ended t following.some_tail following.begins
      rw [columnsBehind, vfsSplitText, maxCols, split_off, ← left, Nat.zero_add]
      exact List.drop_left
    rw [behind follows, behind follows', splitFrom, if_neg follows.some_tail]
    dsimp only
    rw [separates]
    have nothing : ∀ n start, splitFrom n start [] = [] := by
      intro n start
      cases n <;> rfl
    rw [List.takeWhile_nil, List.drop_nil, nothing, ite_self]
    exact .ended _ fun c member => splitFrom_from _ _ _ c member
  · obtain ⟨_, a, u, inside, rest⟩ := crowded
    have behind : ∀ {t : Bytes}, Follows t → columnsBehind carbon t = [⟨a, u ++ t⟩] := by
      intro t following
      have split_off := rest t following.some_tail following.begins
      rw [columnsBehind, vfsSplitText, maxCols, split_off]
      exact List.drop_left
    rw [behind follows, behind follows']
    exact .crowded a u (by omega)

/-- A line that is parsed as if it stood alone: its header and all the parts behind it are its own. -/
def Kept (tail p : Bytes) : Prop :=
  (ascii "total").isPrefixOf p = false → HeaderKept tail p ∧
    ∀ mode carbon, permissions p = some (mode, carbon) → LineKept carbon (columnsBehind carbon tail) mode (lineColumns carbon)

theorem gnomeVfsParseLsLga_eq (system : System) (p : Bytes) (s : Stat) :
    gnomeVfsParseLsLga system p s = if (ascii "total").isPrefixOf p then .error .unparsed else
      match permissions p with
      | none => .error .unparsed
      | some (mode, carbon) => parseColumns system carbon (vfsSplitText carbon) { s with mode := mode } := by
  rw [gnomeVfsParseLsLga]
  cases (ascii "total").isPrefixOf p with
  | true => rfl
  | false =>
    have gives := parseMode_gives p
    cases header : permissions p with
    | none =>
      rw [header] at gives
      rw [show parseMode p = .error .unparsed from gives]
      rfl
    | some found =>
      rw [header] at gives
      obtain ⟨i, parsed, inside, behind⟩ := gives
      simp only [parsed, ok_bind, readString_eq inside, behind]
      rfl

theorem line_kept (system : System) {p : Bytes} (s : Stat) (follows : Follows tail)
    (separates : tail.dropWhile isSeparator = []) (alone : HeaderKept tail p) (follows' : Follows tail')
    (kept : Kept tail' p) :
    gnomeVfsParseLsLga system (p ++ tail') s = gnomeVfsParseLsLga system (p ++ tail) s := by
  rw [gnomeVfsParseLsLga_eq, gnomeVfsParseLsLga_eq, isPrefixOf_own follows.some_tail follows.ends _ (by decide),
    isPrefixOf_own follows'.some_tail follows'.ends _ (by decide)]
  cases total : (ascii "total").isPrefixOf p with
  | true => rfl
  | false =>
    obtain ⟨header, columns⟩ := kept total
    rw [permissions_own follows.some_tail follows.ends alone, permissions_own follows'.some_tail follows'.ends header]
    cases found : permissions p with
    | none => rfl
    | some pair =>
      have settled := parseColumns_settled system follows.some_tail (goesOn_of_follows follows) (goesOn_of_follows follows')
        (lastOf_follows follows follows' separates) { s with mode := pair.1 } (columns pair.1 pair.2 found)
      have same := settled.1
      dsimp only at same
      rw [← vfsSplitText_own follows, ← vfsSplitText_own follows'] at same
      exact same.symm

end Line

end GnomeVfs.ParseLs
