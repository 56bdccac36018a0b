import GnomeVfs.FtpListing
import GnomeVfs.ParseLsShared

/- The lines of a listing and the entries that are read from it, where no line runs into the next ones. -/
namespace GnomeVfs.Ftp

open Daemon (FileInfo)
open ParseLs

section Netware

variable {tail : Bytes}

/-- A line of a Netware server that is long enough for the name, and has a size. -/
def NetwareKept (s : Bytes) : Prop :=
  (ascii "total").isPrefixOf s = true ∨ (64 ≤ s.length ∧ ∃ c ∈ s.drop 35, isSpace c = false)

theorem digitIn_end {c : UInt8} (ended : isLineByte c = false) : digitIn c = 36 := by
  rw [isLineByte, Bool.and_eq_false_iff, decide_eq_false_iff_not, decide_eq_false_iff_not, not_not, not_not] at ended
  rcases ended with rfl | rfl <;> rfl

variable (follows : Follows tail)

include follows in
/-- A line end ends a number. -/
theorem valueIn_own (base : Nat) (digits : base ≤ 36) (s : Bytes) : valueIn base (s ++ tail) = valueIn base s := by
  have same : (s ++ tail).takeWhile (fun c => digitIn c < base) = s.takeWhile fun c => digitIn c < base := by
    induction s with
    | nil =>
      cases front : tail with
      | nil => rfl
      | cons c rest =>
        have ended := digitIn_end (follows.ends c (by rw [front]; rfl))
        rw [List.nil_append, List.takeWhile_cons_of_neg (by simp [ended, digits]), List.takeWhile_nil]
    | cons d s ih => rw [List.cons_append, List.takeWhile_cons, List.takeWhile_cons, ih]
  rw [valueIn, valueIn, same]

theorem unsignedValue_other {s : Bytes} (other : s.head? ≠ some 48) : unsignedValue s = valueIn 10 s := by
  rw [unsignedValue]
  · rintro x c rest rfl
    exact other rfl
  · rintro rest rfl
    exact other rfl

include follows in
theorem unsignedValue_own (s : Bytes) : unsignedValue (s ++ tail) = unsignedValue s := by
  have ⟨d, rest, front, ended⟩ : ∃ d rest, tail = d :: rest ∧ isLineByte d = false := by
    cases front : tail with
    | nil => exact absurd front follows.some_tail
    | cons d rest => exact ⟨d, rest, rfl, follows.ends d (by rw [front]; rfl)⟩
  have no_x : ¬ (d = 120 ∨ d = 88) := by
    rintro (rfl | rfl) <;> exact absurd ended (by decide)
  have no_zero : d ≠ 48 := by
    rintro rfl
    exact absurd ended (by decide)
  have octal := fun s => valueIn_own follows 8 (by decide) s
  have decimal := fun s => valueIn_own follows 10 (by decide) s
  cases s with
  | nil =>
    rw [List.nil_append, front, unsignedValue_other (by simp [no_zero]), ← front]
    exact decimal []
  | cons a s =>
    by_cases zero : a = 48
    · subst zero
      rcases s with _ | ⟨x, _ | ⟨c, s⟩⟩
      · rw [List.cons_append, List.nil_append, front]
        cases rest with
        | nil =>
          simp only [unsignedValue]
          exact front ▸ octal []
        | cons e rest =>
          simp only [unsignedValue]
          rw [if_neg fun both => no_x both.1]
          exact front ▸ octal []
      · rw [List.cons_append, List.cons_append, List.nil_append, front]
        simp only [unsignedValue]
        rw [if_neg fun both => absurd both.2 (by simp [digitIn_end ended])]
        exact front ▸ octal [x]
      · simp only [List.cons_append, unsignedValue]
        rw [← List.cons_append, ← List.cons_append, octal, valueIn_own follows 16 (by decide)]
    · rw [List.cons_append, unsignedValue_other (by simp [zero]), unsignedValue_other (by simp [zero]), ← List.cons_append]
      exact decimal (a :: s)

include follows in
theorem strtol_own {s : Bytes} (some_char : ∃ c ∈ s, isSpace c = false) : strtol (s ++ tail) = strtol s := by
  have ⟨c, member, other⟩ := some_char
  have begun : s.dropWhile isSpace ≠ [] := by
    intro none_begun
    exact absurd (List.dropWhile_eq_nil_iff.mp none_begun c member) (by simp [other])
  rw [strtol, strtol, List.dropWhile_append, if_neg (by simpa using begun)]
  cases same : s.dropWhile isSpace with
  | nil => exact absurd same begun
  | cons d rest =>
    by_cases minus : d = 45
    · subst minus
      simp only [List.cons_append, unsignedValue_own follows rest]
    · by_cases plus : d = 43
      · subst plus
        simp only [List.cons_append, unsignedValue_own follows rest]
      · have other := unsignedValue_own follows (d :: rest)
        rw [List.cons_append] at other ⊢
        split <;> simp_all

include follows in
/-- A line of a Netware server is read as if it stood alone. -/
theorem netwareLsToFileInfo_own (system : System) (desktop : Desktop) {s : Bytes} (kept : NetwareKept s) (info : FileInfo) :
    netwareLsToFileInfo system desktop (s ++ tail) info = netwareLsToFileInfo system desktop s info := by
  have total := isPrefixOf_own follows.some_tail follows.ends (ascii "total") (by decide) s
  rw [netwareLsToFileInfo, netwareLsToFileInfo, total]
  rcases kept with skipped | ⟨long, some_char⟩
  · rw [skipped]
    rfl
  · cases s with
    | nil => exact absurd long (by decide)
    | cons c s =>
      have type : netwareType (c :: s ++ tail) = netwareType (c :: s) := rfl
      have size : ∀ info, withSize (c :: s ++ tail) info = withSize (c :: s) info := by
        intro info
        rw [withSize, withSize, if_pos (by rw [List.length_append]; omega), if_pos (by omega),
          List.drop_append_of_le_length (by omega), strtol_own follows some_char]
      have time : ∀ info, withTime system desktop (c :: s ++ tail) info = withTime system desktop (c :: s) info := by
        intro info
        rw [withTime, withTime, if_pos (by rw [List.length_append]; omega), if_pos (by omega),
          List.drop_append_of_le_length (by omega), List.take_append_of_le_length (by rw [List.length_drop]; omega)]
      have name : (if 64 ≤ (c :: s ++ tail).length then some (((c :: s ++ tail).drop 64).takeWhile isLineByte) else none) =
          if 64 ≤ (c :: s).length then some (((c :: s).drop 64).takeWhile isLineByte) else none := by
        rw [if_pos (by rw [List.length_append]; omega), if_pos long, List.drop_append_of_le_length (by omega),
          takeWhile_own follows.ends]
      simp only [type, size, time, name]

end Netware

section Info

variable (system : System) (desktop : Desktop) (stat : Stat)

abbrev isNetware (serverType : Bytes) : Prop := serverType.take 7 = ascii "NETWARE"

/-- What the lines in front leave of an info is not told from it in the entry of another line. -/
def Leaves (serverType : Bytes) (info left : FileInfo) : Prop :=
  { left with validFields := 0 } = { info with validFields := 0 } ∧
    (¬ isNetware serverType → withoutPermissions left = withoutPermissions info)

theorem withoutPermissions_twice (info : FileInfo) : withoutPermissions (withoutPermissions info) = withoutPermissions info := by
  simp only [withoutPermissions]
  congr 1
  rw [BitVec.and_assoc, BitVec.and_self]

theorem masked_or {v w mask : BitVec 32} (same : v &&& mask = w &&& mask) (x : BitVec 32) :
    (v ||| x) &&& mask = (w ||| x) &&& mask := by
  rw [BitVec.and_or_distrib_right, same, BitVec.and_or_distrib_right]

theorem masked_and {v w mask : BitVec 32} (same : v &&& mask = w &&& mask) (x : BitVec 32) :
    v &&& x &&& mask = w &&& x &&& mask := by
  rw [BitVec.and_assoc, BitVec.and_comm x, ← BitVec.and_assoc, same, BitVec.and_assoc, BitVec.and_comm mask, ← BitVec.and_assoc]

variable {serverType : Bytes} {info left : FileInfo}

theorem Leaves.eq_with (alike : Leaves serverType info left) : left = { info with validFields := left.validFields } := by
  have same := alike.1
  cases left
  cases info
  simp only [FileInfo.mk.injEq] at same ⊢
  simpa using same

theorem entryInfo_alike (alike : Leaves serverType info left) (unix : ¬ isNetware serverType) (entry : ParseLs.Entry) :
    withoutPermissions (entryInfo desktop left entry) = withoutPermissions (entryInfo desktop info entry) := by
  have fields := congrArg FileInfo.validFields (alike.2 unix)
  rw [alike.eq_with]
  simp only [withoutPermissions] at fields
  simp only [entryInfo, statToFileInfo, withoutPermissions]
  cases entry.linkname with
  | none =>
    congr 1
    exact masked_or (masked_or (masked_and (masked_or fields _) _) _) _
  | some target =>
    congr 1
    exact masked_or (masked_or (masked_or (masked_and (masked_or fields _) _) _) _) _

/-- The parser does the same with both infos. -/
inductive Same (serverType : Bytes) (info : FileInfo) : Parse (Bool × FileInfo) → Parse (Bool × FileInfo) → Prop where
  | found {entry other : FileInfo} (same : withoutPermissions other = withoutPermissions entry) :
      Same serverType info (.ok (true, entry)) (.ok (true, other))
  | nothing {entry other : FileInfo} (alike : Leaves serverType info (withoutPermissions other)) :
      Same serverType info (.ok (false, entry)) (.ok (false, other))
  | fault (fault : Fault) : Same serverType info (.error fault) (.error fault)

theorem netware_alike (alike : Leaves serverType info left) (netware : isNetware serverType) (ls : Bytes) :
    Same serverType info (.ok (netwareLsToFileInfo system desktop ls info)) (.ok (netwareLsToFileInfo system desktop ls left)) := by
  have same : netwareLsToFileInfo system desktop ls left = netwareLsToFileInfo system desktop ls info := by
    rw [alike.eq_with]
    rfl
  rw [same, netwareLsToFileInfo]
  dsimp only
  split
  · exact .nothing ⟨rfl, fun unix => absurd netware unix⟩
  · exact .found rfl

theorem unix_alike (alike : Leaves serverType info left) (unix : ¬ isNetware serverType) (ls : Bytes) :
    Same serverType info (unixLsToFileInfo system desktop stat ls info) (unixLsToFileInfo system desktop stat ls left) := by
  rw [unixLsToFileInfo, unixLsToFileInfo]
  split
  next entry found => exact .found (entryInfo_alike desktop alike unix entry)
  next => exact .nothing ⟨alike.1, fun _ => (withoutPermissions_twice left).trans (alike.2 unix)⟩
  next => exact .fault _

theorem lsToFileInfo_alike (alike : Leaves serverType info left) (ls : Bytes) :
    Same serverType info (lsToFileInfo system desktop stat serverType ls info) (lsToFileInfo system desktop stat serverType ls left) := by
  rw [lsToFileInfo, lsToFileInfo]
  by_cases netware : isNetware serverType
  · rw [if_pos netware, if_pos netware]
    exact netware_alike system desktop alike netware ls
  · rw [if_neg netware, if_neg netware]
    exact unix_alike system desktop stat alike netware ls

end Info

section Lines

/-- A line of a listing, and whether it ends in CR LF or in LF. -/
structure ListedLine where
  content : Bytes
  crlf : Bool

def ListedLine.ending (line : ListedLine) : Bytes := if line.crlf then [chrReturn, chrLineFeed] else [chrLineFeed]

def ListedLine.text (line : ListedLine) : Bytes := line.content ++ line.ending

def listing (lines : List ListedLine) : Bytes := lines.flatMap ListedLine.text

def ListedLine.isBlank (line : ListedLine) : Bool := line.content.all (· = 32)

/-- The lines from the first one on that is not blank. -/
def pastBlank (lines : List ListedLine) : List ListedLine := lines.dropWhile ListedLine.isBlank

variable (serverType : Bytes)

/-- A line that is found behind another one: it does not begin with white space, unless it is blank, which
is no line of a Netware server. -/
def Starts (line : ListedLine) : Prop :=
  (¬ isNetware serverType ∧ line.isBlank = true) ∨ ∃ c, line.content.head? = some c ∧ isAsciiSpace c = false

/-- A line that has all of its parts, with these lines behind it. -/
def LineApart (line : ListedLine) (rest : List ListedLine) : Prop :=
  if isNetware serverType then NetwareKept line.content else Kept (line.ending ++ listing rest) line.content

/-- Lines that do not run into each other. -/
def Apart : List ListedLine → Prop
  | [] => True
  | line :: rest =>
    (∀ c ∈ line.content, isLineByte c = true) ∧ (rest ≠ [] → LineApart serverType line rest) ∧
      (∀ next, rest.head? = some next → Starts serverType next) ∧ Apart rest

variable {serverType : Bytes} {line : ListedLine} {rest lines : List ListedLine}

@[simp] theorem listing_nil : listing [] = [] := rfl

theorem listing_cons : listing (line :: rest) = line.content ++ (line.ending ++ listing rest) := by
  rw [listing, List.flatMap_cons, ListedLine.text, List.append_assoc]
  rfl

theorem ending_cases (line : ListedLine) : line.ending = [chrReturn, chrLineFeed] ∨ line.ending = [chrLineFeed] := by
  rw [ListedLine.ending]
  cases line.crlf with
  | true => exact .inl rfl
  | false => exact .inr rfl

theorem Apart.starts : ∀ {lines : List ListedLine}, (∀ next, lines.head? = some next → Starts serverType next) →
    Apart serverType lines → ∀ l ∈ lines, Starts serverType l
  | [], _, _, l, member => absurd member List.not_mem_nil
  | line :: rest, front, apart, l, member => by
    rcases List.mem_cons.mp member with rfl | later
    · exact front l rfl
    · exact Apart.starts apart.2.2.1 apart.2.2.2 l later

theorem Apart.drop (apart : Apart serverType lines) : ∀ n, Apart serverType (lines.drop n) := by
  intro n
  induction n generalizing lines with
  | zero => exact apart
  | succ n ih =>
    cases lines with
    | nil => exact trivial
    | cons line rest => exact ih apart.2.2.2

theorem apart_pastBlank (apart : Apart serverType lines) : Apart serverType (pastBlank lines) := by
  have behind : lines.drop (lines.takeWhile ListedLine.isBlank).length = pastBlank lines := by
    nth_rewrite 2 [← List.takeWhile_append_dropWhile (p := ListedLine.isBlank) (l := lines)]
    exact List.drop_left
  exact behind ▸ apart.drop _

theorem blank_text (blank : line.isBlank = true) : ∀ c ∈ line.text, isSeparator c = true ∧ isAsciiSpace c = true := by
  intro c member
  have separates : ∀ c ∈ line.ending, isSeparator c = true ∧ isAsciiSpace c = true := by
    rcases ending_cases line with same | same <;> rw [same] <;> decide
  rcases List.mem_append.mp member with inside | ended
  · have space : c = 32 := by simpa using List.all_eq_true.mp blank c inside
    subst space
    exact ⟨rfl, rfl⟩
  · exact separates c ended

theorem Starts.front (starts : Starts serverType line) (some_char : line.isBlank = false) :
    ∃ c s, line.content = c :: s ∧ isAsciiSpace c = false := by
  rcases starts with ⟨_, blank⟩ | ⟨c, front, other⟩
  · rw [some_char] at blank
    cases blank
  · have ⟨s, same⟩ := List.head?_eq_some_iff.mp front
    exact ⟨c, s, same, other⟩

theorem space_of_separator {c : UInt8} (other : isAsciiSpace c = false) : isSeparator c = false := by
  simp only [isAsciiSpace, Bool.or_eq_false_iff, decide_eq_false_iff_not] at other
  simp [isSeparator, other]

theorem dropWhile_listing (starts : ∀ l ∈ lines, Starts serverType l) :
    (listing lines).dropWhile isAsciiSpace = listing (pastBlank lines) := by
  induction lines with
  | nil => rfl
  | cons line rest ih =>
    cases blank : line.isBlank with
    | true =>
      rw [pastBlank, List.dropWhile_cons_of_pos blank, listing, List.flatMap_cons,
        List.dropWhile_append_of_pos fun c member => (blank_text blank c member).2]
      exact ih fun l member => starts l (List.mem_cons_of_mem line member)
    | false =>
      have ⟨c, s, same, other⟩ := (starts line List.mem_cons_self).front blank
      rw [pastBlank, List.dropWhile_cons_of_neg (by simp [blank]), listing_cons, same, List.cons_append,
        List.dropWhile_cons_of_neg (by simp [other])]

theorem nextLine_listing (clean : ∀ c ∈ line.content, isLineByte c = true) (starts : ∀ l ∈ rest, Starts serverType l) :
    nextLine (listing (line :: rest)) = listing (pastBlank rest) := by
  have ended : ∀ c ∈ line.ending, isAsciiSpace c = true := by
    rcases ending_cases line with same | same <;> rw [same] <;> decide
  have stops : (line.ending ++ listing rest).dropWhile isLineByte = line.ending ++ listing rest := by
    rcases ending_cases line with same | same <;> rw [same] <;> rfl
  rw [nextLine, listing_cons, List.dropWhile_append_of_pos clean, stops, List.dropWhile_append_of_pos ended,
    dropWhile_listing starts]

/-- The first column behind a line begins another one. -/
theorem closes_listing (starts : ∀ l ∈ lines, Starts serverType l) (s : Bytes) (separates : ∀ c ∈ s, isSeparator c = true)
    (last : s.getLast? = some chrLineFeed) : ((s ++ listing lines).takeWhile isSeparator).getLast? = some chrLineFeed := by
  induction lines generalizing s with
  | nil => rw [listing_nil, List.append_nil, List.takeWhile_eq_self_iff.mpr separates, last]
  | cons line rest ih =>
    cases blank : line.isBlank with
    | true =>
      rw [listing, List.flatMap_cons, ← List.append_assoc]
      refine ih (fun l member => starts l (List.mem_cons_of_mem line member)) (s ++ line.text) ?_ ?_
      · intro c member
        rcases List.mem_append.mp member with inside | behind
        · exact separates c inside
        · exact (blank_text blank c behind).1
      · rcases ending_cases line with same | same <;> simp [ListedLine.text, same]
    | false =>
      have ⟨c, front, same, other⟩ := (starts line List.mem_cons_self).front blank
      rw [listing_cons, same, List.cons_append, List.takeWhile_append_of_pos separates,
        List.takeWhile_cons_of_neg (by simp [space_of_separator other]), List.append_nil, last]

theorem follows_listing (starts : ∀ l ∈ rest, Starts serverType l) : Follows (line.ending ++ listing rest) := by
  have last : ((line.ending ++ listing rest).takeWhile isSeparator).getLast? = some chrLineFeed := by
    refine closes_listing starts line.ending ?_ ?_ <;>
      rcases ending_cases line with same | same <;> rw [same] <;> decide
  constructor
  · rcases ending_cases line with same | same <;> simp [same]
  · rcases ending_cases line with same | same <;> simp [same] <;> decide
  · intro c found
    rw [last, Option.some.injEq] at found
    exact found ▸ rfl

end Lines

section Entries

variable (system : System) (desktop : Desktop) (stat : Stat) (serverType : Bytes)

/-- The entry of the first line that has one when it is read on its own, and the lines behind it. -/
def nextEntry (info : FileInfo) : List ListedLine → Parse (Option (FileInfo × List ListedLine))
  | [] => .ok none
  | line :: rest => do
    let (success, entry) ← lsToFileInfo system desktop stat serverType line.text info
    if success then return some (withoutPermissions entry, rest) else nextEntry info rest

/-- The answer that is found among the lines, and the lines behind it. -/
def answerOf : Option (FileInfo × List ListedLine) → Answer × List ListedLine
  | none => (.eof, [])
  | some (entry, rest) => (.entry entry, rest)

/-- The answers that the lines have on their own. -/
def entriesAlone : List ListedLine → List FileInfo → Parse (List Answer)
  | _, [] => .ok []
  | lines, info :: infos => do
    let found ← nextEntry system desktop stat serverType info lines
    let answers ← entriesAlone (answerOf found).2 infos
    return (answerOf found).1 :: answers

/-- The reading that an entry among the lines stands for. -/
def readingOf : Option (FileInfo × List ListedLine) → Reading
  | none => .eof
  | some (entry, rest) => .found entry (listing (pastBlank rest))

variable {serverType} {line : ListedLine} {rest lines : List ListedLine} {info left : FileInfo}

/-- A line of a listing is read as if it stood alone. -/
theorem lsToFileInfo_apart (apart : Apart serverType (line :: rest)) (info : FileInfo) :
    lsToFileInfo system desktop stat serverType (listing (line :: rest)) info =
      lsToFileInfo system desktop stat serverType line.text info := by
  have starts := Apart.starts apart.2.2.1 apart.2.2.2
  have follows : Follows (line.ending ++ listing rest) := follows_listing starts
  have alone : Follows line.ending := by
    have none_there : ∀ l ∈ ([] : List ListedLine), Starts serverType l := fun l member => absurd member List.not_mem_nil
    have none_behind : Follows (line.ending ++ listing []) := follows_listing none_there
    rwa [listing_nil, List.append_nil] at none_behind
  by_cases some_rest : rest = []
  · rw [some_rest, listing, List.flatMap_singleton]
  · have kept := apart.2.1 some_rest
    rw [LineApart] at kept
    rw [listing_cons, ListedLine.text, lsToFileInfo, lsToFileInfo]
    by_cases netware : isNetware serverType
    · rw [if_pos netware] at kept
      rw [if_pos netware, if_pos netware, netwareLsToFileInfo_own follows system desktop kept,
        netwareLsToFileInfo_own alone system desktop kept]
    · rw [if_neg netware] at kept
      have separates : line.ending.dropWhile isSeparator = [] := by
        rcases ending_cases line with same | same <;> rw [same] <;> rfl
      have header : HeaderKept line.ending line.content := by
        refine headerKept_of_open ?_ line.content
        rcases ending_cases line with same | same <;> rw [same] <;> decide
      rw [if_neg netware, if_neg netware, unixLsToFileInfo, unixLsToFileInfo,
        line_kept system stat alone separates header follows kept]

theorem nextEntry_blank (starts : Starts serverType line) (blank : line.isBlank = true) :
    nextEntry system desktop stat serverType info (line :: rest) = nextEntry system desktop stat serverType info rest := by
  have unix : ¬ isNetware serverType := by
    rcases starts with ⟨unix, _⟩ | ⟨c, front, other⟩
    · exact unix
    · have space : c = 32 := by simpa using List.all_eq_true.mp blank c (List.mem_of_mem_head? front)
      subst space
      exact absurd other (by decide)
  have unparsed : gnomeVfsParseLsLga system line.text stat = .error .unparsed := by
    have separates := fun c member => (blank_text blank c member).1
    cases same : line.text with
    | nil =>
      rw [gnomeVfsParseLsLga_eq]
      rfl
    | cons c s =>
      have separator : isSeparator c = true := separates c (same ▸ List.mem_cons_self)
      have missing : filetypes.lookup c = none := by
        simp only [isSeparator, Bool.or_eq_true, decide_eq_true_eq] at separator
        rcases separator with (rfl | rfl) | rfl <;> decide
      simp only [gnomeVfsParseLsLga_eq, permissions, missing, Option.bind_none, ite_self]
  rw [nextEntry, lsToFileInfo, if_neg unix, unixLsToFileInfo, unparsed]
  rfl

theorem nextEntry_pastBlank (starts : ∀ l ∈ lines, Starts serverType l) :
    nextEntry system desktop stat serverType info (pastBlank lines) = nextEntry system desktop stat serverType info lines := by
  induction lines with
  | nil => rfl
  | cons line rest ih =>
    cases blank : line.isBlank with
    | true =>
      rw [pastBlank, List.dropWhile_cons_of_pos blank,
        nextEntry_blank system desktop stat (starts line List.mem_cons_self) blank]
      exact ih fun l member => starts l (List.mem_cons_of_mem line member)
    | false => rw [pastBlank, List.dropWhile_cons_of_neg (by simp [blank])]

theorem entriesAlone_pastBlank (starts : ∀ l ∈ lines, Starts serverType l) (infos : List FileInfo) :
    entriesAlone system desktop stat serverType (pastBlank lines) infos = entriesAlone system desktop stat serverType lines infos := by
  cases infos with
  | nil => rw [entriesAlone, entriesAlone]
  | cons info infos => rw [entriesAlone, entriesAlone, nextEntry_pastBlank system desktop stat starts]

theorem listing_ne_nil (line : ListedLine) (rest : List ListedLine) : listing (line :: rest) ≠ [] := by
  rcases ending_cases line with same | same <;> simp [listing_cons, same]

theorem length_le_listing (lines : List ListedLine) : lines.length ≤ (listing lines).length := by
  induction lines with
  | nil => exact le_rfl
  | cons line rest ih =>
    have ended : 0 < line.ending.length := by
      rcases ending_cases line with same | same <;> rw [same] <;> decide
    rw [listing_cons, List.length_append, List.length_append, List.length_cons]
    omega

theorem lsToFileInfo_end (serverType : Bytes) (info : FileInfo) :
    ∃ parsed, lsToFileInfo system desktop stat serverType [] info = .ok parsed := by
  rw [lsToFileInfo]
  split
  · exact ⟨_, rfl⟩
  · exact ⟨(false, info), rfl⟩

/-- The loop finds the entry that the lines have on their own. -/
theorem readRounds_eq : ∀ (n : Nat) (lines : List ListedLine) (left : FileInfo), Apart serverType lines → lines.length < n →
    Leaves serverType info left → readRounds system desktop stat serverType n (listing lines) left =
      (nextEntry system desktop stat serverType info lines).map readingOf := by
  intro n
  induction n with
  | zero => exact fun lines left _ impossible => absurd impossible (Nat.not_lt_zero _)
  | succ n ih =>
    intro lines left apart room alike
    cases lines with
    | nil =>
      have ⟨parsed, same⟩ := lsToFileInfo_end system desktop stat serverType left
      rw [listing_nil, readRounds, same]
      rfl
    | cons line rest =>
      have starts := Apart.starts apart.2.2.1 apart.2.2.2
      have some_text : listing (line :: rest) ≠ [] := listing_ne_nil line rest
      have next := nextLine_listing apart.1 starts
      have same := lsToFileInfo_alike system desktop stat alike line.text
      rw [readRounds, nextEntry, lsToFileInfo_apart system desktop stat apart]
      generalize lsToFileInfo system desktop stat serverType line.text info = once at same
      generalize lsToFileInfo system desktop stat serverType line.text left = again at same
      cases same with
      | found same =>
        simp only [ok_bind, if_neg some_text, if_true, next, same]
        rfl
      | nothing alike =>
        simp only [ok_bind, if_neg some_text, Bool.false_eq_true, if_false, next]
        have later := apart_pastBlank apart.2.2.2
        have shorter : (pastBlank rest).length ≤ rest.length := rest.length_dropWhile_le ListedLine.isBlank
        rw [List.length_cons] at room
        rw [ih (pastBlank rest) _ later (by omega) alike, nextEntry_pastBlank system desktop stat starts]
      | fault fault => rfl

theorem nextLine_shorter {text : Bytes} (some_text : text ≠ []) : (nextLine text).length < text.length := by
  have shorter := (text.dropWhile isLineByte).length_dropWhile_le isAsciiSpace
  have line := text.length_dropWhile_le isLineByte
  cases text with
  | nil => exact absurd rfl some_text
  | cons c s =>
    rw [nextLine]
    cases inside : isLineByte c with
    | true =>
      have behind := s.length_dropWhile_le isLineByte
      rw [List.dropWhile_cons_of_pos inside] at shorter ⊢
      rw [List.length_cons]
      omega
    | false =>
      have space : isAsciiSpace c = true := by
        rw [isLineByte, Bool.and_eq_false_iff, decide_eq_false_iff_not, decide_eq_false_iff_not, not_not, not_not] at inside
        rcases inside with rfl | rfl <;> rfl
      have behind := s.length_dropWhile_le isAsciiSpace
      rw [List.dropWhile_cons_of_neg (by simp [inside]), List.dropWhile_cons_of_pos space, List.length_cons]
      omega

/-- Each round of the loop goes on by a character at least. -/
theorem readRounds_ends (serverType : Bytes) : ∀ (n : Nat) (text : Bytes) (info : FileInfo), text.length < n →
    readRounds system desktop stat serverType n text info ≠ .ok .running := by
  intro n
  induction n with
  | zero => exact fun text info impossible => absurd impossible (Nat.not_lt_zero _)
  | succ n ih =>
    intro text info room
    rw [readRounds]
    cases lsToFileInfo system desktop stat serverType text info with
    | error fault => simp
    | ok parsed =>
      rw [ok_bind]
      dsimp only
      by_cases ended : text = []
      · simp [ended, pure, Except.pure]
      · have shorter := nextLine_shorter ended
        rw [if_neg ended]
        split
        · simp [pure, Except.pure]
        · exact ih _ _ (by omega)

theorem nextEntry_rest {found : FileInfo × List ListedLine} :
    ∀ {lines : List ListedLine}, nextEntry system desktop stat serverType info lines = .ok (some found) →
      ∃ n, found.2 = lines.drop (n + 1)
  | [], impossible => by cases impossible
  | line :: rest, same => by
    rw [nextEntry] at same
    cases parsed : lsToFileInfo system desktop stat serverType line.text info with
    | error fault =>
      rw [parsed] at same
      cases same
    | ok pair =>
      simp only [parsed, ok_bind] at same
      split at same
      · cases same
        exact ⟨0, rfl⟩
      · have ⟨n, later⟩ := nextEntry_rest same
        exact ⟨n + 1, later⟩

/-- Successive calls for lines that do not run into each other tell of the entry of each of them, and then
of the end. No call goes on for ever, whatever the text. -/
theorem listing_read_by_lines (serverType : Bytes) (lines : List ListedLine) (infos : List FileInfo) :
    (Apart serverType lines → readDirectory system desktop stat serverType (listing lines) infos =
      entriesAlone system desktop stat serverType lines infos) ∧
    ∀ text info, doReadDirectory system desktop stat serverType text info ≠ .ok .running := by
  constructor
  · induction infos generalizing lines with
    | nil =>
      intro _
      rw [readDirectory, entriesAlone]
    | cons info infos ih =>
      intro apart
      have alike : Leaves serverType info info := ⟨rfl, fun _ => rfl⟩
      have reading : doReadDirectory system desktop stat serverType (listing lines) info =
          (nextEntry system desktop stat serverType info lines).map readingOf := by
        cases lines with
        | nil => rfl
        | cons line rest =>
          rw [doReadDirectory, if_neg (listing_ne_nil line rest)]
          exact readRounds_eq system desktop stat _ _ info apart (Nat.lt_succ_of_le (length_le_listing _)) alike
      rw [readDirectory, entriesAlone, reading]
      cases same : nextEntry system desktop stat serverType info lines with
      | error fault => rfl
      | ok found =>
        cases found with
        | none =>
          have later := ih [] trivial
          rw [listing_nil] at later
          simp only [Except.map, ok_bind, readingOf, Reading.answer, answerOf, later]
        | some found =>
          have ⟨n, behind⟩ := nextEntry_rest system desktop stat same
          have starts : ∀ l ∈ found.2, Starts serverType l := by
            cases lines with
            | nil => cases same
            | cons line rest =>
              intro l member
              rw [behind, List.drop_succ_cons] at member
              exact Apart.starts apart.2.2.1 apart.2.2.2 l (List.mem_of_mem_drop member)
          have later := ih (pastBlank found.2) (apart_pastBlank (behind ▸ apart.drop (n + 1)))
          rw [entriesAlone_pastBlank system desktop stat starts] at later
          simp only [Except.map, ok_bind, readingOf, Reading.answer, answerOf, later]
  · intro text info
    rw [doReadDirectory]
    split
    · exact fun impossible => by cases impossible
    · exact readRounds_ends system desktop stat serverType _ text info (Nat.lt_succ_self _)

def twoFiles : List ListedLine :=
  [⟨ascii "-rw-r--r-- 1 a b 5 Jan 1 10:00 x", true⟩, ⟨ascii "-rw-r--r-- 1 a b 5 Jan 1 10:00 y", false⟩]

theorem listing_read_by_lines_sample :
    readDirectory default default default [] (listing twoFiles) [newInfo, newInfo, newInfo] =
      entriesAlone default default default [] twoFiles [newInfo, newInfo, newInfo] := by
  refine (listing_read_by_lines default default default [] twoFiles [newInfo, newInfo, newInfo]).1
    ⟨by decide, fun _ => ?_, fun next second => .inr ⟨'-'.toUInt8, ?_, by decide⟩, by decide,
      fun impossible => absurd rfl impossible, fun next impossible => absurd impossible (by simp), trivial⟩
  · rw [LineApart, if_neg (by decide)]
    refine fun _ => ⟨headerKept_of_open (by decide) _, fun mode carbon found => ?_⟩
    have header : permissions (ascii "-rw-r--r-- 1 a b 5 Jan 1 10:00 x") = some (0o100644, ascii " 1 a b 5 Jan 1 10:00 x") := by
      decide
    have columns : lineColumns (ascii " 1 a b 5 Jan 1 10:00 x") = [⟨1, ascii "1"⟩, ⟨3, ascii "a"⟩, ⟨5, ascii "b"⟩, ⟨7, ascii "5"⟩,
        ⟨9, ascii "Jan"⟩, ⟨13, ascii "1"⟩, ⟨15, ascii "10:00"⟩, ⟨21, ascii "x"⟩] := by decide
    cases header.symm.trans found
    rw [columns]
    intro _
    rw [FieldsFit, if_neg (by decide)]
    dsimp only
    rw [if_pos (by decide)]
    intro _
    rw [DateFits, if_pos (by decide), MonthFits, if_neg (by decide), DayFits]
    intro _
    rw [ClockFits]
    intro _
    rw [if_pos (by decide), SecondFits, if_neg (by decide), NamesKept, if_neg (by decide)]
    exact fun several => absurd several (by decide)
  · cases second
    decide

def twoLinks : List ListedLine :=
  [⟨ascii "lrwxrwxrwx 1 a b 5 Jan 1 10:00 n", true⟩, ⟨ascii "lrwxrwxrwx 1 a b 5 Jan 1 10:00 m -> t", true⟩]

/-- A link that is listed without its target, in front of one that is listed with it. -/
theorem link_without_target_reads_on :
    readDirectory default default default [] (listing twoLinks) [newInfo] ≠
      entriesAlone default default default [] twoLinks [newInfo] := by
  decide

end Entries

end GnomeVfs.Ftp
