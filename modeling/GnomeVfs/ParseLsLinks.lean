import GnomeVfs.ParseLsNames

/- The name and the target in the line of a symbolic link, which are told apart by a column of their own
as long as there is room for it. -/
namespace GnomeVfs.ParseLs

/-- The words between the blanks. -/
def words (s : Bytes) : List Bytes := (s.splitOn 32).filter (· ≠ [])

theorem words_append (s t : Bytes) : words (s ++ 32 :: t) = words s ++ words t := by
  rw [words, List.splitOn_append_cons_self, List.filter_append]
  rfl

theorem words_whole {s : Bytes} (some_word : s ≠ []) (no_blank : 32 ∉ s) : words s = [s] := by
  rw [words, List.splitOn_eq_singleton no_blank]
  simp [some_word]

theorem words_blanks {s : Bytes} (blanks : ∀ c ∈ s, c = 32) (t : Bytes) : words (s ++ t) = words t := by
  induction s with
  | nil => rfl
  | cons c rest ih =>
    rw [blanks c List.mem_cons_self, List.cons_append, ← List.nil_append (32 :: (rest ++ t)), words_append,
      ih fun d member => blanks d (List.mem_cons_of_mem _ member)]
    rfl

theorem blank_of_separator {c : UInt8} (separates : isSeparator c = true) (inside : isLineByte c = true) : c = 32 := by
  rw [isLineByte, Bool.and_eq_true, decide_eq_true_eq, decide_eq_true_eq] at inside
  simpa [isSeparator, inside.1, inside.2] using separates

theorem words_field (word : Bytes) (some_word : word ≠ []) (whole : ∀ c ∈ word, isSeparator c = false) {rest : Bytes}
    (begins : Begins rest) (clean : ∀ c ∈ rest, isLineByte c = true) : words (word ++ rest) = word :: words rest := by
  have no_blank : 32 ∉ word := fun member => absurd (whole 32 member) (by decide)
  cases rest with
  | nil =>
    rw [List.append_nil, words_whole some_word no_blank]
    rfl
  | cons c rest =>
    rw [blank_of_separator (begins c rfl) (clean c List.mem_cons_self), words_append, words_whole some_word no_blank,
      ← List.nil_append (32 :: rest), words_append]
    rfl

/-- A text that begins with a separator is made of its words and what separates them. -/
theorem exists_fields (s : Bytes) (begins : Begins s) (clean : ∀ c ∈ s, isLineByte c = true) :
    ∃ (fields : List Field) (trail : Bytes), s = fields.flatMap Field.text ++ trail ∧
      (∀ c ∈ trail, isSeparator c = true) ∧ fields.map Field.word = words s := by
  have split := List.takeWhile_append_dropWhile (p := isSeparator) (l := s)
  have separates : ∀ c ∈ s.takeWhile isSeparator, isSeparator c = true := fun c member => List.mem_takeWhile_imp member
  have blanks : ∀ c ∈ s.takeWhile isSeparator, c = 32 := fun c member =>
    blank_of_separator (separates c member) (clean c (split ▸ List.mem_append_left _ member))
  cases begun : s.dropWhile isSeparator with
  | nil =>
    rw [begun, List.append_nil] at split
    refine ⟨[], s, rfl, fun c member => separates c (split.symm ▸ member), ?_⟩
    have none_left := words_blanks blanks []
    rw [List.append_nil, split] at none_left
    exact none_left.symm
  | cons c rest =>
    have stop := List.head?_dropWhile_not isSeparator s
    rw [begun] at stop
    have starts : isSeparator c = false := by simpa using stop
    have some_word : firstWord (c :: rest) ≠ [] := by simp [firstWord, starts]
    have whole : ∀ d ∈ firstWord (c :: rest), isSeparator d = false := fun d member => by
      simpa using List.mem_takeWhile_imp member
    have some_gap : s.takeWhile isSeparator ≠ [] := by
      intro none_there
      rw [none_there, List.nil_append, begun] at split
      exact absurd (begins c (by rw [← split]; rfl)) (by simp [starts])
    have parts := firstWord_append (c :: rest)
    have shorter : (afterWord (c :: rest)).length < s.length := by
      have := congrArg List.length split
      have := congrArg List.length parts
      have := List.length_pos_iff.mpr some_gap
      rw [begun, List.length_append] at *
      omega
    have behind_clean : ∀ d ∈ afterWord (c :: rest), isLineByte d = true := fun d member => by
      refine clean d ?_
      rw [← split, begun, ← parts]
      exact List.mem_append_right _ (List.mem_append_right _ member)
    have together : s.takeWhile isSeparator ++ (firstWord (c :: rest) ++ afterWord (c :: rest)) = s := by
      rw [parts, ← begun, split]
    obtain ⟨fields, trail, same, trails, spelled⟩ := exists_fields _ (begins_afterWord (c :: rest)) behind_clean
    refine ⟨⟨s.takeWhile isSeparator, firstWord (c :: rest), ⟨some_gap, separates⟩, some_word, whole⟩ :: fields, trail,
      ?_, trails, ?_⟩
    · rw [List.flatMap_cons, Field.text, List.append_assoc, ← same, List.append_assoc]
      exact together.symm
    · rw [List.map_cons, spelled, ← words_field _ some_word whole (begins_afterWord _) behind_clean, ← words_blanks blanks]
      exact congrArg words together
termination_by s.length

theorem splitFrom_crowded (fields : List Field) {rest : Bytes} (begins : Begins rest) (left start : Nat)
    (crowded : left < fields.length) :
    ∃ at_last, ∃ field ∈ fields, ∃ more, Begins more ∧ (rest ≠ [] → more ≠ []) ∧
      splitFrom (left + 1) start (fields.flatMap Field.text ++ rest) =
        columnsOf start (fields.take left) ++ [⟨at_last, field.word ++ more⟩] := by
  induction fields generalizing left start with
  | nil => cases crowded
  | cons field fields ih =>
    rw [List.flatMap_cons, List.append_assoc, splitFrom_field field (begins_fields fields begins)]
    cases left with
    | zero =>
      refine ⟨_, field, List.mem_cons_self, fields.flatMap Field.text ++ rest, begins_fields fields begins, ?_, rfl⟩
      intro some_rest empty
      exact some_rest (List.append_eq_nil_iff.mp empty).2
    | succ left =>
      obtain ⟨at_last, last, member, more, begun, some_more, split⟩ :=
        ih left (start + field.text.length) (by simpa using crowded)
      refine ⟨at_last, last, List.mem_cons_of_mem _ member, more, begun, some_more, ?_⟩
      rw [split, if_neg (Nat.succ_ne_zero left)]
      rfl

theorem not_arrow (field : Field) {more : Bytes} (begins : Begins more) (some_more : more ≠ []) :
    field.word ++ more ≠ ascii "->" := by
  intro same
  obtain ⟨some_word, whole⟩ := field.whole
  cases more with
  | nil => exact some_more rfl
  | cons c more =>
    have inside : c ∈ ascii "->" := same ▸ List.mem_append_right _ List.mem_cons_self
    have clean : ∀ c ∈ ascii "->", isSeparator c = false := by decide
    exact absurd (clean c inside) (by simp [begins c rfl])

theorem splitFrom_above (left start : Nat) (s : Bytes) : ∀ c ∈ splitFrom left start s, start ≤ c.start := by
  induction left generalizing start s with
  | zero =>
    intro c member
    exact absurd member List.not_mem_nil
  | succ left ih =>
    intro c member
    rw [splitFrom] at member
    split at member
    · exact absurd member List.not_mem_nil
    · rcases List.mem_cons.mp member with rfl | later
      · exact Nat.le_add_right ..
      · have := ih _ _ c later
        omega

section Links

variable {carbon : Bytes} {columns more others : List Column} {idx : Nat} {first : Column}

theorem takeNames_arrow (within : Within carbon columns) {s : Stat} (link : isLink s.mode = true)
    (here : columns.drop idx = first :: more) {i : Nat} (found : more.findIdx? isArrow = some i) {middle next : Column}
    (split : more.drop i = middle :: next :: others) :
    takeNames carbon columns idx s =
      .ok ⟨s, (carbon.drop first.start).take (middle.start - first.start - 1),
        some ((carbon.drop next.start).takeWhile isLineByte)⟩ := by
  have there : columns.drop (i + (idx + 1)) = middle :: next :: others := by
    rw [Nat.add_comm, ← List.drop_drop, (drop_cons here).2, split]
  have behind := (drop_cons there).2
  have looked : mayLink columns idx s = true := by rw [mayLink, link, Bool.true_or]
  rw [takeNames, looked, if_pos rfl, findArrow_eq here, found, Option.map_some]
  simp only [column_of_drop here, column_of_drop there, column_of_drop behind, readString_within within here,
    readString_within within behind, ok_bind]
  rfl

theorem takeNames_no_arrow (within : Within carbon columns) (s : Stat) (here : columns.drop idx = first :: more)
    (absent : more.findIdx? isArrow = none) :
    takeNames carbon columns idx s = .ok ⟨s, (carbon.drop first.start).takeWhile isLineByte, none⟩ := by
  rw [takeNames, findArrow_eq here, absent, Option.map_none, ite_self]
  simp only [column_of_drop here, readString_within within here, ok_bind]
  rfl

/-- What stands in the line of a link behind the date. -/
def linkTail (name target : Bytes) : Bytes := name ++ (ascii " ->" ++ 32 :: target)

variable (line : Line) (nlink : Nat) (stamp : Stamp)

theorem columns_drop (tail : Bytes) :
    (line.columns nlink stamp tail).drop 7 = splitFrom 23 (line.width nlink stamp) (32 :: tail) := by
  have length : (columnsOf 0 (line.fields nlink stamp)).length = 7 := columnsOf_length 0 _
  rw [Line.columns, ← length, List.drop_left]

theorem begins_blank (rest : Bytes) : Begins (32 :: rest) := by
  rintro c ⟨rfl⟩
  rfl

def arrowField (trail : Bytes) (separates : ∀ c ∈ trail, isSeparator c = true) : Field where
  gap := trail ++ [32]
  word := ascii "->"
  apart := by
    refine ⟨by simp, fun c member => ?_⟩
    rcases List.mem_append.mp member with inside | inside
    · exact separates c inside
    · rw [List.mem_singleton.mp inside]
      rfl
  whole := by decide

/-- The columns of a name, of the arrow and of the target. -/
theorem linkTail_fields (name : ListedName) (target : Bytes) (some_name : name.val ≠ []) :
    ∃ (first : Field) (fields : List Field) (arrow : Field), arrow.word = ascii "->" ∧
      32 :: linkTail name target = (first :: fields ++ [arrow]).flatMap Field.text ++ 32 :: target ∧
      ((first :: fields).flatMap Field.text).length + arrow.gap.length = name.val.length + 2 ∧
      (first :: fields).map Field.word = words name := by
  have clean : ∀ c ∈ 32 :: name.val, isLineByte c = true := by
    intro c member
    rcases List.mem_cons.mp member with rfl | inside
    · rfl
    · exact name.property.1 c inside
  obtain ⟨fields, trail, same, trails, spelled⟩ := exists_fields (32 :: name) (begins_blank name) clean
  have length := congrArg List.length same
  rw [List.length_append, List.length_cons] at length
  cases fields with
  | nil =>
    cases split : name.val with
    | nil => exact absurd split some_name
    | cons c rest =>
      have whole := name.front c (by rw [split]; rfl)
      have separates := trails c (by
        rw [List.flatMap_nil, List.nil_append] at same
        rw [← same, split]
        exact List.mem_cons_of_mem _ List.mem_cons_self)
      rw [whole] at separates
      cases separates
  | cons first fields =>
    refine ⟨first, fields, arrowField trail trails, rfl, ?_, ?_, ?_⟩
    · rw [linkTail, ← List.cons_append, same, List.flatMap_append]
      simp [arrowField, Field.text, ascii]
      rfl
    · rw [arrowField, List.length_append, List.length_singleton]
      omega
    · rw [spelled, ← List.nil_append (32 :: name.val), words_append]
      rfl

theorem drop_linkTail (name target : Bytes) (n : Nat) :
    (line.behind nlink stamp (linkTail name target)).drop (line.width nlink stamp + 1 + n) = (linkTail name target).drop n := by
  rw [← List.drop_drop, drop_name]

theorem findIdx_arrow {front : List Column} (others : ∀ c ∈ front, isArrow c = false) (middle : Column)
    (arrow : isArrow middle = true) (behind : List Column) : (front ++ middle :: behind).findIdx? isArrow = some front.length := by
  have absent : front.findIdx? isArrow = none := List.findIdx?_eq_none_iff.mpr others
  rw [List.findIdx?_append, absent, List.findIdx?_cons, arrow]
  simp

theorem columnsOf_not_arrow {fields : List Field} (others : ascii "->" ∉ fields.map Field.word) (start : Nat) :
    ∀ c ∈ columnsOf start fields, isArrow c = false := by
  induction fields generalizing start with
  | nil => exact fun c member => absurd member List.not_mem_nil
  | cons field fields ih =>
    rw [List.map_cons, List.mem_cons, not_or] at others
    intro c member
    rcases List.mem_cons.mp member with rfl | later
    · exact decide_eq_false (Ne.symm others.1)
    · exact ih others.2 _ c later

theorem splitFrom_blank {tail : Bytes} (front : ∀ c, tail.head? = some c → isSeparator c = false) (left start : Nat) :
    ∃ text others, splitFrom (left + 1) start (32 :: tail) = ⟨start + 1, text⟩ :: others := by
  rw [splitFrom, if_neg (List.cons_ne_nil _ _)]
  dsimp only
  rw [dropWhile_tail front, List.length_cons, Nat.add_sub_cancel_left]
  exact ⟨_, _, rfl⟩

theorem linkTail_front (name : ListedName) (target : Bytes) (some_name : name.val ≠ []) :
    ∀ c, (linkTail name target).head? = some c → isSeparator c = false := by
  intro c front
  rw [linkTail, List.head?_append_of_ne_nil _ some_name] at front
  exact name.front c front

/-- With few words in its name, a link is split at the arrow. -/
theorem takeNames_split (name target : ListedName) (some_name : name.val ≠ []) (no_arrow : ascii "->" ∉ words name)
    (few : (words name).length ≤ 21) {s : Stat} (link : isLink s.mode = true) :
    takeNames (line.behind nlink stamp (linkTail name target)) (line.columns nlink stamp (linkTail name target)) 7 s =
      .ok ⟨s, name, some target⟩ := by
  obtain ⟨first, fields, arrow, dash, same, length, spelled⟩ := linkTail_fields name target some_name
  have within := line_within line nlink stamp (linkTail name target)
  have count := congrArg List.length spelled
  rw [List.length_map, List.length_cons] at count
  have split := splitFrom_fields (first :: fields ++ [arrow]) (begins_blank target) 23 (line.width nlink stamp)
    (by rw [List.length_append, List.length_cons, List.length_singleton]; omega)
  obtain ⟨left, room⟩ : ∃ left, 23 - (first :: fields ++ [arrow]).length = left + 1 := by
    rw [List.length_append, List.length_cons, List.length_singleton]
    exact ⟨21 - (words name).length, by omega⟩
  obtain ⟨text, others, behind⟩ := splitFrom_blank target.front left
    (line.width nlink stamp + ((first :: fields ++ [arrow]).flatMap Field.text).length)
  rw [← same, ← columns_drop, room, behind, columnsOf_append, columnsOf, List.cons_append, List.cons_append,
    List.append_assoc, List.flatMap_append, List.length_append] at split
  have begun : first.gap.length = 1 := by
    have names := name_columns line nlink stamp (linkTail_front name target some_name)
    rw [split] at names
    have start := congrArg Column.start (List.cons.inj names).1
    simpa using start
  have place : ((first :: fields).flatMap Field.text).length + arrow.gap.length = name.val.length + 2 := length
  have whole : (([arrow] : List Field).flatMap Field.text).length = arrow.gap.length + 2 := by
    simp [Field.text, dash, ascii]
  have no_first : ascii "->" ∉ fields.map Field.word := fun member =>
    no_arrow (spelled ▸ List.mem_cons_of_mem _ member)
  have found := findIdx_arrow (columnsOf_not_arrow no_first (line.width nlink stamp + first.text.length))
    ⟨line.width nlink stamp + ((first :: fields).flatMap Field.text).length + arrow.gap.length, arrow.word⟩ (decide_eq_true dash)
    (⟨line.width nlink stamp + (((first :: fields).flatMap Field.text).length + (([arrow] : List Field).flatMap Field.text).length) + 1,
      text⟩ :: others)
  rw [takeNames_arrow within link split found (List.drop_left ..)]
  have taken : line.width nlink stamp + ((first :: fields).flatMap Field.text).length + arrow.gap.length -
      (line.width nlink stamp + 1) - 1 = name.val.length := by omega
  have target_start : line.width nlink stamp +
      (((first :: fields).flatMap Field.text).length + (arrow.gap.length + 2)) + 1 =
        line.width nlink stamp + 1 + (name.val.length + 4) := by omega
  dsimp only
  rw [begun, whole, taken, target_start, drop_linkTail, drop_name, linkTail, List.take_left, ← List.drop_drop, List.drop_left]
  change Except.ok (Entry.mk s name.val (some (target.val.takeWhile isLineByte))) = _
  rw [takeWhile_lineByte target.property.1]

/-- With more words there is no column left for the arrow. -/
theorem takeNames_crowded (name target : ListedName) (some_name : name.val ≠ []) (no_arrow : ascii "->" ∉ words name)
    (many : 21 < (words name).length) (s : Stat) :
    ∃ found, takeNames (line.behind nlink stamp (linkTail name target)) (line.columns nlink stamp (linkTail name target)) 7 s =
      .ok ⟨s, found, none⟩ := by
  obtain ⟨first, fields, arrow, dash, same, _, spelled⟩ := linkTail_fields name target some_name
  have count := congrArg List.length spelled
  rw [List.length_map, List.length_cons] at count
  obtain ⟨at_last, last, _, more, begins, some_more, split⟩ :=
    splitFrom_crowded (first :: fields ++ [arrow]) (begins_blank target) 22 (line.width nlink stamp)
      (by rw [List.length_append, List.length_cons, List.length_singleton]; omega)
  rw [← same, ← columns_drop, List.cons_append, List.take_succ_cons, columnsOf, List.cons_append] at split
  refine ⟨_, takeNames_no_arrow (line_within line nlink stamp _) s split (List.findIdx?_eq_none_iff.mpr fun c member => ?_)⟩
  rcases List.mem_append.mp member with early | late
  · refine columnsOf_not_arrow (fun inside => no_arrow ?_) _ c early
    rw [List.take_append_of_le_length (by omega)] at inside
    obtain ⟨field, taken, dash⟩ := List.mem_map.mp inside
    rw [← spelled, List.map_cons, ← dash]
    exact List.mem_cons_of_mem _ (List.mem_map_of_mem (List.mem_of_mem_take taken))
  · rw [List.mem_singleton.mp late]
    exact decide_eq_false (not_arrow last begins (some_more (List.cons_ne_nil _ _)))

theorem nameless_columns (target : Bytes) :
    (line.columns nlink stamp (linkTail [] target)).drop 7 =
      ⟨line.width nlink stamp + 2, ascii "->"⟩ :: splitFrom 22 (line.width nlink stamp + 4) (32 :: target) := by
  rw [columns_drop]
  exact splitFrom_field (arrowField [32] (by decide)) (begins_blank target) 22 (line.width nlink stamp)

/-- An arrow that stands where the name begins is not the one that is found. -/
theorem takeNames_nameless (target : Bytes) {s : Stat} (link : isLink s.mode = true) {entry : Entry} {text : Bytes}
    (taken : takeNames (line.behind nlink stamp (linkTail [] target)) (line.columns nlink stamp (linkTail [] target)) 7 s =
      .ok entry) (linked : entry.linkname = some text) : entry.filename ≠ [] := by
  have within := line_within line nlink stamp (linkTail [] target)
  have names := nameless_columns line nlink stamp target
  have inside : InRange (takeNames (line.behind nlink stamp (linkTail [] target))
      (line.columns nlink stamp (linkTail [] target)) 7 s) := by
    rw [taken]
    exact inRange_ok entry
  have fits := (takeNames_inRange within s).mp inside
  rw [names, NamesFit, link, Bool.true_or] at fits
  cases found : (splitFrom 22 (line.width nlink stamp + 4) (32 :: target)).findIdx? isArrow with
  | none =>
    rw [takeNames_no_arrow within s names found] at taken
    cases taken
    cases linked
  | some i =>
    have next := fits rfl i found
    have split := List.drop_eq_getElem_cons (Nat.lt_of_succ_lt next)
    rw [List.drop_eq_getElem_cons next] at split
    have above := splitFrom_above 22 (line.width nlink stamp + 4) (32 :: target) _
      (List.getElem_mem (Nat.lt_of_succ_lt next))
    rw [takeNames_arrow within link names found split] at taken
    cases taken
    have dash : (line.behind nlink stamp (linkTail [] target)).drop (line.width nlink stamp + 2) = 45 :: 62 :: 32 :: target :=
      drop_linkTail line nlink stamp [] target 1
    have some_left : ∀ n, line.width nlink stamp + 4 ≤ n →
        (45 :: 62 :: 32 :: target).take (n - (line.width nlink stamp + 2) - 1) ≠ [] := by
      intro n far
      obtain ⟨k, rest⟩ : ∃ k, n - (line.width nlink stamp + 2) - 1 = k + 1 :=
        ⟨n - (line.width nlink stamp + 4), by omega⟩
      rw [rest, List.take_succ_cons]
      exact List.cons_ne_nil _ _
    dsimp only
    rw [dash]
    exact some_left _ above

variable (system : System)

/-- The line of a link is split into its name and its target if and only if the name has a word, and no
more of them than there is room for in front of the arrow. -/
theorem link_line_split (nlink : Fin (2 ^ 31)) (hour minute : Digits 2) (name target : ListedName)
    (no_arrow : ascii "->" ∉ words name) (s : Stat) :
    ReadAs line .link name (some target.val)
        (gnomeVfsParseLsLga system (line.text .link nlink (.clock hour minute) (linkTail name target)) s) ↔
      name.val ≠ [] ∧ (words name).length ≤ 21 := by
  rw [parse_text]
  obtain ⟨tim, filled, holds, parsed⟩ := parseColumns_line line system (.clock hour minute) (linkTail name target) nlink.isLt .link
    (s := { s with mode := Kind.link.bits ||| line.mode }) rfl
  have link : ∀ time, isLink (filled time).mode = true := by
    intro time
    rw [(holds time).1]
    exact isLink_iff .link line.mode.isLt
  rw [parsed]
  by_cases some_name : name.val = []
  · refine iff_of_false ?_ fun both => both.1 some_name
    rw [some_name]
    obtain ⟨tim', found⟩ := parseClock_clock line nlink hour minute tim (nameless_columns line nlink _ target) rfl
    rw [found, ok_bind]
    rintro ⟨entry, taken, filename, linkname, -⟩
    exact takeNames_nameless line nlink _ target (link _) taken linkname filename
  · have front := linkTail_front name target some_name
    obtain ⟨tim', found⟩ := parseClock_clock line nlink hour minute tim (name_columns line nlink _ front) (not_isGap front)
    rw [found, ok_bind]
    by_cases few : (words name).length ≤ 21
    · rw [takeNames_split line nlink _ name target some_name no_arrow few (link _)]
      exact iff_of_true ⟨_, rfl, rfl, rfl, (holds _).2.2, (holds _).1⟩ ⟨some_name, few⟩
    · obtain ⟨text, taken⟩ := takeNames_crowded line nlink (.clock hour minute) name target some_name no_arrow
        (Nat.lt_of_not_le few) (filled (max 0 (system.mktime (guessYear system.localtime.mon ⟨7, tim', false⟩))))
      rw [taken]
      refine iff_of_false ?_ fun both => few both.2
      rintro ⟨entry, ⟨rfl⟩, -, linkname, -⟩
      cases linkname

theorem link_line_split_sample :
    ReadAs sampleLine .link (ascii "a b") (some (ascii "c"))
        (gnomeVfsParseLsLga default
          (sampleLine.text .link 1 (.clock ⟨ascii "10", by decide⟩ ⟨ascii "00", by decide⟩) (linkTail (ascii "a b") (ascii "c")))
          default) ↔
      ascii "a b" ≠ [] ∧ (words (ascii "a b")).length ≤ 21 :=
  link_line_split sampleLine default 1 ⟨ascii "10", by decide⟩ ⟨ascii "00", by decide⟩ ⟨ascii "a b", by decide⟩
    ⟨ascii "c", by decide⟩ (by decide) default

/-- A name of 22 words. -/
theorem long_link_name_not_split :
    (gnomeVfsParseLsLga default (sampleLine.text .link 1 (.clock ⟨ascii "10", by decide⟩ ⟨ascii "00", by decide⟩)
        (linkTail (ascii "a b c d e f g h i j k l m n o p q r s t u v") (ascii "x"))) default).map
      (fun entry => (entry.filename, entry.linkname)) =
    .ok (ascii "a b c d e f g h i j k l m n o p q r s t u v -> x", none) := by
  decide

end Links

end GnomeVfs.ParseLs
