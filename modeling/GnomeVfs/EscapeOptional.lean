import GnomeVfs.EscapeCount

/- `gnome_vfs_remove_optional_escapes` with the table it reads and the length it keeps. -/
namespace GnomeVfs

variable {beyond : UInt8 → CharacterKind}

/-- A byte that may stand in a URI as it is. The others end the scan. -/
def isUriCharacter (c : UInt8) : Bool :=
  c != chrPercent && c < 128 && uriCharacterKindTable.getD c.toNat .control ∉ [.delimiters, .unwise, .control]

/-- What the scan passes: bytes that may stand as they are, and escapes. -/
inductive Scanned : Bytes → Prop where
  | nil : Scanned []
  | byte {c : UInt8} {front : Bytes} : isUriCharacter c = true → Scanned front → Scanned (c :: front)
  | escape {first second d : UInt8} {front : Bytes} : unescapeCharacter first second = some d → Scanned front →
      Scanned (chrPercent :: first :: second :: front)

/-- `gnome_vfs_remove_optional_escapes` with the indices at which it reads `uri_character_kind`, for a text whose
length is an `int`. -/
def removeOptionalEscapesReads (beyond : UInt8 → CharacterKind) : Bytes → (Bytes × VfsResult) × List UInt8
  | [] => (([], .ok), [])
  | c :: rest =>
    if c = chrPercent then
      match rest with
      | first :: second :: tail =>
        match unescapeCharacter first second with
        | some d =>
          let next := removeOptionalEscapesReads beyond tail
          if uriCharacterKind beyond d = .unreserved then ((d :: next.1.1, next.1.2), d :: next.2)
          else ((c :: first :: second :: next.1.1, next.1.2), d :: next.2)
        | none => ((c :: rest, .invalidUri), [])
      | _ => ((c :: rest, .invalidUri), [])
    else if 127 < c then ((c :: rest, .invalidUri), [])
    else if uriCharacterKind beyond c = .delimiters ∨ uriCharacterKind beyond c = .unwise ∨
        uriCharacterKind beyond c = .control then
      ((c :: rest, .invalidUri), [c])
    else
      let next := removeOptionalEscapesReads beyond rest
      ((c :: next.1.1, next.1.2), c :: next.2)

theorem removeOptionalEscapesReads_fst (beyond : UInt8 → CharacterKind) (s : Bytes) :
    (removeOptionalEscapesReads beyond s).1 = removeOptionalEscapes beyond s := by
  fun_induction removeOptionalEscapesReads beyond s with
  | case1 => rfl
  | case2 first second tail d decoded next removed ih =>
    rw [removeOptionalEscapes, if_pos rfl, decoded]
    dsimp only
    rw [if_pos removed, ← ih]
  | case3 first second tail d decoded next kept ih =>
    rw [removeOptionalEscapes, if_pos rfl, decoded]
    dsimp only
    rw [if_neg kept, ← ih]
  | case4 first second tail invalid =>
    rw [removeOptionalEscapes, if_pos rfl, invalid]
  | case5 rest short =>
    cases rest with
    | nil => rfl
    | cons first rest =>
      cases rest with
      | nil => rfl
      | cons second tail => exact absurd rfl (short first second tail)
  | case6 c rest plain high =>
    rw [removeOptionalEscapes.eq_def]
    dsimp only
    rw [if_neg plain, if_pos (Or.inl high)]
  | case7 c rest plain low illegal =>
    rw [removeOptionalEscapes.eq_def]
    dsimp only
    rw [if_neg plain, if_pos (Or.inr illegal)]
  | case8 c rest plain low legal next ih =>
    rw [removeOptionalEscapes.eq_def]
    dsimp only
    rw [if_neg plain, if_neg, ← ih]
    rintro (high | illegal)
    · exact low high
    · exact legal illegal

/-- No escape of a byte from 128 on stands where the scan comes. -/
def EscapesInRange (s : Bytes) : Prop :=
  ∀ front first second back d, s = front ++ chrPercent :: first :: second :: back → Scanned front →
    unescapeCharacter first second = some d → d < 128

variable {c : UInt8}

/-- The two ways in which the source tests for a byte of the table. -/
theorem lt_128_iff : c < 128 ↔ ¬ 127 < c := by
  rw [UInt8.lt_iff_toNat_lt, UInt8.lt_iff_toNat_lt]
  show c.toNat < 128 ↔ ¬ 127 < c.toNat
  omega

theorem isUriCharacter_of_high (high : 127 < c) : isUriCharacter c = false := by
  have outside : ¬ c < 128 := fun low => lt_128_iff.mp low high
  rw [isUriCharacter]
  simp [outside]

theorem isUriCharacter_iff (beyond : UInt8 → CharacterKind) (plain : c ≠ chrPercent) (low : ¬ 127 < c) :
    isUriCharacter c = true ↔ ¬ (uriCharacterKind beyond c = .delimiters ∨ uriCharacterKind beyond c = .unwise ∨
      uriCharacterKind beyond c = .control) := by
  have inside : c < 128 := lt_128_iff.mpr low
  rw [uriCharacterKind, if_pos inside, isUriCharacter]
  simp [plain, inside, not_or]

theorem escapesInRange_byte (legal : isUriCharacter c = true) (rest : Bytes) :
    EscapesInRange (c :: rest) ↔ EscapesInRange rest := by
  constructor
  · intro all front first second back d split scanned
    exact all (c :: front) first second back d (by rw [split]; rfl) (.byte legal scanned)
  · intro all front first second back d split scanned
    cases front with
    | nil =>
      have percent : c = chrPercent := (List.cons.inj split).1
      rw [percent] at legal
      cases legal
    | cons e front =>
      obtain ⟨same, split⟩ := List.cons.inj split
      cases scanned with
      | byte _ scanned => exact all front first second back d split scanned
      | escape => 
        rw [same] at legal
        cases legal

theorem escapesInRange_escape {first second d : UInt8} (decoded : unescapeCharacter first second = some d) (tail : Bytes) :
    EscapesInRange (chrPercent :: first :: second :: tail) ↔ d < 128 ∧ EscapesInRange tail := by
  constructor
  · intro all
    refine ⟨all [] first second tail d rfl .nil decoded, ?_⟩
    intro front a b back e split scanned
    exact all (chrPercent :: first :: second :: front) a b back e (by rw [split]; rfl) (.escape decoded scanned)
  · rintro ⟨low, all⟩ front a b back e split scanned other
    cases scanned with
    | nil =>
      obtain ⟨-, rest⟩ := List.cons.inj split
      obtain ⟨one, rest⟩ := List.cons.inj rest
      obtain ⟨two, -⟩ := List.cons.inj rest
      rw [← one, ← two, decoded] at other
      rw [← Option.some.inj other]
      exact low
    | byte legal _ =>
      have percent := (List.cons.inj split).1
      rw [← percent] at legal
      cases legal
    | escape _ scanned =>
      obtain ⟨-, rest⟩ := List.cons.inj split
      obtain ⟨-, rest⟩ := List.cons.inj rest
      obtain ⟨-, rest⟩ := List.cons.inj rest
      exact all _ a b back e rest scanned other

theorem escapesInRange_of_plain {s : Bytes} (plain : ∀ c ∈ s, isUriCharacter c = true) : EscapesInRange s := by
  induction s with
  | nil =>
    intro front first second back d split
    have := congrArg List.length split
    simp at this
  | cons c rest ih =>
    rw [escapesInRange_byte (plain c List.mem_cons_self)]
    exact ih fun d member => plain d (List.mem_cons_of_mem _ member)

/-- A text that the scan leaves at once has no escape where it comes. -/
theorem escapesInRange_of_stop {rest : Bytes} (illegal : isUriCharacter c = false)
    (none : ∀ first second tail, c :: rest = chrPercent :: first :: second :: tail → unescapeCharacter first second = none) :
    EscapesInRange (c :: rest) := by
  intro front first second back d split scanned decoded
  cases scanned with
  | nil =>
    rw [none first second back split] at decoded
    cases decoded
  | byte legal _ =>
    have same := (List.cons.inj split).1
    rw [← same, illegal] at legal
    cases legal
  | escape other _ =>
    rw [none _ _ _ split] at other
    cases other

/-- Every index is in the table exactly when no escape of a byte from 128 on stands where the scan comes. -/
theorem removeOptionalEscapes_in_range_iff (beyond : UInt8 → CharacterKind) (s : Bytes) :
    (∀ index ∈ (removeOptionalEscapesReads beyond s).2, index < 128) ↔ EscapesInRange s := by
  have not_percent : isUriCharacter chrPercent = false := by decide
  fun_induction removeOptionalEscapesReads beyond s with
  | case1 =>
    constructor
    · intro _ front first second back d split
      have := congrArg List.length split
      simp at this
    · intro _ index never
      cases never
  | case2 first second tail d decoded next removed ih =>
    rw [escapesInRange_escape decoded, ← show _ ↔ EscapesInRange tail from ih]
    exact List.forall_mem_cons
  | case3 first second tail d decoded next kept ih =>
    rw [escapesInRange_escape decoded, ← show _ ↔ EscapesInRange tail from ih]
    exact List.forall_mem_cons
  | case4 first second tail invalid =>
    refine ⟨fun _ => escapesInRange_of_stop not_percent ?_, fun _ index never => by cases never⟩
    intro a b back split
    cases split
    exact invalid
  | case5 rest short =>
    refine ⟨fun _ => escapesInRange_of_stop not_percent ?_, fun _ index never => by cases never⟩
    intro a b back split
    exact absurd (List.cons.inj split).2 (short a b back)
  | case6 c rest plain high =>
    refine ⟨fun _ => escapesInRange_of_stop ?_ ?_, fun _ index never => by cases never⟩
    · exact isUriCharacter_of_high high
    · intro a b back split
      exact absurd (List.cons.inj split).1 plain
  | case7 c rest plain low illegal =>
    constructor
    · intro _
      apply escapesInRange_of_stop
      · rw [← Bool.not_eq_true, isUriCharacter_iff beyond plain low]
        exact not_not_intro illegal
      · intro a b back split
        exact absurd (List.cons.inj split).1 plain
    · intro _ index only
      rw [List.mem_singleton.mp only]
      exact lt_128_iff.mpr low
  | case8 c rest plain low legal next ih =>
    rw [escapesInRange_byte ((isUriCharacter_iff beyond plain low).mpr legal), ← show _ ↔ EscapesInRange rest from ih]
    constructor
    · intro all index member
      exact all index (List.mem_cons_of_mem _ member)
    · intro all index member
      rcases List.mem_cons.mp member with rfl | later
      · exact lt_128_iff.mpr low
      · exact all index later

/-- An escape of a byte from 128 on. -/
theorem removeOptionalEscapes_out_of_range :
    (128 : UInt8) ∈ (removeOptionalEscapesReads (fun _ => .control) (ascii "file:///%80")).2 := by
  decide +kernel

/-- `gnome_vfs_remove_optional_escapes` from the scanner on, with its variable `length`; `none` where the
assertion fails, and where `memmove` does not move the rest of the string with its terminator. -/
def removeOptionalEscapesLoop (beyond : UInt8 → CharacterKind) : Int → Bytes → Option (Bytes × VfsResult)
  | _, [] => some ([], .ok)
  | length, c :: rest =>
    if c = chrPercent then
      match rest with
      | first :: second :: tail =>
        match unescapeCharacter first second with
        | some d =>
          let next := removeOptionalEscapesLoop beyond (gint (gint (length - 2) - 1)) tail
          if uriCharacterKind beyond d = .unreserved then
            if 3 ≤ length ∧ length - 2 = tail.length + 1 then next.map fun next => (d :: next.1, next.2)
            else none
          else next.map fun next => (c :: first :: second :: next.1, next.2)
        | none => some (c :: rest, .invalidUri)
      | _ => some (c :: rest, .invalidUri)
    else if 127 < c ∨ uriCharacterKind beyond c = .delimiters ∨
        uriCharacterKind beyond c = .unwise ∨ uriCharacterKind beyond c = .control then
      some (c :: rest, .invalidUri)
    else
      (removeOptionalEscapesLoop beyond (gint (length - 1)) rest).map fun next => (c :: next.1, next.2)

def removeOptionalEscapesChecked (beyond : UInt8 → CharacterKind) (s : Bytes) : Option (Bytes × VfsResult) :=
  removeOptionalEscapesLoop beyond (gint s.length) s

/-- An escape that is removed has less than 2^31 bytes from its `%` on. -/
def OptionalEscapesNear (beyond : UInt8 → CharacterKind) (s : Bytes) : Prop :=
  ∀ front first second back d, s = front ++ chrPercent :: first :: second :: back → Scanned front →
    unescapeCharacter first second = some d → uriCharacterKind beyond d = .unreserved → back.length + 3 < 2 ^ 31

theorem gint_sub (n m : Int) : gint (gint n - m) = gint (n - m) := Int.bmod_sub_bmod

variable {d : UInt8}

/-- What is removed is no `%` and no terminator. -/
theorem unreserved_plain (low : d < 128) (unreserved : uriCharacterKind beyond d = .unreserved) :
    d ≠ 0 ∧ isUriCharacter d = true := by
  rw [uriCharacterKind, if_pos low] at unreserved
  constructor
  · rintro rfl
    exact absurd unreserved (by decide)
  · have percent : d ≠ chrPercent := by
      rintro rfl
      exact absurd unreserved (by decide)
    rw [isUriCharacter, unreserved]
    simp [percent, low]

theorem removeOptionalEscapesLoop_byte (legal : isUriCharacter c = true) (length : Int) (rest : Bytes) :
    removeOptionalEscapesLoop beyond length (c :: rest) =
      (removeOptionalEscapesLoop beyond (gint (length - 1)) rest).map fun next => (c :: next.1, next.2) := by
  have plain : c ≠ chrPercent := by
    rintro rfl
    cases legal
  have low : ¬ 127 < c := by
    have inside : c < 128 := by
      rw [isUriCharacter] at legal
      simp only [Bool.and_eq_true, decide_eq_true_eq] at legal
      exact legal.1.2
    exact lt_128_iff.mp inside
  rw [removeOptionalEscapesLoop.eq_def]
  dsimp only
  rw [if_neg plain, if_neg]
  rintro (high | illegal)
  · exact low high
  · exact (isUriCharacter_iff beyond plain low).mp legal illegal

theorem removeOptionalEscapesLoop_escape {first second d : UInt8}
    (decoded : unescapeCharacter first second = some d) (kept : uriCharacterKind beyond d ≠ .unreserved)
    (length : Int) (tail : Bytes) :
    removeOptionalEscapesLoop beyond length (chrPercent :: first :: second :: tail) =
      (removeOptionalEscapesLoop beyond (gint (length - 3)) tail).map
        fun next => (chrPercent :: first :: second :: next.1, next.2) := by
  refine (if_pos rfl).trans ?_
  rw [decoded]
  dsimp only
  rw [if_neg kept, gint_sub, Int.sub_sub]
  rfl

/-- A text that has been through the scan is passed as it is, whatever the length. -/
theorem removeOptionalEscapesLoop_again (s : Bytes) (range : EscapesInRange s) : ∀ length : Int,
    removeOptionalEscapesLoop beyond length (removeOptionalEscapes beyond s).1 = some (removeOptionalEscapes beyond s) := by
  fun_induction removeOptionalEscapes beyond s with
  | case1 =>
    intro length
    rfl
  | case2 first second tail d decoded next removed ih =>
    intro length
    obtain ⟨low, range⟩ := (escapesInRange_escape decoded tail).mp range
    rw [removeOptionalEscapesLoop_byte (unreserved_plain low removed).2, ih range]
    rfl
  | case3 first second tail d decoded next kept ih =>
    intro length
    obtain ⟨-, range⟩ := (escapesInRange_escape decoded tail).mp range
    rw [removeOptionalEscapesLoop_escape decoded kept, ih range]
    rfl
  | case4 first second tail invalid =>
    intro length
    rw [removeOptionalEscapesLoop, if_pos rfl, invalid]
  | case5 rest short =>
    intro length
    cases rest with
    | nil => rfl
    | cons first rest =>
      cases rest with
      | nil => rfl
      | cons second tail => exact absurd rfl (short first second tail)
  | case6 c rest plain illegal =>
    intro length
    rw [removeOptionalEscapesLoop.eq_def]
    dsimp only
    rw [if_neg plain, if_pos illegal]
  | case7 c rest plain legal next ih =>
    intro length
    have fits : isUriCharacter c = true := by
      rw [isUriCharacter_iff beyond plain fun high => legal (Or.inl high)]
      exact fun illegal => legal (Or.inr illegal)
    rw [removeOptionalEscapesLoop_byte fits, ih ((escapesInRange_byte fits rest).mp range)]
    rfl

/-- Decoding what is left gives what decoding the text gave. -/
theorem unescapeString_removeOptionalEscapes (s : Bytes) (range : EscapesInRange s) :
    unescapeString [] (removeOptionalEscapes beyond s).1 = unescapeString [] s := by
  fun_induction removeOptionalEscapes beyond s with
  | case1 => rfl
  | case2 first second tail d decoded next removed ih =>
    obtain ⟨low, range⟩ := (escapesInRange_escape decoded tail).mp range
    obtain ⟨nonzero, legal⟩ := unreserved_plain low removed
    have plain : d ≠ chrPercent := by
      rintro rfl
      cases legal
    rw [unescapeString_cons_of_ne _ plain, ih range]
    rw [unescapeString, if_pos rfl, decoded]
    dsimp only
    rw [if_neg (by simp [nonzero])]
  | case3 first second tail d decoded next kept ih =>
    obtain ⟨-, range⟩ := (escapesInRange_escape decoded tail).mp range
    rw [unescapeString, if_pos rfl, decoded, unescapeString, if_pos rfl, decoded]
    dsimp only
    rw [ih range]
  | case4 => rfl
  | case5 => rfl
  | case6 => rfl
  | case7 c rest plain legal next ih =>
    have fits : isUriCharacter c = true := by
      rw [isUriCharacter_iff beyond plain fun high => legal (Or.inl high)]
      exact fun illegal => legal (Or.inr illegal)
    rw [unescapeString_cons_of_ne _ plain, unescapeString_cons_of_ne _ plain, ih ((escapesInRange_byte fits rest).mp range)]

theorem optionalEscapesNear_byte (legal : isUriCharacter c = true) (rest : Bytes) :
    OptionalEscapesNear beyond (c :: rest) ↔ OptionalEscapesNear beyond rest := by
  constructor
  · intro all front first second back d split scanned
    exact all (c :: front) first second back d (by rw [split]; rfl) (.byte legal scanned)
  · intro all front first second back d split scanned
    cases scanned with
    | nil =>
      have percent : c = chrPercent := (List.cons.inj split).1
      rw [percent] at legal
      cases legal
    | byte _ scanned => exact all _ first second back d (List.cons.inj split).2 scanned
    | escape _ _ =>
      rw [(List.cons.inj split).1] at legal
      cases legal

theorem optionalEscapesNear_escape {first second d : UInt8} (decoded : unescapeCharacter first second = some d) (tail : Bytes) :
    OptionalEscapesNear beyond (chrPercent :: first :: second :: tail) ↔
      (uriCharacterKind beyond d = .unreserved → tail.length + 3 < 2 ^ 31) ∧ OptionalEscapesNear beyond tail := by
  constructor
  · intro all
    refine ⟨all [] first second tail d rfl .nil decoded, ?_⟩
    intro front a b back e split scanned
    exact all (chrPercent :: first :: second :: front) a b back e (by rw [split]; rfl) (.escape decoded scanned)
  · rintro ⟨here, all⟩ front a b back e split scanned other
    cases scanned with
    | nil =>
      cases split
      rw [decoded] at other
      cases other
      exact here
    | byte legal _ =>
      rw [← (List.cons.inj split).1] at legal
      cases legal
    | escape _ scanned =>
      obtain ⟨-, rest⟩ := List.cons.inj split
      obtain ⟨-, rest⟩ := List.cons.inj rest
      obtain ⟨-, rest⟩ := List.cons.inj rest
      exact all _ a b back e rest scanned other

theorem optionalEscapesNear_of_stop {rest : Bytes} (illegal : isUriCharacter c = false)
    (none : ∀ first second tail, c :: rest = chrPercent :: first :: second :: tail → unescapeCharacter first second = none) :
    OptionalEscapesNear beyond (c :: rest) := by
  intro front first second back d split scanned decoded
  cases scanned with
  | nil =>
    rw [none first second back split] at decoded
    cases decoded
  | byte legal _ =>
    rw [← (List.cons.inj split).1, illegal] at legal
    cases legal
  | escape other _ =>
    rw [none _ _ _ split] at other
    cases other

/-- The length is that of the rest, as a `gint`. It is right where it is used as long as it has not run
over. -/
theorem removeOptionalEscapesLoop_eq (s : Bytes) :
    (OptionalEscapesNear beyond s → removeOptionalEscapesLoop beyond (gint s.length) s = some (removeOptionalEscapes beyond s)) ∧
      (¬ OptionalEscapesNear beyond s → removeOptionalEscapesLoop beyond (gint s.length) s = none) := by
  have not_percent : isUriCharacter chrPercent = false := by decide
  fun_induction removeOptionalEscapes beyond s with
  | case1 =>
    refine ⟨fun _ => rfl, fun far => absurd ?_ far⟩
    intro front first second back d split
    have := congrArg List.length split
    simp at this
  | case2 first second tail d decoded next removed ih =>
    have behind : gint (gint (gint ((chrPercent :: first :: second :: tail).length : Nat) - 2) - 1) = gint tail.length := by
      rw [gint_sub, Int.sub_sub, gint_sub]
      exact congrArg gint (by simp only [List.length_cons]; omega)
    rw [optionalEscapesNear_escape decoded, removeOptionalEscapesLoop, if_pos rfl, decoded]
    dsimp only
    rw [if_pos removed, behind]
    by_cases small : tail.length + 3 < 2 ^ 31
    · have exact_length : gint ((chrPercent :: first :: second :: tail).length : Nat) = tail.length + 3 :=
        gint_eq_self_iff.mpr small
      rw [if_pos (by rw [exact_length]; omega)]
      constructor
      · intro near
        rw [ih.1 near.2]
        rfl
      · intro far
        rw [ih.2 fun near => far ⟨fun _ => small, near⟩]
        rfl
    · refine ⟨fun near => absurd (near.1 removed) small, fun _ => if_neg ?_⟩
      rintro ⟨-, same⟩
      apply small
      apply gint_eq_self_iff.mp
      have : gint ((chrPercent :: first :: second :: tail).length : Nat) = tail.length + 3 := by omega
      exact this
  | case3 first second tail d decoded next kept ih =>
    have behind : gint (gint ((chrPercent :: first :: second :: tail).length : Nat) - 3) = gint tail.length := by
      rw [gint_sub]
      exact congrArg gint (by simp only [List.length_cons]; omega)
    rw [optionalEscapesNear_escape decoded, removeOptionalEscapesLoop_escape decoded kept, behind]
    constructor
    · intro near
      rw [ih.1 near.2]
      rfl
    · intro far
      rw [ih.2 fun near => far ⟨fun removed => absurd removed kept, near⟩]
      rfl
  | case4 first second tail invalid =>
    have near : OptionalEscapesNear beyond (chrPercent :: first :: second :: tail) := by
      apply optionalEscapesNear_of_stop not_percent
      intro a b back split
      cases split
      exact invalid
    refine ⟨fun _ => ?_, fun far => absurd near far⟩
    rw [removeOptionalEscapesLoop, if_pos rfl, invalid]
  | case5 rest short =>
    have near : OptionalEscapesNear beyond (chrPercent :: rest) := by
      apply optionalEscapesNear_of_stop not_percent
      intro a b back split
      exact absurd (List.cons.inj split).2 (short a b back)
    refine ⟨fun _ => ?_, fun far => absurd near far⟩
    cases rest with
    | nil => rfl
    | cons first rest =>
      cases rest with
      | nil => rfl
      | cons second tail => exact absurd rfl (short first second tail)
  | case6 c rest plain illegal =>
    have near : OptionalEscapesNear beyond (c :: rest) := by
      apply optionalEscapesNear_of_stop
      · by_cases high : 127 < c
        · exact isUriCharacter_of_high high
        · rw [← Bool.not_eq_true, isUriCharacter_iff beyond plain high]
          exact not_not_intro (illegal.resolve_left high)
      · intro a b back split
        exact absurd (List.cons.inj split).1 plain
    refine ⟨fun _ => ?_, fun far => absurd near far⟩
    rw [removeOptionalEscapesLoop.eq_def]
    dsimp only
    rw [if_neg plain, if_pos illegal]
  | case7 c rest plain legal next ih =>
    have fits : isUriCharacter c = true := by
      rw [isUriCharacter_iff beyond plain fun high => legal (Or.inl high)]
      exact fun illegal => legal (Or.inr illegal)
    have behind : gint (gint ((c :: rest).length : Nat) - 1) = gint rest.length := by
      rw [gint_sub]
      exact congrArg gint (by simp only [List.length_cons]; omega)
    rw [optionalEscapesNear_byte fits, removeOptionalEscapesLoop_byte fits, behind]
    constructor
    · intro near
      rw [ih.1 near]
      rfl
    · intro far
      rw [ih.2 far]
      rfl

/-- Where no escape of a byte from 128 on is read, decoding gives the same for what is left in the buffer, and
a second scan leaves it alone; and the length is right where it is used, exactly when the escapes that are
removed have less than 2^31 bytes from their `%` on. -/
theorem removeOptionalEscapes_keeps_meaning_iff (s : Bytes) (range : EscapesInRange s) :
    (∃ t result, removeOptionalEscapesChecked beyond s = some (t, result) ∧ unescapeString [] t = unescapeString [] s ∧
      removeOptionalEscapesChecked beyond t = some (t, result)) ↔ OptionalEscapesNear beyond s := by
  obtain ⟨near, far⟩ := @removeOptionalEscapesLoop_eq beyond s
  constructor
  · rintro ⟨t, result, ends, -⟩
    by_contra outside
    rw [removeOptionalEscapesChecked, far outside] at ends
    cases ends
  · intro inside
    exact ⟨_, _, near inside, unescapeString_removeOptionalEscapes s range, removeOptionalEscapesLoop_again s range _⟩

theorem removeOptionalEscapes_keeps_meaning_path :
    ∃ t result, removeOptionalEscapesChecked (fun _ => .control) (ascii "%41%2Fa") = some (t, result) ∧
      unescapeString [] t = unescapeString [] (ascii "%41%2Fa") ∧
      removeOptionalEscapesChecked (fun _ => .control) t = some (t, result) := by
  have range : EscapesInRange (ascii "%41%2Fa") :=
    (escapesInRange_escape rfl _).mpr ⟨by decide, (escapesInRange_escape rfl _).mpr ⟨by decide,
      escapesInRange_of_plain (by decide)⟩⟩
  refine (removeOptionalEscapes_keeps_meaning_iff (ascii "%41%2Fa") range).mpr ?_
  intro front first second back d split scanned decoded removed
  have whole := congrArg List.length split
  have size : (ascii "%41%2Fa").length = 7 := by decide
  rw [size, List.length_append] at whole
  simp only [List.length_cons] at whole
  omega

/-- Two gigabytes behind an escape that is removed: the length has become negative, and the assertion fails. -/
theorem removeOptionalEscapes_length_runs_over :
    EscapesInRange (ascii "%41" ++ List.replicate (2 ^ 31) 97) ∧
      removeOptionalEscapesChecked (fun _ => .control) (ascii "%41" ++ List.replicate (2 ^ 31) 97) = none := by
  have range : EscapesInRange (ascii "%41" ++ List.replicate (2 ^ 31) 97) := by
    refine (@escapesInRange_escape 52 49 65 rfl (List.replicate (2 ^ 31) 97)).mpr ⟨by decide, ?_⟩
    apply escapesInRange_of_plain
    intro c member
    rw [List.eq_of_mem_replicate member]
    decide
  refine ⟨range, (removeOptionalEscapesLoop_eq _).2 ?_⟩
  intro near
  have small := near [] 52 49 (List.replicate (2 ^ 31) 97) 65 rfl .nil rfl (by decide)
  rw [List.length_replicate] at small
  omega

end GnomeVfs
