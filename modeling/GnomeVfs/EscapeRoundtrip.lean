import GnomeVfs.Escape

namespace GnomeVfs

/-- A property of every byte is a property of the 256 numbers below `UInt8.size`. -/
theorem forall_byte {P : UInt8 → Prop} (all : ∀ n : Fin 256, P (UInt8.ofFin n)) (c : UInt8) :
    P c := by
  have := all c.toFin
  simpa using this

/-- The bytes that `gnome_vfs_escape_string` puts out. -/
def isEscapedByte (c : UInt8) : Bool := acceptableChar .all c || c == chrPercent

theorem hex_digit {n : UInt8} (small : n < 16) : isEscapedByte (hex n) = true ∧ hexToInt (hex n) = some n := by
  have table : ascii "0123456789ABCDEF" = [48, 49, 50, 51, 52, 53, 54, 55, 56, 57, 65, 66, 67, 68, 69, 70] := by
    decide
  have digits : ∀ i : Fin 16,
      let digit : UInt8 := [48, 49, 50, 51, 52, 53, 54, 55, 56, 57, 65, 66, 67, 68, 69, 70].getD i 0
      isEscapedByte digit = true ∧ hexToInt digit = some (UInt8.ofNat i) := by
    decide
  have bound : n.toNat < 16 := UInt8.lt_iff_toNat_lt.mp small
  have here := digits ⟨n.toNat, bound⟩
  rw [UInt8.ofNat_toNat] at here
  rw [hex, table]
  exact here

theorem shiftRight_lt (c : UInt8) : c >>> 4 < 16 := by
  rw [UInt8.lt_iff_toNat_lt, UInt8.toNat_shiftRight]
  have bound := c.toNat_lt
  show c.toNat >>> 4 < 16
  rw [Nat.shiftRight_eq_div_pow]
  omega

theorem and_lt (c : UInt8) : c &&& 15 < 16 := by
  rw [UInt8.lt_iff_toNat_lt, UInt8.toNat_and]
  exact Nat.lt_of_le_of_lt Nat.and_le_right (by decide)

theorem halves (c : UInt8) : (c >>> 4) <<< 4 ||| (c &&& 15) = c := by
  have bound := c.toNat_lt
  have low : c.toNat &&& 15 = c.toNat % 16 := Nat.and_two_pow_sub_one_eq_mod c.toNat 4
  rw [← UInt8.toNat_inj, UInt8.toNat_or, UInt8.toNat_shiftLeft, UInt8.toNat_shiftRight, UInt8.toNat_and]
  show (c.toNat >>> 4) <<< 4 % 256 ||| c.toNat &&& 15 = c.toNat
  rw [low, Nat.shiftRight_eq_div_pow, Nat.mod_eq_of_lt (by rw [Nat.shiftLeft_eq]; omega),
    ← Nat.shiftLeft_add_eq_or_of_lt (by omega), Nat.shiftLeft_eq]
  omega

theorem escapeByte_escaped (c : UInt8) : ∀ d ∈ escapeByte c, isEscapedByte d = true := by
  intro d member
  simp only [escapeByte, List.mem_cons, List.not_mem_nil, or_false] at member
  rcases member with rfl | rfl | rfl
  · decide
  · exact (hex_digit (shiftRight_lt c)).1
  · exact (hex_digit (and_lt c)).1

theorem unescapeCharacter_hex (c : UInt8) :
    unescapeCharacter (hex (c >>> 4)) (hex (c &&& 15)) = some c := by
  rw [unescapeCharacter, (hex_digit (shiftRight_lt c)).2, (hex_digit (and_lt c)).2]
  exact congrArg some (halves c)

theorem acceptableChar_percent (useMask : UnsafeCharacterSet) :
    acceptableChar useMask chrPercent = false := by
  cases useMask <;> decide

theorem isEscapedByte_delimiters :
    ∀ d ∈ [0, chrHash, chrSlash, chrColon, chrAt, chrOpen, chrClose], isEscapedByte d = false := by
  decide

theorem escapeStringInternal_all_cons (c : UInt8) (rest : Bytes) :
    escapeStringInternal .all (c :: rest) =
      (if acceptableChar .all c then [c] else escapeByte c) ++ escapeStringInternal .all rest := by
  simp [escapeStringInternal]

theorem escapeString_escaped (s : Bytes) : ∀ d ∈ escapeString s, isEscapedByte d = true := by
  induction s with
  | nil => simp [escapeString, escapeStringInternal]
  | cons c rest ih =>
    intro d member
    rw [escapeString, escapeStringInternal_all_cons, List.mem_append] at member
    rcases member with here | later
    · split at here
      · rename_i kept
        simp only [List.mem_singleton] at here
        simp [isEscapedByte, here, kept]
      · exact escapeByte_escaped c d here
    · exact ih d later

theorem escapeString_ne_nil {s : Bytes} (nonempty : s ≠ []) : escapeString s ≠ [] := by
  cases s with
  | nil => exact absurd rfl nonempty
  | cons c rest =>
    rw [escapeString, escapeStringInternal_all_cons]
    split <;> simp [escapeByte]

theorem unescapeString_escapeByte (illegal : Bytes) {c : UInt8} (nonzero : c ≠ 0)
    (legal : c ∉ illegal) (rest : Bytes) :
    unescapeString illegal (escapeByte c ++ rest) =
      (unescapeString illegal rest).map (c :: ·) := by
  simp [escapeByte, unescapeString, unescapeCharacter_hex, nonzero, legal]

theorem unescapeString_cons_of_ne (illegal : Bytes) {c : UInt8} (plain : c ≠ chrPercent)
    (rest : Bytes) :
    unescapeString illegal (c :: rest) = (unescapeString illegal rest).map (c :: ·) := by
  rcases rest with _ | ⟨first, _ | ⟨second, tail⟩⟩ <;> exact if_neg plain

/-- Escaping is undone by unescaping, whatever mask was used: only `%` itself starts
an escape, and no mask accepts it. -/
theorem unescapeString_escapeStringInternal (useMask : UnsafeCharacterSet) (s : Bytes)
    (proper : (0 : UInt8) ∉ s) :
    unescapeString [] (escapeStringInternal useMask s) = some s := by
  induction s generalizing useMask with
  | nil => rfl
  | cons c rest ih =>
    have nonzero : c ≠ 0 := fun zero => proper (by simp [zero])
    have restProper : (0 : UInt8) ∉ rest := fun member => proper (by simp [member])
    simp only [escapeStringInternal]
    by_cases kept : acceptableChar useMask c = true
    · have plain : c ≠ chrPercent := by
        rintro rfl
        rw [acceptableChar_percent] at kept
        cases kept
      rw [if_pos kept, List.singleton_append, unescapeString_cons_of_ne _ plain,
        ih _ restProper, Option.map_some]
    · rw [if_neg kept, unescapeString_escapeByte _ nonzero (by simp), ih _ restProper,
        Option.map_some]

theorem unescapeString_escapeString {s : Bytes} (proper : (0 : UInt8) ∉ s) :
    unescapeString [] (escapeString s) = some s :=
  unescapeString_escapeStringInternal .all s proper

theorem unescapeString_proper (illegal : Bytes) (s : Bytes) :
    ∀ u, (0 : UInt8) ∉ s → unescapeString illegal s = some u → (0 : UInt8) ∉ u := by
  fun_induction unescapeString illegal s with
  | case1 =>
    rintro u - same
    cases same
    simp
  | case2 first second tail d _ illegalByte => simp
  | case3 first second tail d _ legal ih =>
    intro u proper decoded
    obtain ⟨v, here, rfl⟩ := Option.map_eq_some_iff.mp decoded
    have := ih v (by simp_all) here
    simp_all [eq_comm]
  | case4 => simp
  | case5 => simp
  | case6 c rest plain ih =>
    intro u proper decoded
    obtain ⟨v, here, rfl⟩ := Option.map_eq_some_iff.mp decoded
    have := ih v (by simp_all) here
    simp_all

theorem unescapeString_ne_nil {illegal s u : Bytes} (nonempty : s ≠ [])
    (decoded : unescapeString illegal s = some u) : u ≠ [] := by
  rintro rfl
  match s, decoded with
  | [], _ => exact nonempty rfl
  | [c], decoded =>
    unfold unescapeString at decoded
    split at decoded <;> simp at decoded
  | [c, d], decoded =>
    unfold unescapeString at decoded
    split at decoded <;> simp at decoded
  | c :: first :: second :: tail, decoded =>
    unfold unescapeString at decoded
    split at decoded
    · simp only at decoded
      split at decoded
      · split at decoded <;> simp at decoded
      · cases decoded
    · simp at decoded

end GnomeVfs
