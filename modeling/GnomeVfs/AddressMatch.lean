import GnomeVfs.CString
import GnomeVfs.LeadingBits
import Mathlib.Tactic.Ring

/- Matching the first bits of two addresses, on hosts of either byte order. -/
namespace GnomeVfs.Address

open LeadingBits

inductive ByteOrder where
  | big
  | little
  deriving DecidableEq

/-- The word whose bytes are those of the number, the most significant one first. -/
def ByteOrder.htonl : ByteOrder → UInt32 → UInt32
  | .big, value => value
  | .little, value => UInt32.ofNat (BigEndian.decode (BigEndian.encode 4 value.toNat).reverse)

/-- The bytes of a word as they lie in memory. -/
def ByteOrder.memory : ByteOrder → UInt32 → Bytes
  | .big, word => BigEndian.encode 4 word.toNat
  | .little, word => (BigEndian.encode 4 word.toNat).reverse

/-- `struct in_addr`, a word in network order. -/
structure InAddr where
  s_addr : UInt32
  deriving DecidableEq

/-- `struct in6_addr`. -/
structure In6Addr where
  s6_addr : Bytes
  length : s6_addr.length = 16
  deriving DecidableEq

/-- `struct sockaddr` of the two families that an address can have. -/
inductive SockAddr where
  | inet (sin_addr : InAddr)
  | inet6 (sin6_addr : In6Addr)
  deriving DecidableEq

/-- `IN6_IS_ADDR_V4MAPPED`. -/
def isV4Mapped (a : In6Addr) : Bool :=
  (a.s6_addr.take 10).all (· == 0) && byteAt a.s6_addr 10 == 255 && byteAt a.s6_addr 11 == 255

variable (order : ByteOrder)

def v4V4Equal (a b : InAddr) : Bool := a.s_addr == b.s_addr

/-- Left shifts of a 32-bit word, by less than its width. -/
def cmask (length : Nat) : UInt32 := order.htonl (0xffffffff <<< UInt32.ofNat (32 - length))

def v4V4Match (a b : InAddr) (length : Nat) : Bool :=
  a.s_addr &&& cmask order length == b.s_addr &&& cmask order length

def v6V6Equal (a b : In6Addr) : Bool := a.s6_addr == b.s6_addr

/-- The number that the last four bytes write. -/
def v4Numeric (b : In6Addr) : UInt32 :=
  (byteAt b.s6_addr 12).toUInt32 <<< 24 ||| (byteAt b.s6_addr 13).toUInt32 <<< 16 |||
    (byteAt b.s6_addr 14).toUInt32 <<< 8 ||| (byteAt b.s6_addr 15).toUInt32

def v4V6Match (a : InAddr) (b : In6Addr) (length : Nat) : Bool :=
  if !isV4Mapped b then false
  else if length = 0 ∨ 31 < length then v4V4Equal a ⟨order.htonl (v4Numeric b)⟩
  else v4V4Match order a ⟨order.htonl (v4Numeric b)⟩ length

/-- The loop over the whole bytes, which returns at the first difference. -/
def sameBytes (ia ib : Bytes) : Nat → Bool
  | 0 => true
  | n + 1 => sameBytes ia ib n && byteAt ia n == byteAt ib n

def v6V6Match (a b : In6Addr) (length : Nat) : Bool :=
  let n := length / 8 % 256
  sameBytes a.s6_addr b.s6_addr n &&
    (8 - length % 8 == 8 ||
      (byteAt a.s6_addr n).toNat &&& 255 <<< (8 - length % 8) ==
        (byteAt b.s6_addr n).toNat &&& 255 <<< (8 - length % 8))

/-- `gnome_vfs_address_match`. -/
def addressMatch : SockAddr → SockAddr → Nat → Bool
  | .inet a, .inet b, length =>
    if length = 0 ∨ 31 < length then v4V4Equal a b else v4V4Match order a b length
  | .inet6 a, .inet6 b, length =>
    if length = 0 ∨ 127 < length then v6V6Equal a b else v6V6Match a b length
  | .inet a, .inet6 b, length => v4V6Match order a b length
  | .inet6 a, .inet b, length => v4V6Match order b a length

section Words

variable {order}

/-- The bit of a word where the network has its `i`-th bit. -/
def ByteOrder.place : ByteOrder → Nat → Nat
  | .big, i => 31 - i
  | .little, i => 31 - (8 * (3 - i / 8) + i % 8)

theorem bit_encode (word : UInt32) {i : Nat} (inside : i < 32) :
    bit (BigEndian.encode 4 word.toNat) i = word.toNat.testBit (31 - i) := by
  have small : word.toNat < 256 ^ 4 := word.toNat_lt
  rw [bit_eq_testBit (by simpa using inside), BigEndian.decode_encode_of_lt small, BigEndian.length_encode]

theorem bit_memory (order : ByteOrder) (word : UInt32) {i : Nat} (inside : i < 32) :
    bit (order.memory word) i = word.toNat.testBit (order.place i) := by
  cases order with
  | big => exact bit_encode word inside
  | little =>
    rw [ByteOrder.memory, bit_reverse (by simpa using inside), BigEndian.length_encode, bit_encode word (by omega)]
    rfl

@[simp] theorem length_memory (word : UInt32) : (order.memory word).length = 4 := by
  cases order <;> simp [ByteOrder.memory]

theorem memory_inj {word word' : UInt32} (same : order.memory word = order.memory word') : word = word' := by
  have small (w : UInt32) : w.toNat < 256 ^ 4 := w.toNat_lt
  have bytes : BigEndian.encode 4 word.toNat = BigEndian.encode 4 word'.toNat := by
    cases order with
    | big => exact same
    | little => exact List.reverse_inj.mp same
  have number := congrArg BigEndian.decode bytes
  rw [BigEndian.decode_encode_of_lt (small word), BigEndian.decode_encode_of_lt (small word')] at number
  exact UInt32.toNat_inj.mp number

theorem agree_memory {word word' : UInt32} : Agree 32 (order.memory word) (order.memory word') ↔ word = word' := by
  have all := @agree_all (order.memory word) (order.memory word') (by simp)
  rw [length_memory] at all
  rw [all]
  exact ⟨memory_inj, congrArg _⟩

theorem bit_memory_and (order : ByteOrder) (x y : UInt32) {i : Nat} (inside : i < 32) :
    bit (order.memory (x &&& y)) i = (bit (order.memory x) i && bit (order.memory y) i) := by
  rw [bit_memory order _ inside, bit_memory order _ inside, bit_memory order _ inside, UInt32.toNat_and,
    Nat.testBit_and]

/-- What `htonl` makes lies in memory with its most significant byte first. -/
theorem memory_htonl (order : ByteOrder) (value : UInt32) :
    order.memory (order.htonl value) = BigEndian.encode 4 value.toNat := by
  cases order with
  | big => rfl
  | little =>
    have small := BigEndian.decode_lt (BigEndian.encode 4 value.toNat).reverse
    rw [List.length_reverse, BigEndian.length_encode] at small
    have again := BigEndian.encode_decode (BigEndian.encode 4 value.toNat).reverse
    rw [List.length_reverse, BigEndian.length_encode] at again
    rw [ByteOrder.htonl, ByteOrder.memory, UInt32.toNat_ofNat_of_lt' small, again, List.reverse_reverse]

/-- The mask has the first bits set and no other. -/
theorem bit_cmask (order : ByteOrder) {length i : Nat} (positive : 0 < length) (inside : i < 32) :
    bit (order.memory (cmask order length)) i = decide (i < length) := by
  have shift : (UInt32.ofNat (32 - length)).toNat % 32 = 32 - length := by
    rw [UInt32.toNat_ofNat_of_lt' (by change _ < 2 ^ 32; omega), Nat.mod_eq_of_lt (by omega)]
  have ones : (0xffffffff : UInt32).toNat = 2 ^ 32 - 1 := rfl
  rw [cmask, memory_htonl, bit_encode _ inside, UInt32.toNat_shiftLeft, shift, ones, Nat.testBit_mod_two_pow,
    Nat.testBit_shiftLeft, Nat.testBit_two_pow_sub_one]
  by_cases first : i < length
  · have high : 32 - length ≤ 31 - i := by omega
    have low : 31 - i - (32 - length) < 32 := by omega
    simp [first, high, low]
    omega
  · have beyond : ¬ 32 - length ≤ 31 - i := by omega
    simp [first, beyond]

end Words

theorem v4V4Equal_iff (a b : InAddr) :
    v4V4Equal a b = true ↔ Agree 32 (order.memory a.s_addr) (order.memory b.s_addr) := by
  rw [v4V4Equal, beq_iff_eq, agree_memory]

theorem v4V4Match_iff (a b : InAddr) {length : Nat} (positive : 0 < length) (inside : length ≤ 32) :
    v4V4Match order a b length = true ↔ Agree length (order.memory a.s_addr) (order.memory b.s_addr) := by
  rw [v4V4Match, beq_iff_eq, ← @agree_memory order]
  constructor
  · intro same i first
    have at_i := same i (by omega)
    rw [bit_memory_and order _ _ (by omega), bit_memory_and order _ _ (by omega),
      bit_cmask order positive (by omega)] at at_i
    simpa [first] using at_i
  · intro same i first
    rw [bit_memory_and order _ _ first, bit_memory_and order _ _ first, bit_cmask order positive first]
    by_cases shared : i < length
    · rw [same i shared]
    · simp [shared]

theorem v6V6Equal_iff (a b : In6Addr) : v6V6Equal a b = true ↔ Agree 128 a.s6_addr b.s6_addr := by
  have all := agree_all (a.length.trans b.length.symm)
  rw [a.length] at all
  rw [v6V6Equal, beq_iff_eq, ← all]

theorem sameBytes_iff (ia ib : Bytes) (n : Nat) :
    sameBytes ia ib n = true ↔ ∀ j < n, byteAt ia j = byteAt ib j := by
  induction n with
  | zero => simp [sameBytes]
  | succ n ih =>
    rw [sameBytes, Bool.and_eq_true, ih, beq_iff_eq]
    constructor
    · rintro ⟨front, last⟩ j inside
      rcases Nat.lt_succ_iff_lt_or_eq.mp inside with first | rfl
      · exact front j first
      · exact last
    · exact fun all => ⟨fun j inside => all j (by omega), all n (by omega)⟩

theorem v6V6Match_iff (a b : In6Addr) {length : Nat} (inside : length ≤ 128) :
    v6V6Match a b length = true ↔ Agree length a.s6_addr b.s6_addr := by
  have bytes : length / 8 % 256 = length / 8 := Nat.mod_eq_of_lt (by omega)
  rw [v6V6Match, bytes, agree_iff, Bool.and_eq_true, sameBytes_iff, Bool.or_eq_true, beq_iff_eq, beq_iff_eq]
  refine and_congr Iff.rfl (or_iff_right_of_imp fun whole => ?_)
  -- No bit of the next byte is asked for.
  rw [whole]
  exact (masked_eq_iff _ _ (Nat.zero_le 8)).mpr fun i impossible => absurd impossible (Nat.not_lt_zero i)

/-- `::ffff:0:0/96`. -/
def Mapped (a : In6Addr) : Prop := a.s6_addr.take 12 = List.replicate 10 0 ++ [255, 255]

instance decidableMapped (a : In6Addr) : Decidable (Mapped a) := inferInstanceAs (Decidable (_ = _))

/-- The address that an IPv6 address is mapped from, or would be. -/
def v4Bytes (b : In6Addr) : Bytes := b.s6_addr.drop 12

theorem take_succ_byteAt {s : Bytes} {i : Nat} (inside : i < s.length) :
    s.take (i + 1) = s.take i ++ [byteAt s i] := by
  rw [List.take_add_one, byteAt, List.getElem?_eq_getElem inside, List.getD_eq_getElem _ _ inside]
  rfl

theorem isV4Mapped_iff (a : In6Addr) : isV4Mapped a = true ↔ Mapped a := by
  have ten : (a.s6_addr.take 10).length = 10 := by rw [List.length_take, a.length]; rfl
  have front : (a.s6_addr.take 10).all (· == 0) = true ↔ a.s6_addr.take 10 = List.replicate 10 0 := by
    rw [List.eq_replicate_iff, List.all_eq_true]
    simp [ten]
  have twelve : a.s6_addr.take 12 = a.s6_addr.take 10 ++ [byteAt a.s6_addr 10, byteAt a.s6_addr 11] := by
    rw [take_succ_byteAt (i := 11) (by rw [a.length]; decide), take_succ_byteAt (i := 10) (by rw [a.length]; decide),
      List.append_assoc]
    rfl
  rw [isV4Mapped, Bool.and_eq_true, Bool.and_eq_true, beq_iff_eq, beq_iff_eq, front, Mapped, twelve]
  constructor
  · rintro ⟨⟨zeros, tenth⟩, eleventh⟩
    rw [zeros, tenth, eleventh]
  · intro mapped
    obtain ⟨zeros, rest⟩ := List.append_inj mapped ten
    simp only [List.cons.injEq, and_true] at rest
    exact ⟨⟨zeros, rest.1⟩, rest.2⟩

theorem toNat_shifted_byte (c : UInt8) {k : UInt32} (inside : k.toNat ≤ 24) :
    (c.toUInt32 <<< k).toNat = c.toNat * 2 ^ k.toNat := by
  have power : 2 ^ k.toNat ≤ 2 ^ 24 := Nat.pow_le_pow_right (by decide) inside
  have small : c.toNat * 2 ^ k.toNat < 2 ^ 32 :=
    Nat.lt_of_le_of_lt (Nat.mul_le_mul (Nat.le_of_lt_succ c.toNat_lt) power) (by decide)
  have count : k.toNat % 32 = k.toNat := Nat.mod_eq_of_lt (by omega)
  rw [UInt32.toNat_shiftLeft, UInt8.toNat_toUInt32, count, Nat.shiftLeft_eq, Nat.mod_eq_of_lt small]

theorem shifted_bytes (w x y z : UInt8) :
    (w.toUInt32 <<< 24 ||| x.toUInt32 <<< 16 ||| y.toUInt32 <<< 8 ||| z.toUInt32).toNat =
      BigEndian.decode [w, x, y, z] := by
  have join (n m k : Nat) (small : m < 2 ^ k) : n * 2 ^ k ||| m = n * 2 ^ k + m := by
    rw [Nat.mul_comm, Nat.two_pow_add_eq_or_of_lt small]
  have small (c : UInt8) : c.toNat < 2 ^ 8 := c.toNat_lt
  have hx := small x
  have hy := small y
  have two : w.toNat * 2 ^ 24 + x.toNat * 2 ^ 16 = (w.toNat * 2 ^ 8 + x.toNat) * 2 ^ 16 := by ring
  have three : (w.toNat * 2 ^ 8 + x.toNat) * 2 ^ 16 + y.toNat * 2 ^ 8 =
      ((w.toNat * 2 ^ 8 + x.toNat) * 2 ^ 8 + y.toNat) * 2 ^ 8 := by ring
  rw [UInt32.toNat_or, UInt32.toNat_or, UInt32.toNat_or, toNat_shifted_byte w (by decide),
    toNat_shifted_byte x (by decide), toNat_shifted_byte y (by decide), UInt8.toNat_toUInt32]
  change w.toNat * 2 ^ 24 ||| x.toNat * 2 ^ 16 ||| y.toNat * 2 ^ 8 ||| z.toNat = _
  rw [join _ _ 24 (by omega), two, join _ _ 16 (by omega), three, join _ _ 8 (small z)]
  simp [BigEndian.decode, BigEndian.decodeFrom]

theorem memory_v4Numeric (b : In6Addr) : order.memory (order.htonl (v4Numeric b)) = v4Bytes b := by
  have four : [byteAt b.s6_addr 12, byteAt b.s6_addr 13, byteAt b.s6_addr 14, byteAt b.s6_addr 15] = v4Bytes b := by
    refine List.ext_getElem (by simp [v4Bytes, b.length]) fun i inside other => ?_
    have bound : 12 + i < b.s6_addr.length := by
      rw [b.length]
      simp only [List.length_cons, List.length_nil] at inside
      omega
    have member : (v4Bytes b)[i] = byteAt b.s6_addr (12 + i) := by
      rw [byteAt, List.getD_eq_getElem _ _ bound]
      simp [v4Bytes]
    rw [member]
    match i, inside with
    | 0, _ | 1, _ | 2, _ | 3, _ => rfl
  have again := BigEndian.encode_decode (v4Bytes b)
  have length : (v4Bytes b).length = 4 := by simp [v4Bytes, b.length]
  rw [length] at again
  rw [memory_htonl, v4Numeric, shifted_bytes, four, again]

/-- The first bits of two addresses agree, an IPv6 address being compared with an IPv4 address
by the one it is mapped from. -/
def SameBits (n : Nat) : SockAddr → SockAddr → Prop
  | .inet a, .inet b => Agree n (order.memory a.s_addr) (order.memory b.s_addr)
  | .inet6 a, .inet6 b => Agree n a.s6_addr b.s6_addr
  | .inet a, .inet6 b | .inet6 b, .inet a => Mapped b ∧ Agree n (order.memory a.s_addr) (v4Bytes b)

inductive Family where
  | inet
  | inet6
  deriving DecidableEq

def SockAddr.family : SockAddr → Family
  | .inet _ => .inet
  | .inet6 _ => .inet6

/-- How many bits two addresses can have in common. -/
def width (a b : SockAddr) : Nat := if a.family = .inet6 ∧ b.family = .inet6 then 128 else 32

/-- How many bits are compared: no length at all stands for all of them. -/
def compared (a b : SockAddr) (length : Nat) : Nat :=
  if length = 0 ∨ width a b ≤ length then width a b else length

theorem v4V6Match_iff (a : InAddr) (b : In6Addr) (length : Nat) :
    v4V6Match order a b length = true ↔
      Mapped b ∧ Agree (if length = 0 ∨ 32 ≤ length then 32 else length) (order.memory a.s_addr) (v4Bytes b) := by
  by_cases mapped : Mapped b
  · rw [v4V6Match, if_neg (by simp [(isV4Mapped_iff b).mpr mapped]), and_iff_right mapped]
    by_cases all : length = 0 ∨ 31 < length
    · rw [if_pos all, if_pos (show length = 0 ∨ 32 ≤ length by omega), v4V4Equal_iff order, memory_v4Numeric]
    · rw [if_neg all, if_neg (show ¬(length = 0 ∨ 32 ≤ length) by omega),
        v4V4Match_iff order _ _ (by omega) (by omega), memory_v4Numeric]
  · have plain : isV4Mapped b = false := by
      rw [← Bool.not_eq_true, isV4Mapped_iff]
      exact mapped
    simp [v4V6Match, plain, mapped]

theorem addressMatch_iff (a b : SockAddr) (length : Nat) :
    addressMatch order a b length = true ↔ SameBits order (compared a b length) a b := by
  cases a with
  | inet a =>
    cases b with
    | inet b =>
      change (if length = 0 ∨ 31 < length then _ else _) = true ↔
        Agree (if length = 0 ∨ 32 ≤ length then 32 else length) _ _
      by_cases all : length = 0 ∨ 31 < length
      · rw [if_pos all, if_pos (show length = 0 ∨ 32 ≤ length by omega), v4V4Equal_iff order]
      · rw [if_neg all, if_neg (show ¬(length = 0 ∨ 32 ≤ length) by omega),
          v4V4Match_iff order _ _ (by omega) (by omega)]
    | inet6 b => exact v4V6Match_iff order a b length
  | inet6 a =>
    cases b with
    | inet b => exact v4V6Match_iff order b a length
    | inet6 b =>
      change (if length = 0 ∨ 127 < length then _ else _) = true ↔
        Agree (if length = 0 ∨ 128 ≤ length then 128 else length) _ _
      by_cases all : length = 0 ∨ 127 < length
      · rw [if_pos all, if_pos (show length = 0 ∨ 128 ≤ length by omega), v6V6Equal_iff]
      · rw [if_neg all, if_neg (show ¬(length = 0 ∨ 128 ≤ length) by omega), v6V6Match_iff _ _ (by omega)]

theorem SameBits.mono {order : ByteOrder} {n m : Nat} {a b : SockAddr} (shorter : m ≤ n)
    (same : SameBits order n a b) : SameBits order m a b := by
  cases a with
  | inet a =>
    cases b with
    | inet b => exact Agree.mono shorter same
    | inet6 b => exact ⟨same.1, same.2.mono shorter⟩
  | inet6 a =>
    cases b with
    | inet b => exact ⟨same.1, same.2.mono shorter⟩
    | inet6 b => exact Agree.mono shorter same

theorem addressMatch_comm (a b : SockAddr) (length : Nat) :
    addressMatch order a b length = addressMatch order b a length := by
  rw [Bool.eq_iff_iff, addressMatch_iff, addressMatch_iff]
  cases a with
  | inet a =>
    cases b with
    | inet b => exact ⟨Agree.symm, Agree.symm⟩
    | inet6 b => rfl
  | inet6 a =>
    cases b with
    | inet b => rfl
    | inet6 b => exact ⟨Agree.symm, Agree.symm⟩

theorem addressMatch_equivalence (family : Family) (length : Nat) :
    Equivalence fun a b : { a : SockAddr // a.family = family } => addressMatch order a b length = true := by
  refine ⟨fun a => ?_, fun {a b} same => ?_, fun {a b c} first second => ?_⟩
  · rw [addressMatch_iff]
    cases a.1 with
    | inet _ => exact Agree.refl _ _
    | inet6 _ => exact Agree.refl _ _
  · rwa [addressMatch_comm]
  · obtain ⟨a, ha⟩ := a
    obtain ⟨b, hb⟩ := b
    obtain ⟨c, hc⟩ := c
    rw [addressMatch_iff] at first second ⊢
    cases a with
    | inet a =>
      cases b with
      | inet b =>
        cases c with
        | inet c => exact Agree.trans first second
        | inet6 c => rw [← ha] at hc; cases hc
      | inet6 b => rw [← ha] at hb; cases hb
    | inet6 a =>
      cases b with
      | inet b => rw [← ha] at hb; cases hb
      | inet6 b =>
        cases c with
        | inet c => rw [← ha] at hc; cases hc
        | inet6 c => exact Agree.trans first second

theorem compared_mono (a b : SockAddr) {m n : Nat} (positive : 0 < m) (shorter : m ≤ n) :
    compared a b m ≤ compared a b n := by
  rw [compared, compared]
  split <;> split <;> omega

/-- On hosts of either byte order addresses match where the bits asked for agree; the relation
is symmetric, an equivalence within each family, and kept when fewer bits are asked for. -/
theorem address_match_first_bits (order : ByteOrder) :
    (∀ a b length, 0 < length → length ≤ width a b →
      (addressMatch order a b length = true ↔ SameBits order length a b)) ∧
    (∀ a b length, addressMatch order a b length = addressMatch order b a length) ∧
    (∀ family length, Equivalence fun a b : { a : SockAddr // a.family = family } =>
      addressMatch order a b length = true) ∧
    ∀ a b length shorter, 0 < shorter → shorter ≤ length → addressMatch order a b length = true →
      addressMatch order a b shorter = true := by
  refine ⟨fun a b length positive inside => ?_, addressMatch_comm order, addressMatch_equivalence order,
    fun a b length shorter positive le same => ?_⟩
  · have exactly : compared a b length = length := by
      rw [compared]
      split <;> omega
    rw [addressMatch_iff, exactly]
  · rw [addressMatch_iff] at same ⊢
    exact same.mono (compared_mono a b positive le)

/-- `127.0.0.1` on a little-endian host, beside `::ffff:127.0.0.2`. -/
example : addressMatch .little (.inet ⟨0x0100007f⟩)
    (.inet6 ⟨List.replicate 10 0 ++ [255, 255, 127, 0, 0, 2], rfl⟩) 30 = true := by decide

end GnomeVfs.Address
