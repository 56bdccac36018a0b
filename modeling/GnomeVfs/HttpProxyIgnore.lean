import GnomeVfs.HttpProxy

/- Which hosts the exception list is meant to cover, and which ones it reaches. -/
namespace GnomeVfs.HttpProxy

open Address LeadingBits

/-- A host, as the two families of addresses tell it. -/
inductive Host where
  | inet (a : InAddr)
  | inet6 (a : In6Addr)
  | name

def InetPton.host (pton : InetPton) (hostname : Bytes) : Host :=
  match pton.inet hostname with
  | some a => .inet a
  | none =>
    match pton.inet6 hostname with
    | some a => .inet6 a
    | none => .name

section Meant

variable (order : ByteOrder) (pton : InetPton)

/-- An address of which the first bits count. -/
inductive Network where
  | inet (a : InAddr) (width : Nat)
  | inet6 (a : In6Addr) (width : Nat)

def Network.Holds : Network → Host → Prop
  | .inet a width, .inet h => Agree width (order.memory a.s_addr) (order.memory h.s_addr)
  | .inet a width, .inet6 h => Mapped h ∧ Agree width (order.memory a.s_addr) (v4Bytes h)
  | .inet6 a width, .inet6 h => Agree width a.s6_addr h.s6_addr
  | _, _ => False

/-- The network of an address entry, or of an address with a width in decimal digits. -/
def network (entry : Bytes) : Option Network :=
  match strchr entry chrSlash with
  | none =>
    match pton.inet entry with
    | some a => some (.inet a 32)
    | none => (pton.inet6 entry).map fun a => .inet6 a 128
  | some slash =>
    let digits := slash.tail
    if digits = [] ∨ ∃ c ∈ digits, isDigit c = false then none
    else
      match pton.inet (strdupTo entry slash) with
      | some a => if decimalValue digits ≤ 32 then some (.inet a (decimalValue digits)) else none
      | none =>
        match pton.inet6 (strdupTo entry slash) with
        | some a => if decimalValue digits ≤ 128 then some (.inet6 a (decimalValue digits)) else none
        | none => none

/-- A name, or a suffix behind an asterisk. -/
def Matches : Bytes → Bytes → Prop
  | 42 :: suffix, hostname => suffix <:+ hostname
  | text, hostname => text = hostname

/-- What the list says: networks for addresses, and names and suffixes in letters of either case. -/
def Covers (entry hostname : Bytes) : Prop :=
  match network pton entry with
  | some net => net.Holds order (pton.host hostname)
  | none => Matches (strdown entry) (strdown hostname)

end Meant

section Read

variable (order : ByteOrder) (pton : InetPton)

/-- An entry as it is read: a width is what `strtol` makes of the text behind the slash, as an `int`. -/
inductive Reading where
  | inet (a : InAddr) (width : Option Int)
  | inet6 (a : In6Addr) (width : Option Int)
  | misfit
  | misfit6 (width : Int)
  | name (text : Bytes)

def reading (entry : Bytes) : Reading :=
  let width (slash : Bytes) : Int × Bool :=
    (ParseLs.toInt (strtolEnd slash.tail).1, (strtolEnd slash.tail).2 = [])
  match strchr entry chrSlash with
  | none =>
    match pton.inet (strdown entry) with
    | some a => .inet a none
    | none =>
      match pton.inet6 (strdown entry) with
      | some a => .inet6 a none
      | none => .name (strdown entry)
  | some slash =>
    match pton.inet (strdupTo entry slash) with
    | some a =>
      if (width slash).2 ∧ 0 ≤ (width slash).1 ∧ (width slash).1 ≤ 32 then .inet a (some (width slash).1) else .misfit
    | none =>
      match pton.inet6 (strdupTo entry slash) with
      | some a =>
        if (width slash).2 ∧ 0 ≤ (width slash).1 ∧ (width slash).1 ≤ 128 then .inet6 a (some (width slash).1)
        else .misfit6 (width slash).1
      | none => .name (strdupTo entry slash)

def Reading.addrs (undefined : Undefined) : Reading → List ProxyHostAddr
  | .inet a none => [{ type := .ipv4, addr := a, mask := ⟨0xffffffff⟩ }]
  | .inet a (some width) =>
    [{ type := .ipv4, addr := ⟨a.s_addr &&& (widthMask order undefined width).s_addr⟩, mask := widthMask order undefined width }]
  | .inet6 a none => [{ type := .ipv6, addr6 := a, mask6 := ones6 }]
  | .inet6 a (some width) =>
    [{ type := .ipv6, addr6 := ipv6NetworkAddr a undefined.mask6, mask6 := mask6Of width }]
  | .misfit | .misfit6 _ | .name _ => []

def Reading.hosts : Reading → List Bytes
  | .name text => [text]
  | _ => []

def Reading.indexes : Reading → List Nat
  | .inet6 _ none => List.range 16
  | .inet6 _ (some width) | .misfit6 width => List.range 16 ++ List.range (lastIndex width) ++ [lastIndex width]
  | _ => []

/-- `parse_ignore_host` adds what the reading of its entry tells. -/
theorem parseIgnoreHost_eq (g : Globals) (undefined : Undefined) (entry : Bytes) :
    parseIgnoreHost order pton g undefined entry =
      ⟨{ g with
          ignoreHosts := g.ignoreHosts ++ (reading pton entry).hosts
          ignoreAddrs := g.ignoreAddrs ++ (reading pton entry).addrs order undefined }, (reading pton entry).indexes⟩ := by
  have choose {α : Type} (end_ : Bytes) (w : Int) (bound : Int) (x y : α) :
      (if end_ ≠ [] ∨ w < 0 ∨ bound < w then x else y) =
        if decide (end_ = []) = true ∧ 0 ≤ w ∧ w ≤ bound then y else x := by
    by_cases fits : end_ = [] ∧ 0 ≤ w ∧ w ≤ bound
    · rw [if_neg (by rintro (other | other) <;> [exact other fits.1; omega]), if_pos (by simpa using fits)]
    · rw [if_pos (by by_contra other; rw [not_or, not_or, not_not] at other; exact fits ⟨other.1, by omega, by omega⟩),
        if_neg (by simpa using fits)]
  simp only [parseIgnoreHost, reading]
  cases strchr entry chrSlash with
  | none =>
    simp only [Option.map_none]
    cases pton.inet (strdown entry) with
    | some a => simp [Reading.addrs, Reading.hosts, Reading.indexes]
    | none =>
      cases pton.inet6 (strdown entry) <;> simp [Reading.addrs, Reading.hosts, Reading.indexes]
  | some slash =>
    simp only [Option.map_some, choose]
    cases pton.inet (strdupTo entry slash) with
    | some a =>
      simp only
      split <;> simp [Reading.addrs, Reading.hosts, Reading.indexes]
    | none =>
      cases pton.inet6 (strdupTo entry slash) with
      | some a =>
        simp only
        split <;> simp [Reading.addrs, Reading.hosts, Reading.indexes]
      | none => simp [Reading.addrs, Reading.hosts, Reading.indexes]

/-- The widths that are read are in range. -/
def Reading.InRange : Reading → Prop
  | .inet _ (some width) => 0 ≤ width ∧ width ≤ 32
  | .inet6 _ (some width) => 0 ≤ width ∧ width ≤ 128
  | _ => True

theorem reading_inRange (entry : Bytes) : (reading pton entry).InRange := by
  simp only [reading]
  repeat' split
  all_goals first
    | exact True.intro
    | rename_i fits; exact fits.2

/-- IPv4 addresses agree under the mask of a width, which is the one of the remaining width. -/
def Complement (undefined : Undefined) (a : InAddr) (width : Int) (h : InAddr) : Prop :=
  if width = 32 then a.s_addr &&& order.htonl undefined.shift = h.s_addr &&& order.htonl undefined.shift
  else Agree (32 - width).toNat (order.memory a.s_addr) (order.memory h.s_addr)

/-- The first bits of an IPv6 host, and none behind them, are what the mask that nothing is stored in
leaves of the address. -/
def Garbled (undefined : Undefined) (a : In6Addr) (width : Int) (h : In6Addr) : Prop :=
  ∀ i < 128, (bit a.s6_addr i && bit undefined.mask6.s6_addr i) = (bit h.s6_addr i && decide ((i : Int) < width))

/-- Whether an entry as it is read reaches a host. -/
def Reading.Reaches (undefined : Undefined) (hostname : Bytes) : Reading → Host → Prop
  | .inet a none, .inet h => Agree 32 (order.memory a.s_addr) (order.memory h.s_addr)
  | .inet a (some width), .inet h => Complement order undefined a width h
  | .inet6 a none, .inet6 h => Agree 128 a.s6_addr h.s6_addr
  | .inet6 a (some width), .inet6 h => Garbled undefined a width h
  | .name text, .name => Matches text (strdown hostname)
  | _, _ => False

theorem and_ones (word : UInt32) : word &&& 0xffffffff = word := by
  apply UInt32.toBitVec_inj.mp
  exact BitVec.and_allOnes

theorem widthMask_eq (undefined : Undefined) {width : Int} (positive : 0 ≤ width) (small : width < 32) :
    (widthMask order undefined width).s_addr = cmask order (32 - width).toNat := by
  have count : 32 - (32 - width).toNat = width.toNat := by omega
  rw [widthMask, if_neg (by omega), cmask, count]

theorem eq_iff_agree6 {a b : In6Addr} : a = b ↔ Agree 128 a.s6_addr b.s6_addr := by
  rw [← v6V6Equal_iff, v6V6Equal, beq_iff_eq]
  constructor
  · rintro rfl
    rfl
  · intro same
    obtain ⟨a, length⟩ := a
    obtain ⟨b, length'⟩ := b
    congr

theorem bit_ipv6NetworkAddr (a mask : In6Addr) (i : Nat) :
    bit (ipv6NetworkAddr a mask).s6_addr i = (bit a.s6_addr i && bit mask.s6_addr i) :=
  bit_zipWith_and (a.length.trans mask.length.symm) i

/-- The mask of a width in range has so many bits set. -/
theorem bit_mask6Of {width : Int} (positive : 0 ≤ width) (small : width ≤ 128) {i : Nat} (inside : i < 128) :
    bit (mask6Of width).s6_addr i = decide ((i : Int) < width) := by
  obtain ⟨w, rfl⟩ := Int.eq_ofNat_of_zero_le positive
  have last : lastIndex (w : Int) = w / 8 := by
    rw [lastIndex, Int.tdiv_eq_ediv_of_nonneg positive]
    omega
  have rest : (8 - (w : Int).tmod 8).toNat = 8 - w % 8 := by
    rw [Int.tmod_eq_emod_of_nonneg positive]
    omega
  have index : i / 8 < 16 := by omega
  have byte : (mask6Of (w : Int)).s6_addr.getD (i / 8) 0 =
      if i / 8 = w / 8 then UInt8.ofNat (0xff <<< (8 - w % 8)) else if i / 8 < w / 8 then 0xff else 0 := by
    simp only [mask6Of, last, rest]
    rw [List.getD_eq_getElem _ _ (by simpa using index), List.getElem_set]
    by_cases here : i / 8 = w / 8
    · rw [if_pos here.symm, if_pos here]
    · rw [if_neg (Ne.symm here), if_neg here]
      simp
  rw [bit, byte]
  by_cases here : i / 8 = w / 8
  · have ones : (0xff : Nat) = 2 ^ 8 - 1 := rfl
    rw [if_pos here, UInt8.toNat_ofNat', Nat.testBit_mod_two_pow, Nat.testBit_shiftLeft, ones,
      Nat.testBit_two_pow_sub_one]
    have first : 7 - i % 8 < 8 := by omega
    have shift : 8 - w % 8 ≤ 7 - i % 8 ↔ (i : Int) < w := by omega
    have low : 7 - i % 8 - (8 - w % 8) < 8 := by omega
    simp [first, shift, low]
  · rw [if_neg here]
    by_cases before_it : i / 8 < w / 8
    · have ones : (0xff : UInt8).toNat = 2 ^ 8 - 1 := rfl
      rw [if_pos before_it, ones, Nat.testBit_two_pow_sub_one]
      have first : 7 - i % 8 < 8 := by omega
      have shift : (i : Int) < w := by omega
      simp [first, shift]
    · rw [if_neg before_it]
      have shift : ¬ (i : Int) < w := by omega
      simp [shift]

variable {order pton} {undefined : Undefined} {hostname : Bytes}

theorem reaches_inet {r : Reading} (inRange : r.InRange) (h : InAddr) :
    (r.addrs order undefined).any (fun addr => addr.type = .ipv4 && h.s_addr &&& addr.mask.s_addr == addr.addr.s_addr) = true ↔
      r.Reaches order undefined hostname (.inet h) := by
  cases r with
  | inet a width =>
    cases width with
    | none =>
      change (true && h.s_addr &&& 0xffffffff == a.s_addr || false) = true ↔ _
      rw [Bool.or_false, Bool.true_and, and_ones, beq_iff_eq, Reading.Reaches, agree_memory]
      exact eq_comm
    | some width =>
      change (true && h.s_addr &&& (widthMask order undefined width).s_addr ==
        a.s_addr &&& (widthMask order undefined width).s_addr || false) = true ↔ _
      rw [Bool.or_false, Bool.true_and]
      by_cases full : width = 32
      · rw [Reading.Reaches, Complement, if_pos full, beq_iff_eq, widthMask, if_pos full]
        exact eq_comm
      · have bounds : 0 ≤ width ∧ width ≤ 32 := inRange
        rw [Reading.Reaches, Complement, if_neg full, widthMask_eq order undefined bounds.1 (by omega)]
        exact (v4V4Match_iff order h a (by omega) (by omega)).trans ⟨Agree.symm, Agree.symm⟩
  | inet6 a width => cases width <;> simp [Reading.addrs, Reading.Reaches]
  | misfit | misfit6 _ | name _ => simp [Reading.addrs, Reading.Reaches]

theorem ipv6NetworkAddr_zero (a : In6Addr) : ipv6NetworkAddr a zero6 = zero6 := by
  rw [eq_iff_agree6]
  intro i inside
  have zero : bit zero6.s6_addr i = false := by
    rw [bit, zero6, List.getD_eq_getElem _ _ (by simp; omega), List.getElem_replicate]
    exact Nat.zero_testBit _
  rw [bit_ipv6NetworkAddr, zero, Bool.and_false]

theorem ipv6NetworkAddr_ones (a : In6Addr) : ipv6NetworkAddr a ones6 = a := by
  rw [eq_iff_agree6]
  intro i inside
  have ones : bit (List.replicate 16 (0xff : UInt8)) i = true := by
    have all : (0xff : UInt8).toNat = 2 ^ 8 - 1 := rfl
    rw [bit, List.getD_eq_getElem _ _ (by simp; omega), List.getElem_replicate, all, Nat.testBit_two_pow_sub_one,
      decide_eq_true_eq]
    omega
  rw [bit_ipv6NetworkAddr, ones6, ones, Bool.and_true]

theorem ignores6_inet (in6 : In6Addr) {addr : ProxyHostAddr} (inet : addr.type = .ipv4) (mask : addr.mask6 = zero6) :
    ignores6 in6 addr = false := by
  have plain : isV4Mapped zero6 = false := by decide
  simp only [ignores6, mask, ipv6NetworkAddr_zero, inet, plain]
  rfl

theorem ignores6_inet6 (in6 : In6Addr) {addr : ProxyHostAddr} (inet6 : addr.type = .ipv6) :
    ignores6 in6 addr = true ↔ ipv6NetworkAddr in6 addr.mask6 = addr.addr6 := by
  simp [ignores6, inet6]

theorem reaches_inet6 {r : Reading} (inRange : r.InRange) (h : In6Addr) :
    (r.addrs order undefined).any (ignores6 h) = true ↔ r.Reaches order undefined hostname (.inet6 h) := by
  cases r with
  | inet a width =>
    cases width with
    | none => simp [Reading.addrs, Reading.Reaches, ignores6_inet]
    | some width => simp [Reading.addrs, Reading.Reaches, ignores6_inet]
  | inet6 a width =>
    cases width with
    | none =>
      rw [Reading.addrs, List.any_cons, List.any_nil, Bool.or_false, ignores6_inet6 h rfl, ipv6NetworkAddr_ones,
        eq_iff_agree6]
      exact ⟨Agree.symm, Agree.symm⟩
    | some width =>
      have bounds : 0 ≤ width ∧ width ≤ 128 := inRange
      rw [Reading.addrs, List.any_cons, List.any_nil, Bool.or_false, ignores6_inet6 h rfl, eq_iff_agree6]
      refine forall₂_congr fun i inside => ?_
      rw [bit_ipv6NetworkAddr, bit_ipv6NetworkAddr, bit_mask6Of bounds.1 bounds.2 inside]
      exact eq_comm
  | misfit | misfit6 _ | name _ => simp [Reading.addrs, Reading.Reaches]

theorem reaches_name (r : Reading) :
    r.hosts.any (ignoresName (strdown hostname)) = true ↔ r.Reaches order undefined hostname .name := by
  cases r with
  | name text =>
    rw [Reading.hosts, List.any_cons, List.any_nil, Bool.or_false]
    cases text with
    | nil => simp [ignoresName, byteAt, Reading.Reaches, Matches, eq_comm]
    | cons c rest =>
      by_cases star : c = 42
      · subst star
        simp [ignoresName, byteAt, Reading.Reaches, Matches]
      · simp [ignoresName, byteAt, Reading.Reaches, Matches, star, eq_comm]
  | inet a width | inet6 a width => cases width <;> simp [Reading.hosts, Reading.Reaches]
  | misfit | misfit6 _ => simp [Reading.hosts, Reading.Reaches]

variable (order pton)

theorem parseIgnoreHosts_eq (g : Globals) (entries : List (Undefined × Bytes)) :
    parseIgnoreHosts order pton g entries =
      ⟨{ g with
          ignoreHosts := g.ignoreHosts ++ entries.flatMap fun e => (reading pton e.2).hosts
          ignoreAddrs := g.ignoreAddrs ++ entries.flatMap fun e => (reading pton e.2).addrs order e.1 },
        entries.flatMap fun e => (reading pton e.2).indexes⟩ := by
  induction entries generalizing g with
  | nil => simp [parseIgnoreHosts]
  | cons e rest ih => simp only [parseIgnoreHosts, parseIgnoreHost_eq, ih, List.flatMap_cons, List.append_assoc]

theorem proxyShould_iff (httpProxy : Option Bytes) (entries : List (Undefined × Bytes)) (hostname : Bytes) :
    proxyShouldForHostname pton (parseIgnoreHosts order pton { httpProxy } entries).globals hostname = false ↔
      ∃ e ∈ entries, (reading pton e.2).Reaches order e.1 hostname (pton.host hostname) := by
  rw [parseIgnoreHosts_eq, proxyShouldForHostname, InetPton.host]
  cases pton.inet hostname with
  | some h =>
    simp only [List.nil_append, Bool.not_eq_false', List.any_flatMap, List.any_eq_true]
    refine exists_congr fun e => and_congr_right fun _ => ?_
    rw [← List.any_eq_true]
    exact reaches_inet (reading_inRange pton e.2) h
  | none =>
    simp only
    cases pton.inet6 hostname with
    | some h =>
      simp only [List.nil_append, Bool.not_eq_false', List.any_flatMap, List.any_eq_true]
      refine exists_congr fun e => and_congr_right fun _ => ?_
      rw [← List.any_eq_true]
      exact reaches_inet6 (reading_inRange pton e.2) h
    | none =>
      simp only [List.nil_append, Bool.not_eq_false', List.any_flatMap, List.any_eq_true]
      refine exists_congr fun e => and_congr_right fun _ => ?_
      rw [← List.any_eq_true]
      exact reaches_name _

/-- A width behind an IPv6 address for which more than the sixteen bytes of the mask are stored. -/
def TooWide (entry : Bytes) : Prop :=
  match reading pton entry with
  | .inet6 _ (some width) | .misfit6 width => 128 ≤ width
  | _ => False

theorem indexes_inside (entry : Bytes) :
    (∀ i ∈ (reading pton entry).indexes, i < 16) ↔ ¬ TooWide pton entry := by
  have bytes (width : Int) : lastIndex width < 16 ↔ ¬ 128 ≤ width := by
    rw [lastIndex]
    rcases Int.le_total 0 width with positive | negative
    · rw [Int.tdiv_eq_ediv_of_nonneg positive]
      omega
    · have low := Int.tdiv_nonneg (show 0 ≤ -width by omega) (show (0 : Int) ≤ 8 by decide)
      rw [Int.neg_tdiv] at low
      omega
  have stores (width : Int) : (∀ i ∈ List.range 16 ++ List.range (lastIndex width) ++ [lastIndex width], i < 16) ↔
      ¬ 128 ≤ width := by
    rw [← bytes]
    simp only [List.mem_append, List.mem_range, List.mem_singleton]
    constructor
    · exact fun all => all _ (Or.inr rfl)
    · rintro last i ((first | full) | rfl)
      · exact first
      · omega
      · exact last
  rw [TooWide]
  cases reading pton entry with
  | inet a width => cases width <;> simp [Reading.indexes]
  | inet6 a width =>
    cases width with
    | none => simp [Reading.indexes]
    | some width => exact stores width
  | misfit6 width => exact stores width
  | misfit | name _ => simp [Reading.indexes]

theorem strtolEnd_digits {digits : Bytes} (some_digit : digits ≠ []) (all : ¬ ∃ c ∈ digits, isDigit c = false)
    (small : decimalValue digits ≤ 128) :
    ParseLs.toInt (strtolEnd digits).1 = decimalValue digits ∧ (strtolEnd digits).2 = [] := by
  have value := ParseLs.scanInt_digits some_digit (s := digits) fun c member => by
    by_contra other
    exact all ⟨c, member, by simpa using other⟩
  simp only [strtolEnd, value, and_true]
  have clamped : ParseLs.clampLong (decimalValue digits) = decimalValue digits := by
    simp only [ParseLs.clampLong]
    omega
  rw [clamped, ParseLs.toInt]
  exact Int.bmod_eq_of_le (by omega) (by omega)

theorem reading_inet {entry : Bytes} {a : InAddr} {width : Nat} (net : network pton entry = some (.inet a width)) :
    reading pton entry = .inet a none ∧ width = 32 ∨ reading pton entry = .inet a (some width) := by
  simp only [network] at net
  simp only [reading, pton.caseless, pton.caseless6]
  cases split : strchr entry chrSlash with
  | none =>
    simp only [split] at net
    cases found : pton.inet entry with
    | some b =>
      simp only [found, Option.some.injEq, Network.inet.injEq] at net
      exact Or.inl ⟨by rw [net.1], net.2.symm⟩
    | none =>
      simp only [found, Option.map_eq_some_iff, reduceCtorEq, and_false, exists_false] at net
  | some slash =>
    simp only [split] at net
    split at net
    next => cases net
    next digits =>
      rw [not_or] at digits
      cases found : pton.inet (strdupTo entry slash) with
      | some b =>
        simp only [found] at net
        split at net
        next small =>
          simp only [Option.some.injEq, Network.inet.injEq] at net
          have ⟨value, ended⟩ := strtolEnd_digits digits.1 digits.2 (by omega)
          simp only [found, value, ended]
          rw [if_pos ⟨by simp, by omega, by omega⟩, net.1, net.2]
          exact Or.inr rfl
        next => cases net
      | none =>
        simp only [found] at net
        split at net
        next => split at net <;> cases net
        next => cases net

theorem reading_inet6 {entry : Bytes} {a : In6Addr} {width : Nat} (net : network pton entry = some (.inet6 a width)) :
    reading pton entry = .inet6 a none ∧ width = 128 ∨ reading pton entry = .inet6 a (some width) := by
  simp only [network] at net
  simp only [reading, pton.caseless, pton.caseless6]
  cases split : strchr entry chrSlash with
  | none =>
    simp only [split] at net
    cases found : pton.inet entry with
    | some b => simp only [found, Option.some.injEq, reduceCtorEq] at net
    | none =>
      simp only [found, Option.map_eq_some_iff, Network.inet6.injEq] at net
      obtain ⟨b, found6, rfl, rfl⟩ := net
      simp [found6]
  | some slash =>
    simp only [split] at net
    split at net
    next => cases net
    next digits =>
      rw [not_or] at digits
      cases found : pton.inet (strdupTo entry slash) with
      | some b =>
        simp only [found] at net
        split at net <;> cases net
      | none =>
        simp only [found] at net
        cases found6 : pton.inet6 (strdupTo entry slash) with
        | some b =>
          simp only [found6] at net
          split at net
          next small =>
            simp only [Option.some.injEq, Network.inet6.injEq] at net
            have ⟨value, ended⟩ := strtolEnd_digits digits.1 digits.2 small
            simp only [found, found6, value, ended]
            rw [if_pos ⟨by simp, by omega, by omega⟩, net.1, net.2]
            exact Or.inr rfl
          next => cases net
        | none => simp [found6] at net

theorem reading_of_network_none {entry : Bytes} (net : network pton entry = none) :
    (∀ a, reading pton entry ≠ .inet a none) ∧ ∀ a, reading pton entry ≠ .inet6 a none := by
  simp only [network] at net
  simp only [reading, pton.caseless, pton.caseless6]
  cases split : strchr entry chrSlash with
  | none =>
    simp only [split] at net
    cases found : pton.inet entry with
    | some b => simp [found] at net
    | none =>
      simp only [found, Option.map_eq_none_iff] at net
      simp [net]
  | some slash =>
    simp only
    constructor
    all_goals
      intro a
      repeat' split
      all_goals simp

/-- An entry that reaches a host and is not meant to, or the other way round: an IPv4 network whose mask
is that of the remaining width, an IPv6 network whose address is garbled, an IPv4 network in front of a mapped
address, a width that is no number but read as one, a text cut at a slash, and any text in front of an address. -/
def Misread (undefined : Undefined) (entry hostname : Bytes) : Prop :=
  match network pton entry, reading pton entry, pton.host hostname with
  | some (.inet a width), .inet _ (some _), .inet h =>
    ¬ (Agree width (order.memory a.s_addr) (order.memory h.s_addr) ↔ Complement order undefined a width h)
  | some (.inet6 a width), .inet6 _ (some _), .inet6 h =>
    ¬ (Agree width a.s6_addr h.s6_addr ↔ Garbled undefined a width h)
  | some (.inet a width), _, .inet6 h => Mapped h ∧ Agree width (order.memory a.s_addr) (v4Bytes h)
  | some _, _, _ => False
  | none, .inet a (some width), .inet h =>
    ¬ (Matches (strdown entry) (strdown hostname) ↔ Complement order undefined a width h)
  | none, .inet6 a (some width), .inet6 h =>
    ¬ (Matches (strdown entry) (strdown hostname) ↔ Garbled undefined a width h)
  | none, .name text, .name => ¬ (Matches (strdown entry) (strdown hostname) ↔ Matches text (strdown hostname))
  | none, _, _ => Matches (strdown entry) (strdown hostname)

/-- An entry reaches the hosts that it covers, but for the ones it is misread for. -/
theorem reaches_iff (undefined : Undefined) (entry hostname : Bytes) :
    (reading pton entry).Reaches order undefined hostname (pton.host hostname) ↔
      ¬ (Covers order pton entry hostname ↔ Misread order pton undefined entry hostname) := by
  rw [Covers, Misread]
  cases net : network pton entry with
  | some net' =>
    cases net' with
    | inet a width =>
      rcases reading_inet pton net with ⟨read, rfl⟩ | read
      · rw [read]
        cases pton.host hostname <;> simp [Reading.Reaches, Network.Holds]
      · rw [read]
        cases pton.host hostname with
        | inet h =>
          simp only [Reading.Reaches, Network.Holds]
          tauto
        | inet6 h | name => simp [Reading.Reaches, Network.Holds]
    | inet6 a width =>
      rcases reading_inet6 pton net with ⟨read, rfl⟩ | read
      · rw [read]
        cases pton.host hostname <;> simp [Reading.Reaches, Network.Holds]
      · rw [read]
        cases pton.host hostname with
        | inet6 h =>
          simp only [Reading.Reaches, Network.Holds]
          tauto
        | inet h | name => simp [Reading.Reaches, Network.Holds]
  | none =>
    have ⟨no_inet, no_inet6⟩ := reading_of_network_none pton net
    cases read : reading pton entry with
    | inet a width =>
      cases width with
      | none => exact absurd read (no_inet a)
      | some width =>
        cases pton.host hostname with
        | inet h =>
          simp only [Reading.Reaches]
          tauto
        | inet6 h | name => simp [Reading.Reaches]
    | inet6 a width =>
      cases width with
      | none => exact absurd read (no_inet6 a)
      | some width =>
        cases pton.host hostname with
        | inet6 h =>
          simp only [Reading.Reaches]
          tauto
        | inet h | name => simp [Reading.Reaches]
    | misfit | misfit6 width => cases pton.host hostname <;> simp [Reading.Reaches]
    | name text =>
      cases pton.host hostname with
      | name =>
        simp only [Reading.Reaches]
        tauto
      | inet h | inet6 h => simp [Reading.Reaches]

end Read

/-- The list is decided as it is meant to be, with all indexes inside, exactly where no IPv6 entry
has a width of 128 or more and either some entry covers the host and is read rightly for it, or one covers it
and another is misread to do so, or none covers it and none is misread. -/
theorem proxy_exceptions_decided (order : ByteOrder) (pton : InetPton) (httpProxy : Option Bytes)
    (entries : List (Undefined × Bytes)) (hostname : Bytes) :
    ((∀ i ∈ (parseIgnoreHosts order pton { httpProxy } entries).indexes, i < 16) ∧
      (proxyShouldForHostname pton (parseIgnoreHosts order pton { httpProxy } entries).globals hostname = false ↔
        ∃ e ∈ entries, Covers order pton e.2 hostname)) ↔
    (∀ e ∈ entries, ¬ TooWide pton e.2) ∧
      ((∃ e ∈ entries, Covers order pton e.2 hostname ∧ ¬ Misread order pton e.1 e.2 hostname) ∨
        (∃ e ∈ entries, Covers order pton e.2 hostname) ∧
          (∃ e ∈ entries, ¬ Covers order pton e.2 hostname ∧ Misread order pton e.1 e.2 hostname) ∨
        ∀ e ∈ entries, ¬ Covers order pton e.2 hostname ∧ ¬ Misread order pton e.1 e.2 hostname) := by
  have reached : (∃ e ∈ entries, (reading pton e.2).Reaches order e.1 hostname (pton.host hostname)) ↔
      (∃ e ∈ entries, Covers order pton e.2 hostname ∧ ¬ Misread order pton e.1 e.2 hostname) ∨
        ∃ e ∈ entries, ¬ Covers order pton e.2 hostname ∧ Misread order pton e.1 e.2 hostname := by
    rw [← exists_or]
    refine exists_congr fun e => ?_
    rw [← and_or_left, reaches_iff]
    tauto
  rw [proxyShould_iff, reached]
  refine and_congr ?_ ?_
  · simp only [parseIgnoreHosts_eq, List.mem_flatMap, forall_exists_index, and_imp]
    constructor
    · exact fun all e member => (indexes_inside pton e.2).mp fun i stored => all i e member stored
    · exact fun all i e member stored => (indexes_inside pton e.2).mpr (all e member) i stored
  · constructor
    · intro same
      by_cases covered : ∃ e ∈ entries, Covers order pton e.2 hostname
      · rcases same.mpr covered with right | wrong
        · exact Or.inl right
        · exact Or.inr (Or.inl ⟨covered, wrong⟩)
      · refine Or.inr (Or.inr fun e member => ?_)
        have uncovered : ¬ Covers order pton e.2 hostname := fun covers => covered ⟨e, member, covers⟩
        exact ⟨uncovered, fun misread => covered (same.mp (Or.inr ⟨e, member, uncovered, misread⟩))⟩
    · rintro (⟨e, member, covers, right⟩ | ⟨covered, wrong⟩ | none)
      · exact ⟨fun _ => ⟨e, member, covers⟩, fun _ => Or.inl ⟨e, member, covers, right⟩⟩
      · exact ⟨fun _ => covered, fun _ => Or.inr wrong⟩
      · constructor
        · rintro (⟨e, member, covers, -⟩ | ⟨e, member, -, misread⟩)
          · exact absurd covers (none e member).1
          · exact absurd misread (none e member).2
        · rintro ⟨e, member, covers⟩
          exact absurd covers (none e member).1

/-- Two addresses of one network. -/
def tenAddr (s : Bytes) : Option InAddr :=
  if strdown s = ascii "10.0.0.0" then some ⟨0x0000000a⟩
  else if strdown s = ascii "10.1.2.3" then some ⟨0x0302010a⟩ else none

theorem tenAddr_strdown (s : Bytes) : tenAddr (strdown s) = tenAddr s := by
  rw [tenAddr, tenAddr, strdown_strdown]

def noAddr6 (_ : Bytes) : Option In6Addr := none

theorem noAddr6_strdown (s : Bytes) : noAddr6 (strdown s) = noAddr6 s := rfl

/-- An `inet_pton` that knows these two. -/
def tenNet : InetPton := ⟨tenAddr, noAddr6, tenAddr_strdown, noAddr6_strdown⟩

/-- A host of `10.0.0.0/8` is sent to the proxy: the mask has 24 bits. -/
theorem wide_network_is_narrowed :
    ¬ (proxyShouldForHostname tenNet (parseIgnoreHosts .little tenNet {} [(⟨0, zero6⟩, ascii "10.0.0.0/8")]).globals
        (ascii "10.1.2.3") = false ↔
      ∃ e ∈ [((⟨0, zero6⟩ : Undefined), ascii "10.0.0.0/8")], Covers .little tenNet e.2 (ascii "10.1.2.3")) := by
  have sent : proxyShouldForHostname tenNet
      (parseIgnoreHosts .little tenNet {} [(⟨0, zero6⟩, ascii "10.0.0.0/8")]).globals (ascii "10.1.2.3") = true := by
    decide
  have covered : Covers .little tenNet (ascii "10.0.0.0/8") (ascii "10.1.2.3") := by
    change Agree 8 (ByteOrder.little.memory 0x0000000a) (ByteOrder.little.memory 0x0302010a)
    decide
  intro claimed
  have past := claimed.mpr ⟨_, List.mem_singleton_self _, covered⟩
  rw [sent] at past
  cases past

end GnomeVfs.HttpProxy
