import GnomeVfs.UriAuthority

/- The port behind a host, added up in a `guint`. -/
namespace GnomeVfs

/-- The number that the digits write. -/
def decimalValue (digits : Bytes) : Nat :=
  digits.foldl (fun value c => value * 10 + (c.toNat - 48)) 0

/-- What is written is read back. -/
theorem decimalValue_decimal (n : Nat) : decimalValue (decimal n) = n := by
  have decoded : ∀ digits : List Nat, (∀ d ∈ digits, d < 10) → ∀ start,
      (digits.map fun d => UInt8.ofNat (48 + d)).foldl (fun value c => value * 10 + (c.toNat - 48)) start =
        digits.foldl (fun value d => value * 10 + d) start := by
    intro digits
    induction digits with
    | nil => exact fun _ _ => rfl
    | cons d rest ih =>
      intro small start
      have digit : d < 10 := small d List.mem_cons_self
      have value : (UInt8.ofNat (48 + d)).toNat - 48 = d := by
        rw [UInt8.toNat_ofNat_of_lt' (by change _ < 256; omega)]
        omega
      rw [List.map_cons, List.foldl_cons, List.foldl_cons, value]
      exact ih (fun e member => small e (List.mem_cons_of_mem _ member)) _
  rw [decimalValue, decimal]
  split
  next zero => rw [zero]; rfl
  next positive =>
    rw [decoded _ fun d member => Nat.digits_lt_base (by decide) (List.mem_reverse.mp member)]
    exact foldl_reverse_digits n

theorem decimal_injective : Function.Injective decimal := fun n m same => by
  rw [← decimalValue_decimal n, same, decimalValue_decimal]

theorem isDigit_value {c : UInt8} (digit : isDigit c = true) : (c - 48).toUInt32 = UInt32.ofNat (c.toNat - 48) := by
  rw [isDigit, Bool.and_eq_true, decide_eq_true_eq, decide_eq_true_eq, UInt8.le_iff_toNat_le,
    UInt8.le_iff_toNat_le] at digit
  apply UInt32.toNat_inj.mp
  have low : (48 : UInt8).toNat ≤ c.toNat := digit.1
  have small : c.toNat < 2 ^ 8 := c.toNat_lt
  rw [UInt8.toNat_toUInt32, UInt8.toNat_sub_of_le _ _ (UInt8.le_iff_toNat_le.mpr low),
    UInt32.toNat_ofNat_of_lt' (by change _ < 2 ^ 32; omega)]
  rfl

/-- One round of the loop keeps the sum of a `guint` at the number so far, modulo 2^32. -/
theorem foldl_port (digits : Bytes) (all : ∀ c ∈ digits, isDigit c = true) (start : Nat) :
    digits.foldl (fun port c => port * 10 + (c - 48).toUInt32) (UInt32.ofNat start) =
      UInt32.ofNat (digits.foldl (fun value c => value * 10 + (c.toNat - 48)) start) := by
  induction digits generalizing start with
  | nil => rfl
  | cons c rest ih =>
    rw [List.foldl_cons, List.foldl_cons, isDigit_value (all c (List.mem_cons_self ..)),
      ← ih (fun d member => all d (List.mem_cons_of_mem _ member))]
    simp [UInt32.ofNat_add, UInt32.ofNat_mul]

theorem takeWhile_digits {digits : Bytes} (all : ∀ c ∈ digits, isDigit c = true) (rest : Bytes) :
    (digits ++ chrSlash :: rest).takeWhile isDigit = digits ∧
      (digits ++ chrSlash :: rest).dropWhile isDigit = chrSlash :: rest := by
  have stop : isDigit chrSlash = false := rfl
  rw [List.takeWhile_append_of_pos all, List.dropWhile_append_of_pos all]
  simp [stop]

theorem scanPort_digits {digits : Bytes} (all : ∀ c ∈ digits, isDigit c = true) (rest : Bytes) :
    scanPort (digits ++ chrSlash :: rest) = UInt32.ofNat (decimalValue digits) := by
  rw [scanPort, (takeWhile_digits all rest).1]
  exact foldl_port digits all 0

/-- A host in front of a port: a name without delimiters, or an address in brackets. -/
inductive AuthorityHost : Bytes → Prop where
  | name {host : Bytes} : host ≠ [] → (∀ c ∈ host, c ≠ 0 ∧ c ∉ uriDelimiterAll) → AuthorityHost host
  | address {inner : Bytes} : (∀ c ∈ inner, c ≠ 0 ∧ c ≠ chrAt ∧ c ≠ chrClose ∧ c ≠ chrSlash) →
      AuthorityHost (chrOpen :: inner ++ [chrClose])

namespace AuthorityHost

variable {host : Bytes}

theorem nonempty (shape : AuthorityHost host) : host ≠ [] := by
  cases shape with
  | name some_host _ => exact some_host
  | address _ => simp

theorem splitScan_tail (shape : AuthorityHost host) {port path : Bytes} (tail : HostTail port path) :
    splitScan (host ++ (port ++ path)) = pointer (port ++ path) := by
  cases shape with
  | name _ clean =>
    have apart : ∀ d ∈ uriDelimiterAll, d ∉ host := fun d delimiter member => (clean d member).2 delimiter
    apply splitScan_plain tail
    · intro c member
      refine ⟨(clean c member).1, ?_⟩
      rintro rfl
      exact apart _ (by decide) member
    · exact apart _ (by decide)
    · exact apart _ (by decide)
    · exact apart _ (by decide)
  | @address inner clean =>
    have bytes : ∀ c ∈ chrOpen :: inner ++ chrClose :: [], c ≠ 0 ∧ c ≠ chrSlash := by
      intro c member
      rcases List.mem_append.mp member with front | back
      · rcases List.mem_cons.mp front with rfl | inside
        · decide
        · exact ⟨(clean c inside).1, (clean c inside).2.2.2⟩
      · cases List.mem_singleton.mp back
        decide
    have first : chrClose ∉ chrOpen :: inner := by
      intro member
      rcases List.mem_cons.mp member with same | inside
      · exact absurd same (by decide)
      · exact (clean _ inside).2.2.1 rfl
    have noAt : chrAt ∉ chrOpen :: inner := by
      intro member
      rcases List.mem_cons.mp member with same | inside
      · exact absurd same (by decide)
      · exact (clean _ inside).2.1 rfl
    by_cases colon : chrColon ∈ chrOpen :: inner
    · apply splitScan_colon_first tail bytes first ?_ colon (by simp)
      intro member
      rcases List.mem_append.mp member with front | back
      · exact noAt front
      · exact absurd (List.mem_singleton.mp back) (by decide)
    · exact splitScan_close_first tail bytes first noAt colon (by simp)

end AuthorityHost

/-- `split_toplevel_uri` on a host, a port and a path. The test for a port out of range sees the number
modulo 2^32. -/
theorem splitToplevelUri_digits {host digits : Bytes} (shape : AuthorityHost host)
    (all : ∀ c ∈ digits, isDigit c = true) (rest : Bytes) (after : UInt8) :
    splitToplevelUri (host ++ chrColon :: digits ++ chrSlash :: rest) after =
      if 65535 < decimalValue digits % 2 ^ 32 then SplitUri.failed
      else ⟨some (chrSlash :: rest), some (splitHostName host), none, UInt32.ofNat (decimalValue digits), none⟩ := by
  have tail : HostTail (chrColon :: digits) (chrSlash :: rest) := by
    refine ⟨Or.inr ⟨digits, rfl⟩, ?_, Or.inr ⟨rest, rfl⟩⟩
    intro c member
    rcases List.mem_cons.mp member with rfl | inside
    · decide
    · exact isDigit_delimiters c (all c inside)
  have scanned := shape.splitScan_tail tail
  have no_user : endsUserName (chrColon :: digits ++ chrSlash :: rest) = false := tail.not_endsUserName rfl
  have above : (0xffff : UInt32) < UInt32.ofNat (decimalValue digits) ↔ 65535 < decimalValue digits % 2 ^ 32 := by
    rw [UInt32.lt_iff_toNat_lt, UInt32.toNat_ofNat']
    rfl
  have part : splitHost (host ++ (chrColon :: digits ++ chrSlash :: rest))
      (some (chrColon :: digits ++ chrSlash :: rest)) after =
      if 65535 < decimalValue digits % 2 ^ 32 then none
      else some ⟨some host, UInt32.ofNat (decimalValue digits), chrSlash :: rest⟩ := by
    rw [splitHost]
    simp only [strdupTo_append, List.cons_append, pointsAt_cons, beq_self_eq_true, if_true, List.tail_cons,
      (takeWhile_digits all rest).2, scanPort_digits all rest, above]
    simp [shape.nonempty]
  have some_path : host ++ (chrColon :: digits ++ chrSlash :: rest) ≠ [] := by simp
  rw [List.append_assoc, splitToplevelUri, if_neg some_path, scanned, List.cons_append, pointer]
  dsimp only
  rw [← List.cons_append, no_user, if_neg Bool.false_ne_true, splitFinish, part]
  by_cases out : 65535 < decimalValue digits % 2 ^ 32
  · rw [if_pos out, if_pos out]
  · rw [if_neg out, if_neg out]
    rfl

/-- The port is read as it is written, and refused when it is out of range, exactly when the number does not run
into the range again modulo 2^32. -/
theorem splitToplevelUri_port_iff {host digits : Bytes} (shape : AuthorityHost host)
    (all : ∀ c ∈ digits, isDigit c = true) (rest : Bytes) (after : UInt8) :
    (((splitToplevelUri (host ++ chrColon :: digits ++ chrSlash :: rest) after).text ≠ none ↔
        decimalValue digits ≤ 65535) ∧
      ((splitToplevelUri (host ++ chrColon :: digits ++ chrSlash :: rest) after).text ≠ none →
        (splitToplevelUri (host ++ chrColon :: digits ++ chrSlash :: rest) after).port.toNat = decimalValue digits)) ↔
      (decimalValue digits ≤ 65535 ∨ 65535 < decimalValue digits % 2 ^ 32) := by
  rw [splitToplevelUri_digits shape all rest after]
  by_cases above : 65535 < decimalValue digits % 2 ^ 32
  · have out : ¬ decimalValue digits ≤ 65535 := by
      intro inside
      have := Nat.mod_le (decimalValue digits) (2 ^ 32)
      omega
    have nothing : SplitUri.failed.text = none := rfl
    rw [if_pos above, nothing]
    simp only [ne_eq, not_true_eq_false, out, false_implies, and_self, false_or, true_iff]
    exact above
  · rw [if_neg above]
    simp only [ne_eq, reduceCtorEq, not_false_eq_true, true_iff, true_implies, or_iff_left above, UInt32.toNat_ofNat']
    constructor
    · exact fun right => right.1
    · intro inside
      exact ⟨inside, Nat.mod_eq_of_lt (by omega)⟩

theorem splitToplevelUri_port_host :
    ((splitToplevelUri (ascii "host" ++ chrColon :: ascii "65536" ++ chrSlash :: []) 0).text ≠ none ↔
        decimalValue (ascii "65536") ≤ 65535) ∧
      ((splitToplevelUri (ascii "host" ++ chrColon :: ascii "65536" ++ chrSlash :: []) 0).text ≠ none →
        (splitToplevelUri (ascii "host" ++ chrColon :: ascii "65536" ++ chrSlash :: []) 0).port.toNat =
          decimalValue (ascii "65536")) :=
  (splitToplevelUri_port_iff (.name (by decide) (by decide)) (by decide) [] 0).mpr (Or.inr (by decide))

/-- 2^32 + 80 is taken for port 80. -/
theorem port_runs_over :
    splitToplevelUri (ascii "host" ++ chrColon :: ascii "4294967376" ++ chrSlash :: []) 0 =
        ⟨some (ascii "/"), some (ascii "host"), none, 80, none⟩ ∧
      ¬ decimalValue (ascii "4294967376") ≤ 65535 := by
  decide +kernel

end GnomeVfs
