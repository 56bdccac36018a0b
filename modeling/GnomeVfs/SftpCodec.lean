import GnomeVfs.SftpBuffer

/- What is written into a message is read back from it, in the same order. -/
namespace GnomeVfs.Sftp.Wire

section Reading

variable {b : Buffer} {bytes rest : Bytes} (stale heap : Nat → UInt8)

/-- What is still to be read. -/
def Buffer.ahead (b : Buffer) : Bytes := b.written.drop b.readPtr

def Buffer.advance (b : Buffer) (n : Nat) : Buffer := { b with readPtr := b.readPtr + n }

@[simp] theorem Buffer.advance_written (b : Buffer) (n : Nat) : (b.advance n).written = b.written := rfl

@[simp] theorem Buffer.advance_readPtr (b : Buffer) (n : Nat) : (b.advance n).readPtr = b.readPtr + n := rfl

@[simp] theorem Buffer.advance_advance (b : Buffer) (n m : Nat) : (b.advance n).advance m = b.advance (n + m) := by
  simp only [Buffer.advance, Nat.add_assoc]

theorem Buffer.ahead_advance (here : b.ahead = bytes ++ rest) : (b.advance bytes.length).ahead = rest := by
  rw [Buffer.ahead, Buffer.advance_written, Buffer.advance_readPtr, ← List.drop_drop]
  show b.ahead.drop bytes.length = rest
  rw [here, List.drop_left]

theorem bufferRead_eq (here : b.ahead = bytes ++ rest) : bufferRead b bytes.length = (bytes, b.advance bytes.length) := by
  have enough : bytes.length ≤ b.writePtr - b.readPtr := by
    have length := congrArg List.length here
    rw [Buffer.ahead, List.length_drop, List.length_append] at length
    rw [Buffer.writePtr]
    omega
  rw [bufferRead, Nat.min_eq_left enough]
  refine Prod.ext ?_ rfl
  show b.ahead.take bytes.length = bytes
  rw [here, List.take_left]

theorem copiedOver_full {size : Nat} (full : bytes.length = size) : copiedOver stale size bytes = bytes := by
  rw [copiedOver, full, Nat.sub_self, List.range'_zero, List.map_nil, List.append_nil]

theorem bufferReadGchar_eq {c : UInt8} (here : b.ahead = c :: rest) : bufferReadGchar stale b = (c, b.advance 1) := by
  have read : bufferRead b 1 = ([c], b.advance 1) := @bufferRead_eq b [c] rest here
  rw [bufferReadGchar, read, copiedOver_full stale (by rfl)]
  rfl

theorem bufferReadGint32_eq {word : UInt32} (here : b.ahead = BigEndian.encode 4 word.toNat ++ rest) :
    bufferReadGint32 stale b = (word, b.advance 4) := by
  have read := bufferRead_eq here
  rw [BigEndian.length_encode] at read
  rw [bufferReadGint32, read, copiedOver_full stale (BigEndian.length_encode 4 _),
    BigEndian.decode_encode_of_lt word.toNat_lt, UInt32.ofNat_toNat]

theorem bufferReadGint64_eq {word : UInt64} (here : b.ahead = BigEndian.encode 8 word.toNat ++ rest) :
    bufferReadGint64 stale b = (word, b.advance 8) := by
  have read := bufferRead_eq here
  rw [BigEndian.length_encode] at read
  rw [bufferReadGint64, read, copiedOver_full stale (BigEndian.length_encode 8 _),
    BigEndian.decode_encode_of_lt word.toNat_lt, UInt64.ofNat_toNat]

theorem Buffer.ahead_word {word : UInt32} (here : b.ahead = BigEndian.encode 4 word.toNat ++ rest) :
    (b.advance 4).ahead = rest := by
  have behind := Buffer.ahead_advance here
  rwa [BigEndian.length_encode] at behind

/-- The bytes of a block or a string, behind their length. -/
def lengthPrefixed (bytes : Bytes) : Bytes := BigEndian.encode 4 bytes.length ++ bytes

@[simp] theorem length_lengthPrefixed (bytes : Bytes) : (lengthPrefixed bytes).length = 4 + bytes.length := by
  rw [lengthPrefixed, List.length_append, BigEndian.length_encode]

theorem bufferReadBlock_eq (few : bytes.length < 2 ^ 31) (here : b.ahead = lengthPrefixed bytes ++ rest) :
    bufferReadBlock stale heap b = some (bytes, b.advance (lengthPrefixed bytes).length) := by
  have fits : (UInt32.ofNat bytes.length).toNat = bytes.length := UInt32.toNat_ofNat_of_lt' (by
    show bytes.length < 2 ^ 32
    omega)
  rw [lengthPrefixed, List.append_assoc, ← fits] at here
  have read := bufferRead_eq (Buffer.ahead_word here)
  rw [bufferReadBlock, bufferReadGint32_eq stale here]
  dsimp only
  rw [fits, if_neg (by omega), read, copiedOver_full heap rfl, Buffer.advance_advance, length_lengthPrefixed]

theorem bufferReadString_eq (few : bytes.length < 2 ^ 31) (here : b.ahead = lengthPrefixed bytes ++ rest) :
    bufferReadString stale heap b = some (bytes ++ [0], b.advance (lengthPrefixed bytes).length) := by
  rw [bufferReadString, bufferReadBlock_eq stale heap few here]
  rfl

end Reading

section Writing

/-- The most memory that a buffer can have. -/
def maxAlloc : Nat := 2 ^ 30

/-- The sizes that a buffer can have. -/
def allocOf (k : Nat) : Nat := initBufferAlloc * 2 ^ k

theorem allocOf_succ (k : Nat) : allocOf (k + 1) = allocOf k * 2 := by
  rw [allocOf, allocOf, pow_succ, Nat.mul_assoc]

theorem allocOf_le {k : Nat} (below : k ≤ 23) : allocOf k ≤ maxAlloc :=
  Nat.mul_le_mul_left initBufferAlloc (Nat.pow_le_pow_right (by decide) below)

theorem gint_doubled {k : Nat} (small : k < 23) : gint (allocOf k * 2) = allocOf (k + 1) := by
  have bound : allocOf (k + 1) ≤ 2 ^ 30 := allocOf_le small
  rw [allocOf_succ] at bound ⊢
  rw [gint_eq_self (by omega) (by omega)]
  omega

/-- As long as a `gint` can hold it, there is memory enough. -/
theorem growLoop_some {needed : Int} (small : needed ≤ maxAlloc) : ∀ (fuel k : Nat), k ≤ 23 → 23 - k < fuel →
    ∃ m ≤ 23, growLoop fuel needed (allocOf k) = some (allocOf m) ∧ needed ≤ allocOf m := by
  intro fuel
  induction fuel with
  | zero =>
    intro k _ never
    omega
  | succ fuel ih =>
    intro k below enough
    rw [growLoop]
    split
    · rename_i more
      have again : k < 23 := by
        by_contra last
        have top : k = 23 := by omega
        subst top
        have all : allocOf 23 = maxAlloc := by decide
        omega
      rw [gint_doubled again, if_neg (by omega)]
      exact ih (k + 1) again (by omega)
    · exact ⟨k, below, rfl, by omega⟩

theorem growLoop_none {needed : Int} (large : maxAlloc < needed) : ∀ (fuel k : Nat), k ≤ 23 →
    growLoop fuel needed (allocOf k) = none := by
  intro fuel
  induction fuel with
  | zero => exact fun _ _ => rfl
  | succ fuel ih =>
    intro k below
    have bound := allocOf_le below
    rw [growLoop, if_pos (by omega)]
    rcases Nat.lt_or_eq_of_le below with again | rfl
    · split
      · rfl
      · rw [gint_doubled again]
        exact ih (k + 1) again
    · exact if_pos (by decide)

/-- A buffer as `buffer_check_alloc` leaves it: the pointers are in its memory, which has been doubled
some times. -/
structure Buffer.Fits (b : Buffer) : Prop where
  header : headerSize ≤ b.readPtr
  ordered : b.readPtr ≤ b.writePtr
  inside : (b.writePtr : Int) ≤ b.alloc
  doubled : ∃ k ≤ 23, b.alloc = allocOf k

theorem bufferInit_fits : bufferInit.Fits := ⟨by decide, by decide, by decide, 0, by decide, by decide⟩

/-- A buffer behind writing. -/
structure Wrote (b : Buffer) (bytes : Bytes) (c : Buffer) : Prop where
  written : c.written = b.written ++ bytes
  readPtr : c.readPtr = b.readPtr
  fits : c.Fits

variable {b c d : Buffer} {bytes more : Bytes}

theorem Wrote.trans (first : Wrote b bytes c) (second : Wrote c more d) : Wrote b (bytes ++ more) d := by
  refine ⟨?_, second.readPtr.trans first.readPtr, second.fits⟩
  rw [second.written, first.written, List.append_assoc]

theorem Wrote.writePtr (wrote : Wrote b bytes c) : c.writePtr = b.writePtr + bytes.length := by
  rw [Buffer.writePtr, wrote.written, List.length_append]
  rfl

theorem Wrote.ahead (wrote : Wrote b bytes c) (n : Nat) (there : b.readPtr + n = b.writePtr) :
    (c.advance n).ahead = bytes := by
  rw [Buffer.ahead, Buffer.advance_written, Buffer.advance_readPtr, wrote.readPtr, there, wrote.written]
  exact List.drop_left

theorem bufferWrite_some (fits : b.Fits) (room : b.writePtr + bytes.length ≤ maxAlloc) :
    ∃ c, bufferWrite b bytes = some c ∧ Wrote b bytes c := by
  obtain ⟨k, below, alloc⟩ := fits.doubled
  obtain ⟨m, doubled, grown, enough⟩ := @growLoop_some (b.writePtr + bytes.length) (by omega) 32 k below (by omega)
  refine ⟨{ b with written := b.written ++ bytes, alloc := allocOf m }, ?_, rfl, rfl, fits.header, ?_, ?_, m, doubled, rfl⟩
  · rw [bufferWrite, bufferCheckAlloc, alloc, grown]
    rfl
  · have ordered := fits.ordered
    simp only [Buffer.writePtr, List.length_append] at ordered ⊢
    omega
  · simp only [Buffer.writePtr, List.length_append] at enough ⊢
    omega

theorem bufferWrite_none (fits : b.Fits) (large : maxAlloc < b.writePtr + bytes.length) : bufferWrite b bytes = none := by
  obtain ⟨k, below, alloc⟩ := fits.doubled
  rw [bufferWrite, bufferCheckAlloc, alloc, growLoop_none (by omega) 32 k below]
  rfl

theorem bufferWriteGint32_some (fits : b.Fits) (word : UInt32) (room : b.writePtr + 4 ≤ maxAlloc) :
    ∃ c, bufferWriteGint32 b word = some c ∧ Wrote b (BigEndian.encode 4 word.toNat) c :=
  bufferWrite_some fits (by rwa [BigEndian.length_encode])

theorem bufferWriteBlock_some (fits : b.Fits) (few : bytes.length < 2 ^ 32)
    (room : b.writePtr + (lengthPrefixed bytes).length ≤ maxAlloc) :
    ∃ c, bufferWriteBlock b bytes (UInt32.ofNat bytes.length) = some c ∧ Wrote b (lengthPrefixed bytes) c := by
  have length : (UInt32.ofNat bytes.length).toNat = bytes.length := UInt32.toNat_ofNat_of_lt' few
  rw [length_lengthPrefixed] at room
  obtain ⟨c, word, first⟩ := bufferWriteGint32_some fits (UInt32.ofNat bytes.length) (by omega)
  have place := first.writePtr
  rw [BigEndian.length_encode] at place
  obtain ⟨d, data, second⟩ := @bufferWrite_some c bytes first.fits (by omega)
  refine ⟨d, ?_, ?_⟩
  · rw [bufferWriteBlock, word, length, List.take_length]
    exact data
  · have both := first.trans second
    rwa [length] at both

end Writing

section RoundTrip

/-- What the functions write and read. -/
inductive Value where
  | gchar (data : UInt8)
  | gint32 (data : UInt32)
  | gint64 (data : UInt64)
  | block (data : Bytes)
  | string (data : Bytes)
  deriving DecidableEq

inductive Kind where
  | gchar | gint32 | gint64 | block | string
  deriving DecidableEq

def Value.kind : Value → Kind
  | .gchar _ => .gchar
  | .gint32 _ => .gint32
  | .gint64 _ => .gint64
  | .block _ => .block
  | .string _ => .string

/-- A C string has no NUL in it. -/
def Value.Proper : Value → Prop
  | .string data => ∀ c ∈ data, c ≠ 0
  | _ => True

instance : DecidablePred Value.Proper
  | .string data => inferInstanceAs (Decidable (∀ c ∈ data, c ≠ 0))
  | .gchar _ | .gint32 _ | .gint64 _ | .block _ => .isTrue trivial

/-- The bytes of a value in a message. -/
def Value.bytes : Value → Bytes
  | .gchar data => [data]
  | .gint32 data => BigEndian.encode 4 data.toNat
  | .gint64 data => BigEndian.encode 8 data.toNat
  | .block data | .string data => lengthPrefixed data

def Value.write (b : Buffer) : Value → Option Buffer
  | .gchar data => bufferWriteGchar b data
  | .gint32 data => bufferWriteGint32 b data
  | .gint64 data => bufferWriteGint64 b data
  | .block data => bufferWriteBlock b data (UInt32.ofNat data.length)
  | .string data => bufferWriteString b data

/-- The string that begins at a pointer. -/
def cString (memory : Bytes) : Bytes := memory.takeWhile (· ≠ 0)

def Kind.read (stale heap : Nat → UInt8) (b : Buffer) : Kind → Option (Value × Buffer)
  | .gchar => some ((bufferReadGchar stale b).map .gchar id)
  | .gint32 => some ((bufferReadGint32 stale b).map .gint32 id)
  | .gint64 => some ((bufferReadGint64 stale b).map .gint64 id)
  | .block => (bufferReadBlock stale heap b).map (Prod.map .block id)
  | .string => (bufferReadString stale heap b).map (Prod.map (.string ∘ cString) id)

def writeValues (b : Buffer) (values : List Value) : Option Buffer := values.foldlM Value.write b

def readValues (stale heap : Nat → UInt8) : Buffer → List Kind → Option (List Value × Buffer)
  | b, [] => some ([], b)
  | b, kind :: rest => do
    let (value, b) ← kind.read stale heap b
    let (values, b) ← readValues stale heap b rest
    return (value :: values, b)

/-- The pointers are where they belong. -/
def Buffer.Bounded (b : Buffer) : Prop :=
  headerSize ≤ b.readPtr ∧ b.readPtr ≤ b.writePtr ∧ (b.writePtr : Int) ≤ b.alloc

/-- The bytes of a sequence of values. -/
def bytesOf (values : List Value) : Bytes := values.flatMap Value.bytes

variable {b c : Buffer} {value : Value} {values : List Value} {rest : Bytes} (stale heap : Nat → UInt8)

theorem cString_terminated {data : Bytes} (proper : ∀ c ∈ data, c ≠ 0) : cString (data ++ [0]) = data := by
  rw [cString, List.takeWhile_append_of_pos (by simpa using proper)]
  simp

theorem Value.write_some (fits : b.Fits) (room : b.writePtr + value.bytes.length ≤ maxAlloc) :
    ∃ c, value.write b = some c ∧ Wrote b value.bytes c := by
  have few : ∀ data : Bytes, b.writePtr + (lengthPrefixed data).length ≤ maxAlloc → data.length < 2 ^ 32 := by
    intro data small
    rw [length_lengthPrefixed, maxAlloc] at small
    omega
  cases value with
  | gchar data => exact bufferWrite_some fits room
  | gint32 data => exact bufferWrite_some fits room
  | gint64 data => exact bufferWrite_some fits room
  | block data => exact bufferWriteBlock_some fits (few data room) room
  | string data => exact bufferWriteBlock_some fits (few data room) room

theorem Value.read_eq (proper : value.Proper) (small : value.bytes.length ≤ maxAlloc) (here : b.ahead = value.bytes ++ rest) :
    value.kind.read stale heap b = some (value, b.advance value.bytes.length) := by
  have few : ∀ data : Bytes, (lengthPrefixed data).length ≤ maxAlloc → data.length < 2 ^ 31 := by
    intro data small
    rw [length_lengthPrefixed, maxAlloc] at small
    omega
  cases value with
  | gchar data =>
    rw [Value.kind, Kind.read, bufferReadGchar_eq stale here]
    rfl
  | gint32 data =>
    rw [Value.kind, Kind.read, bufferReadGint32_eq stale here, Value.bytes, BigEndian.length_encode]
    rfl
  | gint64 data =>
    rw [Value.kind, Kind.read, bufferReadGint64_eq stale here, Value.bytes, BigEndian.length_encode]
    rfl
  | block data =>
    rw [Value.kind, Kind.read, bufferReadBlock_eq stale heap (few data small) here]
    rfl
  | string data =>
    rw [Value.kind, Kind.read, bufferReadString_eq stale heap (few data small) here, Option.map_some, Prod.map, Function.comp,
      cString_terminated proper]
    rfl

theorem writeValues_some (fits : b.Fits) (room : b.writePtr + (bytesOf values).length ≤ maxAlloc) :
    ∃ c, writeValues b values = some c ∧ Wrote b (bytesOf values) c := by
  induction values generalizing b with
  | nil => exact ⟨b, rfl, (List.append_nil _).symm, rfl, fits⟩
  | cons value rest ih =>
    rw [bytesOf, List.flatMap_cons, List.length_append] at room
    obtain ⟨c, wrote, first⟩ := @Value.write_some b value fits (by omega)
    have place := first.writePtr
    obtain ⟨d, others, second⟩ := ih first.fits (by rw [bytesOf]; omega)
    refine ⟨d, ?_, first.trans second⟩
    rw [writeValues, List.foldlM_cons, wrote]
    exact others

theorem readValues_eq (proper : ∀ value ∈ values, value.Proper) (small : (bytesOf values).length ≤ maxAlloc)
    (here : b.ahead = bytesOf values ++ rest) :
    readValues stale heap b (values.map Value.kind) = some (values, b.advance (bytesOf values).length) := by
  induction values generalizing b with
  | nil => rfl
  | cons value others ih =>
    rw [bytesOf, List.flatMap_cons, List.length_append] at small
    rw [bytesOf, List.flatMap_cons, List.append_assoc] at here
    have first := Value.read_eq stale heap (proper value List.mem_cons_self) (by omega) here
    have behind := ih (fun other member => proper other (List.mem_cons_of_mem value member)) (by rw [bytesOf]; omega)
      (Buffer.ahead_advance here)
    rw [List.map_cons, readValues, first]
    simp only [Option.bind_eq_bind, Option.bind_some]
    rw [behind]
    simp only [Option.bind_some, Buffer.advance_advance, bytesOf, List.flatMap_cons, List.length_append]
    rfl

end RoundTrip

end GnomeVfs.Sftp.Wire
