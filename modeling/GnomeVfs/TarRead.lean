import GnomeVfs.Tar

/- Reading a member of a tar archive, and seeking in it. -/
namespace GnomeVfs.Tar

/-- An `int`. -/
abbrev CInt := { n : Int // -2 ^ 31 ≤ n ∧ n < 2 ^ 31 }

theorem zero_inRange : -2 ^ 31 ≤ (0 : Int) ∧ (0 : Int) < 2 ^ 31 := by decide

def CInt.zero : CInt := ⟨0, zero_inRange⟩

/-- What an `int` sum gives. One that no `int` can be is undefined. -/
def checked (n : Int) : Option CInt := if range : -2 ^ 31 ≤ n ∧ n < 2 ^ 31 then some ⟨n, range⟩ else none

theorem toInt_range (n : Int) : -2 ^ 31 ≤ ParseLs.toInt n ∧ ParseLs.toInt n < 2 ^ 31 := by
  have lower := Int.le_bmod (x := n) (m := 2 ^ 32) (by decide)
  have upper := Int.bmod_lt (x := n) (m := 2 ^ 32) (by decide)
  constructor
  · exact lower
  · exact upper

theorem parseOctalFrom_range {ret : Int} (range : -2 ^ 31 ≤ ret ∧ ret < 2 ^ 31) (str : Bytes) :
    -2 ^ 31 ≤ parseOctalFrom ret str ∧ parseOctalFrom ret str < 2 ^ 31 := by
  induction str generalizing ret with
  | nil => exact range
  | cons c rest ih =>
    rw [parseOctalFrom]
    split
    · exact range
    · split
      · decide
      · exact ih (toInt_range _)

theorem parseOctal_range (str : Bytes) : -2 ^ 31 ≤ parseOctal str ∧ parseOctal str < 2 ^ 31 :=
  parseOctalFrom_range (by decide) str

/-- An integer of another type that is stored in an `int`. -/
def toCInt (n : Int) : CInt := ⟨ParseLs.toInt n, toInt_range n⟩

/-- An `int` that becomes a `size_t` or a `guint64`. -/
def toSize (n : Int) : Nat := (n % 2 ^ 64).toNat

theorem checked_of_lt {a b : CInt} (rising : 0 ≤ (b : Int)) (fits : (a + b : Int) < 2 ^ 31) :
    ∃ sum : CInt, checked (a + b) = some sum ∧ (sum : Int) = a + b := by
  have lower := a.property.1
  exact ⟨⟨a + b, by omega, fits⟩, dif_pos _, rfl⟩

theorem checked_of_le {a b : Int} (overflows : 2 ^ 31 ≤ a + b) : checked (a + b) = none :=
  dif_neg fun range => by omega

theorem toCInt_of_lt {n : Int} (lower : 0 ≤ n) (upper : n < 2 ^ 31) : (toCInt n : Int) = n := by
  change n.bmod (2 ^ 32) = n
  exact Int.bmod_eq_of_le (by omega) (by omega)

theorem toSize_of_nonneg {n : Int} (lower : 0 ≤ n) (upper : n < 2 ^ 64) : toSize n = n.toNat := by
  rw [toSize, Int.emod_eq_of_lt lower upper]

theorem toSize_lt (n : Int) : toSize n < 2 ^ 64 := by
  unfold toSize
  omega

theorem toSize_add {n : Int} {k : Nat} (inside : toSize n + k < 2 ^ 64) : toSize (n + k) = toSize n + k := by
  unfold toSize at inside ⊢
  omega

theorem toCInt_of_toSize {n : Int} (small : toSize n < 2 ^ 31) : (toCInt n : Int) = toSize n := by
  change n.bmod (2 ^ 32) = toSize n
  rw [Int.bmod_def]
  unfold toSize at small ⊢
  omega

/-- The distance of two numbers, one of which does not come before the other as a `size_t`. -/
theorem toSize_sub {n m : Int} {k : Nat} (apart : toSize n = toSize m + k) : toSize (n - m) = k := by
  have below := toSize_lt n
  unfold toSize at apart below ⊢
  omega

/-- `FileHandle`. A block is told by its index; one behind the last has none. -/
structure FileHandle where
  tar : TarFile
  start : Option Nat
  current : Option Nat
  currentOffset : CInt
  currentIndex : Nat
  filename : Bytes
  isDirectory : Bool

/-- `do_open`, on the archive that `ensure_tarfile` gives. -/
def doOpen (tar : TarFile) (stray : UInt8) (text : Bytes) : Except VfsResult FileHandle :=
  match treeLookupEntry tar.blocks tar.infoTree stray text with
  | none => .error .notFound
  | some node =>
    let start := dataOf tar.blocks tar.infoTree node
    if (nameAt tar.blocks start).getLast? = some chrSlash then .error .isDirectory
    else .ok ⟨tar, some start, some start, CInt.zero, start, text, false⟩

/-- One `memcpy` of `do_read`: from which byte behind the start of the member, and how many. -/
structure Copy where
  offset : Int
  length : Nat
  deriving DecidableEq

/-- What a round of the loop of `do_read` changes. -/
structure Reading where
  size : CInt
  currentOffset : CInt
  currentIndex : Nat
  copies : List Copy

def Reading.copy (s : Reading) (wsize : CInt) : Option Reading := do
  let size ← checked (s.size + wsize)
  let currentOffset ← checked (s.currentOffset + wsize)
  return ⟨size, currentOffset, s.currentIndex, s.copies ++ [⟨s.currentOffset, toSize wsize⟩]⟩

def readRound (numBytes : Nat) (maxsize : Int) (i : Nat) (s : Reading) : Option Reading :=
  let left := toSize (maxsize - (s.currentOffset - blockSize))
  if left < blockSize ∧ 0 < left then s.copy (toCInt (maxsize - s.currentOffset + blockSize))
  else do
    let whole ← checked (s.size + blockSize)
    if numBytes < toSize whole then s.copy (toCInt (numBytes - s.size))
    else Reading.copy { s with currentIndex := i + 1 } (toCInt blockSize)

/-- The loop of `do_read`, with so many blocks left in the array. -/
def readLoop (numBytes : Nat) (maxsize : Int) : Nat → Nat → Reading → Option Reading
  | 0, _, s => some s
  | left + 1, i, s =>
    if toSize s.currentOffset < toSize (maxsize + blockSize) ∧ toSize s.size < numBytes then do
      readLoop numBytes maxsize left (i + 1) (← readRound numBytes maxsize i s)
    else some s

/-- A handle that is still on its header goes on to the block behind it. -/
def FileHandle.onward (h : FileHandle) : FileHandle :=
  if h.current = h.start then
    { h with currentIndex := h.currentIndex + 1, currentOffset := toCInt blockSize }
  else h

structure ReadResult where
  result : VfsResult
  handle : FileHandle
  bytesRead : Nat
  copies : List Copy

/-- `do_read`. Nothing is told of a sum that overflows, nor of a file without a header. -/
def doRead (h : FileHandle) (numBytes : Nat) : Option ReadResult :=
  if h.isDirectory then some ⟨.isDirectory, h, 0, []⟩
  else do
    let start ← h.start
    let maxsize := parseOctal (blockAt h.tar.blocks start).size
    let h := h.onward
    let s ← readLoop numBytes maxsize (h.tar.blocks.length - h.currentIndex) h.currentIndex
      ⟨CInt.zero, h.currentOffset, h.currentIndex, []⟩
    let current := if s.currentIndex < h.tar.blocks.length then some s.currentIndex else none
    return ⟨.ok, { h with currentOffset := s.currentOffset, currentIndex := s.currentIndex, current := current },
      toSize s.size, s.copies⟩

inductive SeekPosition where
  | start | current | end_
  deriving DecidableEq

/-- `do_seek`. A file without a header has no end. -/
def doSeek (h : FileHandle) (whence : SeekPosition) (offset : Int) : FileHandle :=
  let currentOffset : Int := match whence with
    | .start => 0
    | .current => h.currentOffset
    | .end_ => parseOctal (blockAt h.tar.blocks (h.start.getD h.tar.blocks.length)).size
  { h with currentOffset := toCInt (currentOffset + offset) }

section Seek

variable (h : FileHandle) (whence : SeekPosition) (offset : Int)

@[simp] theorem doSeek_tar : (doSeek h whence offset).tar = h.tar := rfl

@[simp] theorem doSeek_start : (doSeek h whence offset).start = h.start := rfl

@[simp] theorem doSeek_current : (doSeek h whence offset).current = h.current := rfl

@[simp] theorem doSeek_currentIndex : (doSeek h whence offset).currentIndex = h.currentIndex := rfl

@[simp] theorem doSeek_filename : (doSeek h whence offset).filename = h.filename := rfl

@[simp] theorem doSeek_isDirectory : (doSeek h whence offset).isDirectory = h.isDirectory := rfl

end Seek

/-- `do_tell`. -/
def doTell (h : FileHandle) : Nat := toSize h.currentOffset

section Rounds

/-- How many bytes a call copies, with so many blocks left in the array, so many bytes left to the
member, and so many asked for. -/
def totalRead (blocks left asked : Nat) : Nat :=
  if asked ≤ 512 * (left / 512) then min asked (512 * blocks)
  else if blocks ≤ left / 512 then 512 * blocks else left

/-- How many whole blocks are among them. -/
def wholeBlocks (blocks left asked : Nat) : Nat := min blocks (min (left / 512) (asked / 512))

/-- How many rounds look whether a whole block has been asked for. -/
def roundsAsking (blocks left asked : Nat) : Nat :=
  min blocks (if asked ≤ 512 * (left / 512) then (asked + 511) / 512 else left / 512)

/-- So many bytes, a block each time. -/
def pieces (offset : Int) (total : Nat) : List Copy :=
  (List.range ((total + 511) / 512)).map fun (j : Nat) => ⟨offset + 512 * j, min 512 (total - 512 * j)⟩

variable {blocks left asked : Nat}

theorem totalRead_nothing (nothing : left = 0 ∨ asked = 0) : totalRead blocks left asked = 0 := by
  unfold totalRead
  split <;> [skip; split] <;> omega

theorem totalRead_end (some_left : 0 < left) (short : left < 512) (some_asked : 0 < asked) :
    totalRead (blocks + 1) left asked = left := by
  unfold totalRead
  rw [if_neg (by omega), if_neg (by omega)]

theorem totalRead_part (long : 512 ≤ left) (few : asked < 512) : totalRead (blocks + 1) left asked = asked := by
  unfold totalRead
  rw [if_pos (by omega)]
  omega

theorem totalRead_whole (long : 512 ≤ left) (many : 512 ≤ asked) :
    totalRead (blocks + 1) left asked = 512 + totalRead blocks (left - 512) (asked - 512) := by
  have less : left / 512 = (left - 512) / 512 + 1 := by omega
  unfold totalRead
  rw [less]
  by_cases few : asked ≤ 512 * ((left - 512) / 512 + 1)
  · rw [if_pos few, if_pos (by omega)]
    omega
  · have many' : ¬ asked - 512 ≤ 512 * ((left - 512) / 512) := by omega
    rw [if_neg few, if_neg many']
    by_cases short : blocks ≤ (left - 512) / 512
    · rw [if_pos (Nat.succ_le_succ short), if_pos short]
      omega
    · rw [if_neg (by omega), if_neg short]
      omega

theorem wholeBlocks_nothing (nothing : left < 512 ∨ asked < 512) : wholeBlocks blocks left asked = 0 := by
  unfold wholeBlocks
  omega

theorem wholeBlocks_whole (long : 512 ≤ left) (many : 512 ≤ asked) :
    wholeBlocks (blocks + 1) left asked = wholeBlocks blocks (left - 512) (asked - 512) + 1 := by
  unfold wholeBlocks
  omega

theorem roundsAsking_nothing (nothing : left < 512 ∨ asked = 0) : roundsAsking blocks left asked = 0 := by
  unfold roundsAsking
  split <;> omega

theorem roundsAsking_part (long : 512 ≤ left) (some_asked : 0 < asked) (few : asked < 512) :
    roundsAsking (blocks + 1) left asked = 1 := by
  unfold roundsAsking
  rw [if_pos (by omega)]
  omega

theorem roundsAsking_whole (long : 512 ≤ left) (many : 512 ≤ asked) :
    roundsAsking (blocks + 1) left asked = roundsAsking blocks (left - 512) (asked - 512) + 1 := by
  have less : left / 512 = (left - 512) / 512 + 1 := by omega
  unfold roundsAsking
  rw [less]
  by_cases few : asked ≤ 512 * ((left - 512) / 512 + 1)
  · rw [if_pos few, if_pos (by omega)]
    omega
  · rw [if_neg few, if_neg (by omega)]
    omega

theorem pieces_zero (offset : Int) : pieces offset 0 = [] := rfl

theorem pieces_short {offset : Int} {total : Nat} (some_bytes : 0 < total) (short : total ≤ 512) :
    pieces offset total = [⟨offset, total⟩] := by
  have one : (total + 511) / 512 = 1 := by omega
  rw [pieces, one, List.range_one, List.map_singleton]
  simp only [Nat.cast_zero, mul_zero, add_zero, tsub_zero, min_eq_right short]

theorem pieces_cons (offset : Int) (total : Nat) :
    pieces offset (512 + total) = ⟨offset, 512⟩ :: pieces (offset + 512) total := by
  have more : (512 + total + 511) / 512 = (total + 511) / 512 + 1 := by omega
  rw [pieces, more, List.range_succ_eq_map, List.map_cons, List.map_map, pieces]
  congr 1
  · rw [Copy.mk.injEq]
    omega
  · refine List.map_congr_left fun j _ => ?_
    rw [Function.comp_apply, Copy.mk.injEq]
    omega

end Rounds

section Loop

variable {s s' : Reading} {blocks left asked i numBytes : Nat} {maxsize : Int}

/-- That no sum of a call overflows. -/
structure Reading.Fits (s : Reading) (blocks left asked : Nat) : Prop where
  offset : (s.currentOffset : Int) + totalRead blocks left asked < 2 ^ 31
  size : (s.size : Int) + totalRead blocks left asked < 2 ^ 31
  asking : (s.size : Int) + 512 * roundsAsking blocks left asked < 2 ^ 31

/-- What a call does to the state of its loop. -/
structure Reading.After (s : Reading) (blocks left asked : Nat) (s' : Reading) : Prop where
  size : (s'.size : Int) = s.size + totalRead blocks left asked
  currentOffset : (s'.currentOffset : Int) = s.currentOffset + totalRead blocks left asked
  currentIndex : s'.currentIndex = s.currentIndex + wholeBlocks blocks left asked
  copies : s'.copies = s.copies ++ pieces s.currentOffset (totalRead blocks left asked)

/-- The outcome of the loop: what is told above, unless a sum overflows. -/
def Reading.Gives (s : Reading) (blocks left asked : Nat) (outcome : Option Reading) : Prop :=
  (s.Fits blocks left asked ∧ ∃ s', outcome = some s' ∧ s.After blocks left asked s') ∨
    (¬ s.Fits blocks left asked ∧ outcome = none)

theorem copy_spec {wsize : CInt} {n : Nat} (length : (wsize : Int) = n) (some_bytes : 0 < n) (short : n ≤ 512) :
    (((s.size : Int) + n < 2 ^ 31 ∧ (s.currentOffset : Int) + n < 2 ^ 31) ∧
      ∃ s', s.copy wsize = some s' ∧ (s'.size : Int) = s.size + n ∧ (s'.currentOffset : Int) = s.currentOffset + n ∧
        s'.currentIndex = s.currentIndex ∧ s'.copies = s.copies ++ pieces s.currentOffset n) ∨
    (¬ ((s.size : Int) + n < 2 ^ 31 ∧ (s.currentOffset : Int) + n < 2 ^ 31) ∧ s.copy wsize = none) := by
  have rising : 0 ≤ (wsize : Int) := by omega
  have stored : toSize wsize = n := by
    rw [toSize_of_nonneg rising (by omega), length, Int.toNat_natCast]
  rw [← length]
  by_cases fits : (s.size + wsize : Int) < 2 ^ 31
  · obtain ⟨size, size_eq, size_val⟩ := checked_of_lt rising fits
    by_cases inside : (s.currentOffset + wsize : Int) < 2 ^ 31
    · obtain ⟨offset, offset_eq, offset_val⟩ := checked_of_lt rising inside
      refine Or.inl ⟨⟨fits, inside⟩, ⟨size, offset, s.currentIndex, s.copies ++ [⟨s.currentOffset, toSize wsize⟩]⟩, ?_,
        size_val, offset_val, rfl, ?_⟩
      · rw [Reading.copy, size_eq, Option.bind_eq_bind, Option.bind_some, offset_eq]
        rfl
      · rw [stored, pieces_short some_bytes short]
    · refine Or.inr ⟨fun both => inside both.2, ?_⟩
      rw [Reading.copy, size_eq, Option.bind_eq_bind, Option.bind_some, checked_of_le (by omega)]
      rfl
  · refine Or.inr ⟨fun both => fits both.1, ?_⟩
    rw [Reading.copy, checked_of_le (by omega)]
    rfl

theorem readLoop_full (full : toSize (maxsize + 512) ≤ toSize s.currentOffset) (blocks i : Nat) :
    readLoop numBytes maxsize blocks i s = some s := by
  cases blocks with
  | zero => rfl
  | succ blocks =>
    rw [readLoop, if_neg]
    rintro ⟨before, -⟩
    exact absurd before (Nat.not_lt.mpr full)

theorem readLoop_given (given : numBytes ≤ toSize s.size) (blocks i : Nat) :
    readLoop numBytes maxsize blocks i s = some s := by
  cases blocks with
  | zero => rfl
  | succ blocks =>
    rw [readLoop, if_neg]
    rintro ⟨-, less⟩
    exact absurd less (Nat.not_lt.mpr given)

theorem Reading.stays (total : totalRead blocks left asked = 0) (whole : wholeBlocks blocks left asked = 0)
    (rounds : roundsAsking blocks left asked = 0) : s.Fits blocks left asked ∧ s.After blocks left asked s := by
  have below := s.currentOffset.property.2
  have below' := s.size.property.2
  refine ⟨⟨?_, ?_, ?_⟩, ⟨?_, ?_, ?_, ?_⟩⟩
  · rw [total]
    omega
  · rw [total]
    omega
  · rw [rounds]
    omega
  · rw [total]
    omega
  · rw [total]
    omega
  · rw [whole, add_zero]
  · rw [total, pieces_zero, List.append_nil]

variable (limit : toSize (maxsize + 512) = toSize s.currentOffset + left)
  (request : numBytes = toSize s.size + asked) (going : 0 ≤ (s.size : Int)) (some_left : 0 < left) (some_asked : 0 < asked)

include limit in
theorem left_eq : toSize (maxsize - (s.currentOffset - blockSize)) = left := by
  have apart := toSize_sub limit
  rwa [show maxsize - ((s.currentOffset : Int) - blockSize) = maxsize + 512 - s.currentOffset by
    change maxsize - ((s.currentOffset : Int) - 512) = _
    omega]

include limit some_left in
/-- The last bytes of the member are copied, whatever has been asked for. -/
theorem readRound_end (numBytes i : Nat) (short : left < 512) : ∃ wsize : CInt, (wsize : Int) = left ∧
    readRound numBytes maxsize i s = s.copy wsize := by
  have rest := left_eq limit
  refine ⟨toCInt (maxsize - s.currentOffset + blockSize), ?_, ?_⟩
  · rw [show maxsize - (s.currentOffset : Int) + blockSize = maxsize - (s.currentOffset - blockSize) by omega,
      toCInt_of_toSize (by omega), rest]
  · have branch : left < blockSize ∧ 0 < left := ⟨short, some_left⟩
    simp only [readRound, rest, branch, and_self, ↓reduceIte]

include limit in
theorem readRound_asking (long : 512 ≤ left) : readRound numBytes maxsize i s =
    (checked (s.size + blockSize)).bind fun whole =>
      if numBytes < toSize whole then s.copy (toCInt (numBytes - s.size))
      else Reading.copy { s with currentIndex := i + 1 } (toCInt blockSize) := by
  have rest := left_eq limit
  have branch : ¬ (left < blockSize ∧ 0 < left) := fun both => absurd both.1 (Nat.not_lt.mpr long)
  simp only [readRound, rest, branch, ↓reduceIte]
  rfl

include request going in
theorem asks_whole (fits : (s.size : Int) + 512 < 2 ^ 31) :
    ∃ whole, checked (s.size + blockSize) = some whole ∧ (numBytes < toSize whole ↔ asked < 512) := by
  obtain ⟨whole, whole_eq, whole_val⟩ := checked_of_lt (a := s.size) (b := ⟨512, by decide⟩) (by decide) fits
  change (whole : Int) = s.size + 512 at whole_val
  have size := toSize_of_nonneg going (by omega)
  have whole_size := toSize_of_nonneg (n := whole) (by omega) (by omega)
  refine ⟨whole, whole_eq, ?_⟩
  omega

include limit request going in
theorem readRound_part (long : 512 ≤ left) (few : asked < 512) (fits : (s.size : Int) + 512 < 2 ^ 31) :
    ∃ wsize : CInt, (wsize : Int) = asked ∧ readRound numBytes maxsize i s = s.copy wsize := by
  obtain ⟨whole, whole_eq, asks⟩ := asks_whole request going fits
  have size := toSize_of_nonneg going (by omega)
  refine ⟨toCInt (numBytes - s.size), ?_, ?_⟩
  · rw [show (numBytes : Int) - s.size = asked by omega, toCInt_of_lt (by omega) (by omega)]
  · rw [readRound_asking limit long, whole_eq, Option.bind_some, if_pos (asks.mpr few)]

include limit request going in
theorem readRound_whole (long : 512 ≤ left) (many : 512 ≤ asked) (fits : (s.size : Int) + 512 < 2 ^ 31) :
    readRound numBytes maxsize i s = Reading.copy { s with currentIndex := i + 1 } (toCInt blockSize) := by
  obtain ⟨whole, whole_eq, asks⟩ := asks_whole request going fits
  rw [readRound_asking limit long, whole_eq, Option.bind_some, if_neg fun less => absurd (asks.mp less) (Nat.not_lt.mpr many)]

include limit in
theorem readRound_overflow (long : 512 ≤ left) (overflows : 2 ^ 31 ≤ (s.size : Int) + 512) :
    readRound numBytes maxsize i s = none := by
  rw [readRound_asking limit long]
  change (checked (s.size + 512)).bind _ = _
  rw [checked_of_le overflows]
  rfl

end Loop

section Call

variable {numBytes : Nat} {maxsize : Int}

theorem gives_last {s : Reading} {wsize : CInt} {n i blocks left asked : Nat} (length : (wsize : Int) = n)
    (some_bytes : 0 < n) (short : n ≤ 512) (round : readRound numBytes maxsize i s = s.copy wsize)
    (total : totalRead blocks left asked = n) (whole : wholeBlocks blocks left asked = 0)
    (asking : (s.size : Int) + 512 * roundsAsking blocks left asked < 2 ^ 31)
    (done : ∀ s' : Reading, (s'.size : Int) = s.size + n → (s'.currentOffset : Int) = s.currentOffset + n →
      readLoop numBytes maxsize (blocks - 1) (i + 1) s' = some s') :
    s.Gives blocks left asked
      ((readRound numBytes maxsize i s).bind (readLoop numBytes maxsize (blocks - 1) (i + 1))) := by
  rw [round]
  rcases copy_spec (s := s) length some_bytes short with ⟨fits, s', copied, size, offset, same, copies⟩ | ⟨large, failed⟩
  · rw [copied, Option.bind_some, done s' size offset]
    refine Or.inl ⟨⟨?_, ?_, asking⟩, s', rfl, ?_, ?_, ?_, ?_⟩
    · rw [total]
      exact fits.2
    · rw [total]
      exact fits.1
    · rw [total]
      exact size
    · rw [total]
      exact offset
    · rw [whole]
      exact same
    · rw [total]
      exact copies
  · refine Or.inr ⟨fun fits => large ⟨?_, ?_⟩, by rw [failed]; rfl⟩
    · rw [← total]
      exact fits.size
    · rw [← total]
      exact fits.offset

/-- A round that copies a whole block, and what the rounds behind it do. -/
theorem gives_whole {s : Reading} {i blocks left asked : Nat} (index : s.currentIndex = i)
    (total : totalRead (blocks + 1) left asked = 512 + totalRead blocks (left - 512) (asked - 512))
    (whole : wholeBlocks (blocks + 1) left asked = wholeBlocks blocks (left - 512) (asked - 512) + 1)
    (rounds : roundsAsking (blocks + 1) left asked = roundsAsking blocks (left - 512) (asked - 512) + 1)
    (round : readRound numBytes maxsize i s = Reading.copy { s with currentIndex := i + 1 } (toCInt blockSize))
    (rest : ∀ s' : Reading, s'.currentIndex = i + 1 → (s'.size : Int) = s.size + 512 →
      (s'.currentOffset : Int) = s.currentOffset + 512 →
      s'.Gives blocks (left - 512) (asked - 512) (readLoop numBytes maxsize blocks (i + 1) s')) :
    s.Gives (blocks + 1) left asked
      ((readRound numBytes maxsize i s).bind (readLoop numBytes maxsize blocks (i + 1))) := by
  rw [round]
  rcases @copy_spec { s with currentIndex := i + 1 } (toCInt blockSize) 512 rfl (by omega) (Nat.le_refl _) with ⟨fits, s', copied, size, offset, same, copies⟩ | ⟨large, failed⟩
  · rw [copied, Option.bind_some]
    change (s'.size : Int) = s.size + 512 at size
    change (s'.currentOffset : Int) = s.currentOffset + 512 at offset
    change s'.currentIndex = i + 1 at same
    rcases rest s' same size offset with ⟨fits', s'', run, after⟩ | ⟨large, failed⟩
    · have offset' := fits'.offset
      have size' := fits'.size
      have asking' := fits'.asking
      refine Or.inl ⟨⟨?_, ?_, ?_⟩, s'', run, ?_, ?_, ?_, ?_⟩
      · rw [total]
        omega
      · rw [total]
        omega
      · rw [rounds]
        omega
      · rw [after.size, total]
        omega
      · rw [after.currentOffset, total]
        omega
      · rw [after.currentIndex, whole]
        omega
      · rw [after.copies, copies, total, pieces_cons, List.append_assoc, pieces_short (by omega) (Nat.le_refl _), offset]
        rfl
    · refine Or.inr ⟨fun fits' => large ⟨?_, ?_, ?_⟩, failed⟩
      · have offset' := fits'.offset
        rw [total] at offset'
        omega
      · have size' := fits'.size
        rw [total] at size'
        omega
      · have asking' := fits'.asking
        rw [rounds] at asking'
        omega
  · refine Or.inr ⟨fun fits => large ⟨?_, ?_⟩, by rw [failed]; rfl⟩
    · have size' := fits.size
      rw [total] at size'
      change (s.size : Int) + 512 < 2 ^ 31
      omega
    · have offset' := fits.offset
      rw [total] at offset'
      change (s.currentOffset : Int) + 512 < 2 ^ 31
      omega

/-- The loop of a call does exactly what is told of it, or overflows. -/
theorem readLoop_spec (blocks : Nat) : ∀ (i left asked : Nat) (s : Reading), s.currentIndex = i →
    toSize (maxsize + 512) = toSize s.currentOffset + left → numBytes = toSize s.size + asked → 0 ≤ (s.size : Int) →
    s.Gives blocks left asked (readLoop numBytes maxsize blocks i s) := by
  induction blocks with
  | zero =>
    intro i left asked s _ _ _ _
    have total : totalRead 0 left asked = 0 := by
      unfold totalRead
      split <;> [skip; split] <;> omega
    have stays := s.stays total (Nat.zero_min _) (Nat.zero_min _)
    exact Or.inl ⟨stays.1, s, rfl, stays.2⟩
  | succ blocks ih =>
    intro i left asked s index limit request going
    have limit_lt := toSize_lt (maxsize + 512)
    by_cases nothing : left = 0 ∨ asked = 0
    · have stays : s.Fits (blocks + 1) left asked ∧ s.After (blocks + 1) left asked s :=
        s.stays (totalRead_nothing nothing) (wholeBlocks_nothing (by omega)) (roundsAsking_nothing (by omega))
      refine Or.inl ⟨stays.1, s, ?_, stays.2⟩
      rcases nothing with none_left | none_asked
      · exact readLoop_full (by omega) _ _
      · exact readLoop_given (by omega) _ _
    have some_left : 0 < left := by omega
    have some_asked : 0 < asked := by omega
    have below := s.size.property.2
    have size := toSize_of_nonneg going (by omega)
    have enters : toSize s.currentOffset < toSize (maxsize + blockSize) ∧ toSize s.size < numBytes := by
      change toSize s.currentOffset < toSize (maxsize + 512) ∧ _
      omega
    rw [readLoop, if_pos enters]
    by_cases short : left < 512
    · obtain ⟨wsize, length, round⟩ := readRound_end limit some_left numBytes i short
      refine gives_last length some_left (by omega) round (totalRead_end some_left short some_asked)
        (wholeBlocks_nothing (Or.inl short)) (by rw [roundsAsking_nothing (Or.inl short)]; omega) fun s' _ offset' => ?_
      have further := toSize_add (n := s.currentOffset) (k := left) (by omega)
      exact readLoop_full (by rw [offset', further]; omega) _ _
    have long := Nat.not_lt.mp short
    by_cases asks : (s.size : Int) + 512 < 2 ^ 31
    · by_cases few : asked < 512
      · obtain ⟨wsize, length, round⟩ := readRound_part (i := i) limit request going long few asks
        refine gives_last length some_asked (by omega) round (totalRead_part long few)
          (wholeBlocks_nothing (Or.inr few)) (by rw [roundsAsking_part long some_asked few]; omega) fun s' size' _ => ?_
        have further := toSize_add (n := s.size) (k := asked) (by omega)
        exact readLoop_given (by rw [size', further]; omega) _ _
      · have many := Nat.not_lt.mp few
        refine gives_whole index (totalRead_whole long many) (wholeBlocks_whole long many)
          (roundsAsking_whole long many) (readRound_whole limit request going long many asks) fun s' index' size' offset' => ?_
        have further := toSize_add (n := s.currentOffset) (k := 512) (by omega)
        have further' := toSize_add (n := s.size) (k := 512) (by omega)
        rw [Nat.cast_ofNat] at further further'
        refine ih (i + 1) (left - 512) (asked - 512) s' index' ?_ ?_ (by omega)
        · rw [offset']
          omega
        · rw [size']
          omega
    · have rounds : 1 ≤ roundsAsking (blocks + 1) left asked := by
        unfold roundsAsking
        split <;> omega
      refine Or.inr ⟨fun fits => ?_, ?_⟩
      · have asking := fits.asking
        omega
      · rw [readRound_overflow limit long (by omega)]
        rfl

variable {h : FileHandle} {start : Nat}

/-- The state with which the loop of a call begins. -/
def FileHandle.begin (h : FileHandle) : Reading := ⟨CInt.zero, h.onward.currentOffset, h.onward.currentIndex, []⟩

/-- How many blocks a call finds in front of it. -/
def FileHandle.ahead (h : FileHandle) : Nat := h.tar.blocks.length - h.onward.currentIndex

/-- How many bytes a call takes the member to have left, from its offset on. -/
def FileHandle.left (h : FileHandle) (start : Nat) : Nat :=
  toSize (parseOctal (blockAt h.tar.blocks start).size + 512) - toSize h.onward.currentOffset

/-- What a call that copies so many bytes gives. -/
structure ReadResult.Does (r : ReadResult) (h : FileHandle) (total whole : Nat) : Prop where
  result : r.result = .ok
  tar : r.handle.tar = h.tar
  start : r.handle.start = h.start
  file : r.handle.isDirectory = false
  currentOffset : (r.handle.currentOffset : Int) = h.onward.currentOffset + total
  currentIndex : r.handle.currentIndex = h.onward.currentIndex + whole
  current : r.handle.current =
    if r.handle.currentIndex < h.tar.blocks.length then some r.handle.currentIndex else none
  bytesRead : r.bytesRead = total
  copies : r.copies = pieces h.onward.currentOffset total

theorem onward_tar (h : FileHandle) : h.onward.tar = h.tar := by
  unfold FileHandle.onward
  split <;> rfl

theorem onward_start (h : FileHandle) : h.onward.start = h.start := by
  unfold FileHandle.onward
  split <;> rfl

theorem onward_isDirectory (h : FileHandle) : h.onward.isDirectory = h.isDirectory := by
  unfold FileHandle.onward
  split <;> rfl

theorem doRead_spec (file : h.isDirectory = false) (starts : h.start = some start) (numBytes : Nat) :
    (h.begin.Fits h.ahead (h.left start) numBytes ∧ ∃ r, doRead h numBytes = some r ∧
      r.Does h (totalRead h.ahead (h.left start) numBytes) (wholeBlocks h.ahead (h.left start) numBytes)) ∨
    (¬ h.begin.Fits h.ahead (h.left start) numBytes ∧ doRead h numBytes = none) := by
  have gives : h.begin.Gives h.ahead (h.left start) numBytes
      (readLoop numBytes (parseOctal (blockAt h.tar.blocks start).size) h.ahead h.onward.currentIndex h.begin) := by
    by_cases before : toSize h.onward.currentOffset ≤ toSize (parseOctal (blockAt h.tar.blocks start).size + 512)
    · exact readLoop_spec h.ahead _ _ _ _ rfl (Nat.add_sub_cancel' before).symm (Nat.zero_add _).symm (Int.le_refl _)
    · have nothing : h.left start = 0 := Nat.sub_eq_zero_of_le (Nat.le_of_not_le before)
      have stays : h.begin.Fits h.ahead (h.left start) numBytes ∧
          h.begin.After h.ahead (h.left start) numBytes h.begin :=
        h.begin.stays (totalRead_nothing (Or.inl nothing)) (wholeBlocks_nothing (Or.inl (by omega))) (roundsAsking_nothing (Or.inl (by omega)))
      exact Or.inl ⟨stays.1, _, readLoop_full (Nat.le_of_not_le before) _ _, stays.2⟩
  have loop : doRead h numBytes =
      (readLoop numBytes (parseOctal (blockAt h.tar.blocks start).size) h.ahead h.onward.currentIndex h.begin).map
        fun s => ⟨.ok, { h.onward with
          currentOffset := s.currentOffset
          currentIndex := s.currentIndex
          current := if s.currentIndex < h.tar.blocks.length then some s.currentIndex else none },
          toSize s.size, s.copies⟩ := by
    rw [doRead, file, if_neg Bool.false_ne_true, starts, Option.bind_eq_bind, Option.bind_some, Option.map_eq_bind]
    simp only [onward_tar, FileHandle.ahead]
    rfl
  rw [loop]
  rcases gives with ⟨fits, s', run, after⟩ | ⟨large, failed⟩
  · refine Or.inl ⟨fits, _, by rw [run]; rfl, rfl, onward_tar h, onward_start h, ?_, after.currentOffset,
      after.currentIndex, rfl, ?_, ?_⟩
    · exact (onward_isDirectory h).trans file
    · have size := after.size
      have below := fits.size
      change (s'.size : Int) = 0 + _ at size
      change (0 : Int) + _ < _ at below
      change toSize s'.size = _
      rw [toSize_of_nonneg (by omega) (by omega), size]
      omega
    · exact after.copies
  · exact Or.inr ⟨large, by rw [failed]; rfl⟩

end Call

end GnomeVfs.Tar
