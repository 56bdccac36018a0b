import GnomeVfs.TarRead

/- What a sequence of reads delivers of a member of a tar archive. -/
namespace GnomeVfs.Tar

/-- The bytes of a member of this size behind its header. -/
def memberContent (blocks : List Block) (start size : Nat) : Bytes :=
  ((raw blocks).drop (blockSize * start + blockSize)).take size

/-- The bytes that a copy stores. -/
def Copy.bytes (blocks : List Block) (start : Nat) (c : Copy) : Bytes :=
  ((raw blocks).drop (blockSize * start + c.offset : Int).toNat).take c.length

def ReadResult.stored (r : ReadResult) (start : Nat) : Bytes := r.copies.flatMap (Copy.bytes r.handle.tar.blocks start)

/-- Each call of a sequence delivers bytes that have been asked for, the next ones of the member, and
none only at its end; so many have been delivered before. -/
def Delivers (start size : Nat) : Nat → List Nat → FileHandle → Prop
  | _, [], _ => True
  | before, numBytes :: rest, h =>
    ∃ r, doRead h numBytes = some r ∧ r.result = .ok ∧ r.bytesRead ≤ numBytes ∧
      r.stored start = ((memberContent h.tar.blocks start size).drop before).take r.bytesRead ∧
      (r.bytesRead = 0 → before = size) ∧ before + r.bytesRead ≤ size ∧
      Delivers start size (before + r.bytesRead) rest r.handle

/-- The handle behind a sequence of reads. -/
def afterReads (h : FileHandle) (reads : List Nat) : Option FileHandle :=
  reads.foldlM (fun h numBytes => (doRead h numBytes).map ReadResult.handle) h

/-- After a seek to this byte of the member, that is where the handle is and where the next read begins. -/
def Seeks (size k numBytes : Nat) (h : FileHandle) : Prop :=
  doTell (doSeek h .start k) = k ∧
    ∃ r, doRead (doSeek h .start k) numBytes = some r ∧ r.result = .ok ∧ (r.copies = [] → k = size) ∧
      ∀ c ∈ r.copies.head?, c.offset = blockSize + k

/-- How many bytes of so many a read delivers: the last block is read to its end. -/
def delivered (left numBytes : Nat) : Nat := if numBytes ≤ 512 * (left / 512) then numBytes else left

/-- How many bytes a sequence of reads leaves, and how many times it copies a whole block. -/
def leftBy : Nat → List Nat → Nat
  | left, [] => left
  | left, numBytes :: rest => leftBy (left - delivered left numBytes) rest

def wholesBy : Nat → List Nat → Nat
  | _, [] => 0
  | left, numBytes :: rest =>
    min (left / 512) (numBytes / 512) + wholesBy (left - delivered left numBytes) rest

/-- That no read ends inside the last block of the member, short of its end. -/
def Suits (size : Nat) (reads : List Nat) : Prop :=
  ∀ before numBytes after, reads = before ++ numBytes :: after →
    ¬ (512 * ((size - before.sum) / 512) < numBytes ∧ numBytes < size - before.sum)

theorem suits_cons {size numBytes : Nat} {rest : List Nat} : Suits size (numBytes :: rest) ↔
    ¬ (512 * (size / 512) < numBytes ∧ numBytes < size) ∧ Suits (size - numBytes) rest := by
  constructor
  · intro suits
    refine ⟨suits [] numBytes rest rfl, fun before m after same => ?_⟩
    have inside := suits (numBytes :: before) m after (by rw [same, List.cons_append])
    rwa [List.sum_cons, ← Nat.sub_sub] at inside
  · rintro ⟨first, others⟩ before m after same
    cases before with
    | nil =>
      obtain ⟨rfl, rfl⟩ := List.cons.inj same
      exact first
    | cons b before =>
      obtain ⟨rfl, rest_eq⟩ := List.cons.inj same
      have inside := others before m after rest_eq
      rwa [List.sum_cons, ← Nat.sub_sub]

theorem flatMap_pieces (data : Bytes) (base offset total : Nat) :
    (pieces offset total).flatMap (fun c => (data.drop (base + c.offset : Int).toNat).take c.length) =
      (data.drop (base + offset)).take total := by
  induction total using Nat.strongRecOn generalizing offset with
  | ind total ih =>
    have first : ((base : Int) + offset).toNat = base + offset := by omega
    by_cases none_left : total = 0
    · rw [none_left, pieces_zero, List.take_zero]
      rfl
    by_cases short : total ≤ 512
    · rw [pieces_short (by omega) short, List.flatMap_singleton, first]
    · obtain ⟨rest, rfl⟩ := Nat.exists_eq_add_of_le (Nat.le_of_not_le short)
      have further := ih rest (by omega) (offset + 512)
      rw [Nat.cast_add, Nat.cast_ofNat] at further
      rw [pieces_cons, List.flatMap_cons, further, first, List.take_add, List.drop_drop, Nat.add_assoc]

theorem head_pieces (offset : Int) {total : Nat} (some_bytes : 0 < total) :
    ∃ c, (pieces offset total).head? = some c ∧ c.offset = offset := by
  by_cases short : total ≤ 512
  · exact ⟨_, by rw [pieces_short some_bytes short]; rfl, rfl⟩
  · obtain ⟨rest, rfl⟩ := Nat.exists_eq_add_of_le (Nat.le_of_not_le short)
    exact ⟨_, by rw [pieces_cons]; rfl, rfl⟩

section Reads

variable {tar : TarFile} {start size before index numBytes : Nat} {h : FileHandle}

/-- A handle of which so many bytes have been read, and which goes on with this block. -/
structure At (tar : TarFile) (start before index : Nat) (h : FileHandle) : Prop where
  file : h.isDirectory = false
  tar_eq : h.tar = tar
  start_eq : h.start = some start
  offset : (h.onward.currentOffset : Int) = 512 + before
  index_eq : h.onward.currentIndex = index

theorem onward_of_ne (going : h.current ≠ h.start) : h.onward = h := if_neg going

/-- The size is an `int`, and the offset of a handle within it another. -/
theorem left_of (offset : Nat) (parsed : parseOctal (blockAt h.tar.blocks start).size = size)
    (offset_eq : (h.onward.currentOffset : Int) = offset) : h.left start = size + 512 - offset := by
  have range : parseOctal (blockAt h.tar.blocks start).size < 2 ^ 31 := (parseOctalFrom_range (by decide) _).2
  have below := h.onward.currentOffset.property.2
  rw [parsed] at range
  rw [offset_eq] at below
  rw [FileHandle.left, parsed, offset_eq, toSize_of_nonneg (by omega) (by omega), toSize_of_nonneg (by omega) (by omega)]
  omega

theorem delivered_le (size numBytes : Nat) : delivered size numBytes ≤ size := by
  unfold delivered
  split <;> omega

theorem totalRead_present (numBytes : Nat) {blocks : Nat} (enough : (size + 511) / 512 ≤ blocks) :
    totalRead blocks size numBytes = delivered size numBytes := by
  unfold totalRead delivered
  by_cases whole : numBytes ≤ 512 * (size / 512)
  · rw [if_pos whole, if_pos whole]
    omega
  · rw [if_neg whole, if_neg whole]
    split <;> omega

theorem wholeBlocks_present (numBytes : Nat) {blocks : Nat} (enough : (size + 511) / 512 ≤ blocks) :
    wholeBlocks blocks size numBytes = min (size / 512) (numBytes / 512) := by
  unfold wholeBlocks
  omega

theorem roundsAsking_present (blocks size numBytes : Nat) : 512 * roundsAsking blocks size numBytes < delivered size numBytes + 512 := by
  unfold roundsAsking delivered
  split <;> omega

theorem wholes_le (size numBytes : Nat) : 512 * min (size / 512) (numBytes / 512) ≤ delivered size numBytes := by
  unfold delivered
  split <;> omega

theorem wholes_lag (size numBytes before : Nat) :
    min (size / 512) (numBytes / 512) + before / 512 ≤ (before + delivered size numBytes) / 512 := by
  have wholes := wholes_le size numBytes
  omega

theorem left_behind (size before numBytes : Nat) : size - (before + min numBytes (size - before)) = size - before - numBytes := by
  omega

theorem min_sum_behind {before size : Nat} (inside : before ≤ size) (numBytes more : Nat) :
    before + min (numBytes + more) (size - before) =
      before + min numBytes (size - before) + min more (size - (before + min numBytes (size - before))) := by
  omega

theorem delivered_fits_iff (left numBytes : Nat) : delivered left numBytes ≤ numBytes ↔
    ¬ (512 * (left / 512) < numBytes ∧ numBytes < left) := by
  unfold delivered
  split <;> omega

theorem delivered_none {left numBytes : Nat} (asked : 1 ≤ numBytes) (none_delivered : delivered left numBytes = 0) : left = 0 := by
  unfold delivered at none_delivered
  split at none_delivered <;> omega

theorem delivered_eq_min {left numBytes : Nat} (few : delivered left numBytes ≤ numBytes) :
    delivered left numBytes = min numBytes left := by
  by_cases whole : numBytes ≤ 512 * (left / 512)
  · rw [delivered, if_pos whole]
    omega
  · rw [delivered, if_neg whole] at few ⊢
    omega

variable (parsed : parseOctal (blockAt tar.blocks start).size = size)
  (present : start + 1 + (size + 511) / 512 ≤ tar.blocks.length)

include parsed present in
/-- A call delivers what the arithmetic of the last block makes of the request, unless its offset overflows. -/
theorem At.read (at_here : At tar start before index h) (numBytes : Nat) (inside : before ≤ size) (lag : index ≤ start + 1 + before / 512)
    (ahead : start < index) :
    (512 + (before + delivered (size - before) numBytes) < 2 ^ 31 ∧ ∃ r, doRead h numBytes = some r ∧ r.result = .ok ∧
      r.bytesRead = delivered (size - before) numBytes ∧
      r.copies = pieces ((512 + before : Nat) : Int) (delivered (size - before) numBytes) ∧ r.handle.current ≠ r.handle.start ∧
      At tar start (before + delivered (size - before) numBytes)
        (index + min ((size - before) / 512) (numBytes / 512)) r.handle) ∨
    (¬ 512 + (before + delivered (size - before) numBytes) < 2 ^ 31 ∧ doRead h numBytes = none) := by
  have left : h.left start = size - before := by
    rw [left_of (512 + before) (by rw [at_here.tar_eq]; exact parsed) at_here.offset]
    omega
  have enough : (size - before + 511) / 512 ≤ h.ahead := by
    rw [FileHandle.ahead, at_here.tar_eq, at_here.index_eq]
    omega
  have total := totalRead_present numBytes enough
  have whole := wholeBlocks_present numBytes enough
  have rounds := roundsAsking_present h.ahead (size - before) numBytes
  have offset := at_here.offset
  have spec := doRead_spec at_here.file at_here.start_eq numBytes
  rw [left, total, whole] at spec
  have fits_iff : h.begin.Fits h.ahead (size - before) numBytes ↔
      512 + (before + delivered (size - before) numBytes) < 2 ^ 31 := by
    constructor
    · intro fits
      have below := fits.offset
      rw [total] at below
      change (h.onward.currentOffset : Int) + _ < _ at below
      omega
    · intro below
      refine ⟨?_, ?_, ?_⟩
      · rw [total]
        change (h.onward.currentOffset : Int) + _ < _
        omega
      · rw [total]
        change (0 : Int) + _ < _
        omega
      · change (0 : Int) + _ < _
        omega
  rw [fits_iff] at spec
  rcases spec with ⟨fits, r, read, does⟩ | large
  · have further := does.currentIndex
    have ahead' : start < r.handle.currentIndex := by
      rw [further, at_here.index_eq]
      omega
    have apart : r.handle.current ≠ r.handle.start := by
      rw [does.current, does.start, at_here.start_eq]
      split
      · exact fun same => absurd (Option.some.inj same) (Nat.ne_of_gt ahead')
      · exact (Option.some_ne_none start).symm
    refine Or.inl ⟨fits, r, read, does.result, does.bytesRead, ?_, apart, does.file, does.tar.trans at_here.tar_eq,
      does.start.trans at_here.start_eq, ?_, ?_⟩
    · rw [does.copies, offset]
      rfl
    · rw [onward_of_ne apart, does.currentOffset, offset]
      omega
    · rw [onward_of_ne apart, further, at_here.index_eq]
  · exact Or.inr large

theorem stored_eq (start size : Nat) {r : ReadResult} {total : Nat} (tar_eq : r.handle.tar = tar)
    (copies : r.copies = pieces ((512 + before : Nat) : Int) total) (inside : before + total ≤ size) :
    r.stored start = ((memberContent tar.blocks start size).drop before).take total := by
  have slices := flatMap_pieces (raw tar.blocks) (blockSize * start) (512 + before) total
  rw [ReadResult.stored, tar_eq, copies]
  refine slices.trans ?_
  rw [memberContent, List.drop_take, List.take_take, Nat.min_eq_left (by omega), List.drop_drop, Nat.add_assoc]
  rfl

include parsed present in
/-- Whether a sequence of reads delivers the member is a matter of its requests. -/
theorem delivers_iff {reads : List Nat} (at_here : At tar start before index h) (inside : before ≤ size)
    (lag : index ≤ start + 1 + before / 512) (ahead : start < index) (asked : ∀ numBytes ∈ reads, 1 ≤ numBytes) :
    Delivers start size before reads h ↔
      Suits (size - before) reads ∧ 512 + (before + min reads.sum (size - before)) < 2 ^ 31 := by
  induction reads generalizing before index h with
  | nil =>
    have offset := at_here.offset
    have below := h.onward.currentOffset.property.2
    refine ⟨fun _ => ⟨fun front _ back same => ?_, ?_⟩, fun _ => True.intro⟩
    · exact absurd same (List.append_ne_nil_of_right_ne_nil front (List.cons_ne_nil _ back)).symm
    · rw [List.sum_nil, Nat.zero_min]
      omega
  | cons numBytes rest ih =>
    have some_asked := asked numBytes List.mem_cons_self
    have asked' : ∀ m ∈ rest, 1 ≤ m := fun m member => asked m (List.mem_cons_of_mem _ member)
    have few_iff := delivered_fits_iff (size - before) numBytes
    have behind : before + delivered (size - before) numBytes ≤ size :=
      (Nat.le_sub_iff_add_le' inside).mp (delivered_le (size - before) numBytes)
    have lagging := wholes_lag (size - before) numBytes before
    rw [suits_cons, List.sum_cons, Delivers]
    rcases at_here.read parsed present numBytes inside lag ahead with
      ⟨fits, r, read, ok, bytes, copies, going, next⟩ | ⟨large, failed⟩
    · have further := ih next behind (by omega) (Nat.lt_add_right _ ahead) asked'
      have stored := stored_eq start size next.tar_eq copies behind
      rw [at_here.tar_eq]
      constructor
      · rintro ⟨r', read', -, few, -, -, -, others⟩
        obtain rfl : r = r' := Option.some.inj (read.symm.trans read')
        rw [bytes] at few others
        obtain ⟨suits, below⟩ := further.mp others
        rw [delivered_eq_min few, left_behind] at suits
        rw [delivered_eq_min few, ← min_sum_behind inside] at below
        exact ⟨⟨few_iff.mp few, suits⟩, below⟩
      · rintro ⟨⟨first, suits⟩, below⟩
        have few := few_iff.mpr first
        rw [← left_behind, ← delivered_eq_min few] at suits
        rw [min_sum_behind inside, ← delivered_eq_min few] at below
        rw [← bytes] at few stored behind
        refine ⟨r, read, ok, few, stored, fun none_delivered => ?_, behind, ?_⟩
        · rw [bytes] at none_delivered
          have none_left := delivered_none some_asked none_delivered
          omega
        · rw [bytes]
          exact further.mpr ⟨suits, below⟩
    · constructor
      · rintro ⟨r, read, -⟩
        exact absurd (failed.symm.trans read) (Option.some_ne_none r).symm
      · rintro ⟨⟨first, -⟩, below⟩
        rw [min_sum_behind inside, ← delivered_eq_min (few_iff.mpr first)] at below
        exact absurd (by omega) large

theorem leftBy_le (reads : List Nat) : ∀ left, leftBy left reads ≤ left := by
  induction reads with
  | nil => exact fun left => Nat.le_refl left
  | cons numBytes rest ih => exact fun left => Nat.le_trans (ih _) (Nat.sub_le _ _)

include parsed present in
/-- Where a handle is behind a sequence of reads. -/
theorem afterReads_spec (reads : List Nat) (at_here : At tar start before index h) (inside : before ≤ size)
    (lag : index ≤ start + 1 + before / 512) (ahead : start < index) :
    (512 + (size - leftBy (size - before) reads) < 2 ^ 31 ∧ ∃ h', afterReads h reads = some h' ∧
      At tar start (size - leftBy (size - before) reads) (index + wholesBy (size - before) reads) h' ∧
      index + wholesBy (size - before) reads ≤ start + 1 + (size - leftBy (size - before) reads) / 512 ∧
      (reads = [] → h' = h) ∧ (reads ≠ [] → h'.current ≠ h'.start)) ∨
    (¬ 512 + (size - leftBy (size - before) reads) < 2 ^ 31 ∧ afterReads h reads = none) := by
  induction reads generalizing before index h with
  | nil =>
    have offset := at_here.offset
    have below := h.onward.currentOffset.property.2
    have same : size - leftBy (size - before) [] = before := Nat.sub_sub_self inside
    rw [same]
    exact Or.inl ⟨by omega, h, rfl, at_here, lag, fun _ => rfl, fun some_reads => absurd rfl some_reads⟩
  | cons numBytes rest ih =>
    have at_most := delivered_le (size - before) numBytes
    have wholes := wholes_le (size - before) numBytes
    have less := leftBy_le rest (size - before - delivered (size - before) numBytes)
    rw [leftBy, wholesBy, afterReads, List.foldlM_cons]
    rcases at_here.read parsed present numBytes inside lag ahead with
      ⟨fits, r, read, -, -, -, going, next⟩ | ⟨large, failed⟩
    · have further := ih next (by omega) (by omega) (by omega)
      rw [← Nat.sub_sub, Nat.add_assoc] at further
      rw [read, Option.map_some, Option.bind_eq_bind, Option.bind_some]
      rcases further with ⟨below, h', run, there, lag', none_read, going'⟩ | large
      · refine Or.inl ⟨below, h', run, there, lag', fun none_eq => absurd none_eq (List.cons_ne_nil _ _), fun _ => ?_⟩
        by_cases last : rest = []
        · rwa [none_read last]
        · exact going' last
      · exact Or.inr large
    · refine Or.inr ⟨by omega, ?_⟩
      rw [failed]
      rfl

theorem onward_doSeek (going : h.current ≠ h.start) (k : Int) : (doSeek h .start k).onward = doSeek h .start k :=
  onward_of_ne (by rwa [doSeek_current, doSeek_start])

theorem doSeek_offset {k : Nat} (small : k < 2 ^ 31) : ((doSeek h .start k).currentOffset : Int) = k := by
  change (toCInt (0 + k) : Int) = k
  rw [zero_add, toCInt_of_lt (by omega) (by omega)]

theorem doTell_doSeek {k : Nat} (small : k < 2 ^ 31) : doTell (doSeek h .start k) = k := by
  rw [doTell, doSeek_offset small, toSize_of_nonneg (by omega) (by omega), Int.toNat_natCast]

include parsed in
/-- A seek is of no use to a handle that has been read from: it keeps its block, and its offset counts
the header. -/
theorem seeks_going {k : Nat} (at_here : At tar start before index h) (going : h.current ≠ h.start)
    (lag : index ≤ tar.blocks.length) (k_le : k ≤ size) (some_asked : 1 ≤ numBytes) :
    Seeks size k numBytes h ↔ k = size ∧ index = tar.blocks.length := by
  have range : parseOctal (blockAt tar.blocks start).size < 2 ^ 31 := (parseOctalFrom_range (by decide) _).2
  have small : k < 2 ^ 31 := by
    rw [parsed] at range
    omega
  have onward := onward_doSeek going k
  have index_eq := at_here.index_eq
  rw [onward_of_ne going] at index_eq
  have left : (doSeek h .start k).left start = size + 512 - k :=
    left_of k (by rw [doSeek_tar, at_here.tar_eq]; exact parsed) (by rw [onward]; exact doSeek_offset small)
  have blocks : (doSeek h .start k).ahead = tar.blocks.length - index := by
    rw [FileHandle.ahead, onward, doSeek_tar, at_here.tar_eq, doSeek_currentIndex, index_eq]
  have spec := doRead_spec (h := doSeek h .start k) (by rw [doSeek_isDirectory]; exact at_here.file)
    (by rw [doSeek_start]; exact at_here.start_eq) numBytes
  rw [left, blocks] at spec
  by_cases ended : index = tar.blocks.length
  · -- No block is left, and nothing is read.
    rw [ended, Nat.sub_self] at spec
    have total : totalRead 0 (size + 512 - k) numBytes = 0 := by
      unfold totalRead
      split <;> [skip; split] <;> omega
    have fits := ((doSeek h .start k).begin.stays total (Nat.zero_min _) (Nat.zero_min _)).1
    obtain ⟨r, read, does⟩ := (spec.resolve_right fun large => large.1 fits).2
    have nothing := does.copies
    rw [total, pieces_zero] at nothing
    constructor
    · rintro ⟨-, r', read', -, at_end, -⟩
      obtain rfl : r = r' := Option.some.inj (read.symm.trans read')
      exact ⟨at_end nothing, ended⟩
    · rintro ⟨at_end, -⟩
      refine ⟨doTell_doSeek small, r, read, does.result, fun _ => at_end, fun c member => ?_⟩
      rw [nothing] at member
      cases member
  · have some_bytes : 0 < totalRead (tar.blocks.length - index) (size + 512 - k) numBytes := by
      unfold totalRead
      split <;> [skip; split] <;> omega
    refine ⟨?_, fun both => absurd both.2 ended⟩
    rintro ⟨-, r', read', -, -, begins⟩
    rcases spec with ⟨-, r, read, does⟩ | ⟨-, failed⟩
    · obtain rfl : r = r' := Option.some.inj (read.symm.trans read')
      obtain ⟨c, head, offset⟩ := head_pieces (doSeek h .start k).onward.currentOffset some_bytes
      have wrong := begins c (by rw [does.copies]; exact head)
      rw [offset, onward, doSeek_offset small] at wrong
      change (k : Int) = 512 + k at wrong
      omega
    · exact absurd (failed.symm.trans read') (Option.some_ne_none r').symm

theorem onward_doSeek_fresh (fresh : h.current = h.start) (k : Int) : (doSeek h .start k).onward = h.onward := by
  rw [FileHandle.onward, FileHandle.onward, if_pos (by rwa [doSeek_current, doSeek_start]), if_pos fresh]
  simp only [doSeek_tar, doSeek_start, doSeek_current, doSeek_currentIndex, doSeek_filename, doSeek_isDirectory]

include parsed present in
/-- The first read of a handle begins the member, wherever the handle has been set to. -/
theorem seeks_fresh {k : Nat} (at_here : At tar start 0 (start + 1) h) (fresh : h.current = h.start) (k_le : k ≤ size)
    (some_asked : 1 ≤ numBytes) : Seeks size k numBytes h ↔ k = 0 ∧ 512 + delivered size numBytes < 2 ^ 31 := by
  have range : parseOctal (blockAt tar.blocks start).size < 2 ^ 31 := (parseOctalFrom_range (by decide) _).2
  have small : k < 2 ^ 31 := by
    rw [parsed] at range
    omega
  have onward := onward_doSeek_fresh fresh k
  have there : At tar start 0 (start + 1) (doSeek h .start k) :=
    ⟨by rw [doSeek_isDirectory]; exact at_here.file, by rw [doSeek_tar]; exact at_here.tar_eq,
      by rw [doSeek_start]; exact at_here.start_eq, by rw [onward]; exact at_here.offset,
      by rw [onward]; exact at_here.index_eq⟩
  have outcome := there.read parsed present numBytes (Nat.zero_le _) (Nat.le_refl _) (Nat.lt_succ_self _)
  rw [Nat.sub_zero, Nat.zero_add, Nat.add_zero] at outcome
  have nothing : delivered size numBytes = 0 → size = 0 := by
    unfold delivered
    split <;> omega
  rcases outcome with ⟨fits, r, read, ok, -, copies, -⟩ | ⟨large, failed⟩
  · by_cases none_left : delivered size numBytes = 0
    · rw [none_left, pieces_zero] at copies
      constructor
      · rintro ⟨-, r', read', -, at_end, -⟩
        obtain rfl : r = r' := Option.some.inj (read.symm.trans read')
        exact ⟨by have := at_end copies; have := nothing none_left; omega, fits⟩
      · rintro ⟨rfl, -⟩
        refine ⟨doTell_doSeek small, r, read, ok, fun _ => (nothing none_left).symm, fun c member => ?_⟩
        rw [copies] at member
        cases member
    · obtain ⟨c, head, offset⟩ := head_pieces ((512 : Nat) : Int) (Nat.pos_of_ne_zero none_left)
      rw [← copies] at head
      constructor
      · rintro ⟨-, r', read', -, -, begins⟩
        obtain rfl : r = r' := Option.some.inj (read.symm.trans read')
        have first := begins c head
        rw [offset] at first
        change (512 : Int) = 512 + k at first
        exact ⟨by omega, fits⟩
      · rintro ⟨rfl, -⟩
        refine ⟨doTell_doSeek small, r, read, ok, fun empty => ?_, fun c' member => ?_⟩
        · rw [empty] at head
          cases head
        · obtain rfl : c = c' := Option.some.inj (head.symm.trans member)
          rw [offset]
          rfl
  · constructor
    · rintro ⟨-, r', read', -⟩
      exact absurd (failed.symm.trans read') (Option.some_ne_none r').symm
    · exact fun both => absurd both.2 large

theorem doOpen_at {stray : UInt8} {text : Bytes} (opened : doOpen tar stray text = .ok h) (starts : h.start = some start) :
    At tar start 0 (start + 1) h ∧ h.current = h.start := by
  rw [doOpen] at opened
  split at opened
  · cases opened
  · rename_i node _
    dsimp only at opened
    split at opened
    · cases opened
    · obtain rfl := Except.ok.inj opened
      obtain rfl := Option.some.inj starts
      refine ⟨⟨rfl, rfl, rfl, ?_, ?_⟩, rfl⟩
      · rw [FileHandle.onward, if_pos rfl]
        rfl
      · rw [FileHandle.onward, if_pos rfl]

/-- Reading a member that is all there: a sequence of reads delivers it exactly if no request ends
inside its last block, short of its end. A seek is heeded exactly where it changes nothing: at the
beginning before the first read, and at the end once the handle has run out of blocks. -/
theorem member_read_iff {stray : UInt8} {text : Bytes} (opened : doOpen tar stray text = .ok h)
    (starts : h.start = some start) (parsed : parseOctal (blockAt tar.blocks start).size = size)
    (present : start + 1 + (size + 511) / 512 ≤ tar.blocks.length) (reads : List Nat)
    (asked : ∀ numBytes ∈ reads, 1 ≤ numBytes) :
    (Delivers start size 0 reads h ↔ Suits size reads ∧ 512 + min reads.sum size < 2 ^ 31) ∧
      ∀ k numBytes, k ≤ size → 1 ≤ numBytes →
        ((∃ h', afterReads h reads = some h' ∧ Seeks size k numBytes h') ↔
          (reads = [] ∧ k = 0 ∧ 512 + delivered size numBytes < 2 ^ 31) ∨
            (reads ≠ [] ∧ k = size ∧ 512 + (size - leftBy size reads) < 2 ^ 31 ∧
              start + 1 + wholesBy size reads = tar.blocks.length)) := by
  obtain ⟨at_start, fresh⟩ := doOpen_at opened starts
  have delivers := delivers_iff parsed present at_start (Nat.zero_le _) (Nat.le_refl _) (Nat.lt_succ_self _) asked
  rw [Nat.sub_zero, Nat.zero_add] at delivers
  refine ⟨delivers, fun k numBytes k_le some_asked => ?_⟩
  have behind := afterReads_spec parsed present reads at_start (Nat.zero_le _) (Nat.le_refl _) (Nat.lt_succ_self _)
  rw [Nat.sub_zero] at behind
  by_cases no_reads : reads = []
  · subst no_reads
    have fresh_iff := seeks_fresh parsed present at_start fresh k_le some_asked
    constructor
    · rintro ⟨h', run, seeks⟩
      obtain rfl : h = h' := Option.some.inj run
      exact Or.inl ⟨rfl, fresh_iff.mp seeks⟩
    · rintro (⟨-, right⟩ | ⟨some_reads, -⟩)
      · exact ⟨h, rfl, fresh_iff.mpr right⟩
      · exact absurd rfl some_reads
  · rcases behind with ⟨fits, h', run, there, lag, -, going⟩ | ⟨large, failed⟩
    · have going_iff := seeks_going parsed there (going no_reads) (by omega) k_le some_asked
      constructor
      · rintro ⟨h'', run', seeks⟩
        obtain rfl : h' = h'' := Option.some.inj (run.symm.trans run')
        obtain ⟨at_end, out⟩ := going_iff.mp seeks
        exact Or.inr ⟨no_reads, at_end, fits, out⟩
      · rintro (⟨none_read, -⟩ | ⟨-, at_end, -, out⟩)
        · exact absurd none_read no_reads
        · exact ⟨h', run, going_iff.mpr ⟨at_end, out⟩⟩
    · constructor
      · rintro ⟨h', run, -⟩
        exact absurd (failed.symm.trans run) (Option.some_ne_none h').symm
      · rintro (⟨none_read, -⟩ | ⟨-, -, fits, -⟩)
        · exact absurd none_read no_reads
        · exact absurd fits large

end Reads

/-- An archive of one member, of 100 bytes. -/
def smallArchive : TarFile :=
  readTarFile (ascii "x") [.header (ascii "a") (ascii "144") 48, .holding (List.replicate 100 97)]

def smallHandle : FileHandle := ⟨smallArchive, some 0, some 0, CInt.zero, 0, ascii "a", false⟩

theorem smallHandle_opened : doOpen smallArchive 0 (ascii "a") = .ok smallHandle := by rfl

/-- The second read finds the end of the member. -/
theorem small_member_read : Delivers 0 100 0 [150, 7] smallHandle := by
  have none : Suits (100 - 150 - 7) [] := fun front _ back same =>
    absurd same (List.append_ne_nil_of_right_ne_nil front (List.cons_ne_nil _ back)).symm
  have suits : Suits 100 [150, 7] := suits_cons.mpr ⟨by decide, suits_cons.mpr ⟨by decide, none⟩⟩
  exact (member_read_iff smallHandle_opened rfl rfl (by decide) [150, 7] (by decide)).1.mpr ⟨suits, by decide⟩

/-- A read of ten bytes stores the whole hundred. -/
theorem short_read_overruns : ¬ Delivers 0 100 0 [10] smallHandle := by
  rintro ⟨r, read, -, few, -⟩
  have bytes : (doRead smallHandle 10).map ReadResult.bytesRead = some 100 := by rfl
  rw [read] at bytes
  have hundred : r.bytesRead = 100 := Option.some.inj bytes
  omega

end GnomeVfs.Tar
