import GnomeVfs.SocketInput

/- A boundary in a stream, and the loops that read up to it. -/
namespace GnomeVfs.Socket

open Transition

section Occurrence

variable {boundary stream data : Bytes} {maxScan i n : Nat}

theorem slice_eq_iff : Memory.slice data i boundary.length = boundary ↔ boundary <+: data.drop i := by
  rw [List.prefix_iff_eq_take, Memory.slice]
  exact eq_comm

theorem scan_found (found : (scan data boundary maxScan).2 = true) :
    ∃ i, (scan data boundary maxScan).1 = i + boundary.length ∧ i + boundary.length ≤ maxScan ∧
      boundary <+: data.drop i ∧ ∀ j < i, ¬ boundary <+: data.drop j := by
  rw [scan] at found ⊢
  split
  · rename_i more
    rw [if_pos more] at found
    split at found
    · rename_i i here
      have inside := List.mem_range.mp (List.mem_of_find?_eq_some here)
      obtain ⟨at_, -, earlier⟩ := List.find?_range_eq_some.mp here
      refine ⟨i, rfl, by omega, slice_eq_iff.mp (of_decide_eq_true at_), fun j before => ?_⟩
      rw [← slice_eq_iff]
      simpa using earlier j before
    · cases found
  · rename_i few
    rw [if_neg few, decide_eq_true_iff] at found
    exact ⟨0, by simp [found.1], by omega, slice_eq_iff.mp found.2, fun j before => absurd before (Nat.not_lt_zero j)⟩

/-- A scan that finds nothing stops before the first place where it could not compare any more. -/
theorem scan_missed (missed : (scan data boundary maxScan).2 = false) :
    if boundary.length < maxScan then
      (scan data boundary maxScan).1 = maxScan - boundary.length + 1 ∧
        ∀ j, j + boundary.length ≤ maxScan → ¬ boundary <+: data.drop j
    else (scan data boundary maxScan).1 = maxScan ∧ (maxScan = boundary.length → ¬ boundary <+: data) := by
  rw [scan] at missed ⊢
  split
  · rename_i more
    rw [if_pos more] at missed
    split at missed
    · cases missed
    · rename_i none
      refine ⟨rfl, fun j fits => ?_⟩
      rw [← slice_eq_iff]
      simpa using List.find?_eq_none.mp none j (List.mem_range.mpr (by omega))
  · rename_i few
    rw [if_neg few, decide_eq_false_iff_not] at missed
    refine ⟨rfl, fun exactly here => missed ⟨exactly, ?_⟩⟩
    rw [slice_eq_iff]
    exact here

/-- Where the first boundary of a stream ends. -/
def FirstBoundary (boundary stream : Bytes) (n : Nat) : Prop :=
  ∃ i, n = i + boundary.length ∧ boundary <+: stream.drop i ∧ ∀ j < i, ¬ boundary <+: stream.drop j

theorem FirstBoundary.le_length (first : FirstBoundary boundary stream n) (nonempty : 0 < boundary.length) :
    n ≤ stream.length := by
  obtain ⟨i, rfl, here, -⟩ := first
  have inside := here.length_le
  rw [List.length_drop] at inside
  omega

/-- Where no boundary begins before `n`, the first ends behind it. -/
theorem FirstBoundary.later {m : Nat} (first : FirstBoundary boundary stream m) (nonempty : 0 < boundary.length)
    (none : ∀ j < n, ¬ boundary <+: stream.drop j) : n < m := by
  obtain ⟨i, rfl, here, -⟩ := first
  by_contra before
  exact none i (by omega) here

theorem drop_behind (front later : Bytes) (k : Nat) : (front ++ later).drop (front.length + k) = later.drop k := by
  rw [← List.drop_drop, List.drop_left]

/-- Where none begins in the first part of a stream, none begins before a place in the rest if none does there. -/
theorem missed_behind {front later : Bytes} (earlier : ∀ j < front.length, ¬ boundary <+: (front ++ later).drop j)
    (none : ∀ j < n, ¬ boundary <+: later.drop j) : ∀ j < front.length + n, ¬ boundary <+: (front ++ later).drop j := by
  intro j before
  rcases Nat.lt_or_ge j front.length with inside | behind
  · exact earlier j inside
  · obtain ⟨k, rfl⟩ := Nat.exists_eq_add_of_le behind
    rw [drop_behind]
    exact none k (by omega)

theorem FirstBoundary.behind {front later : Bytes} (first : FirstBoundary boundary later n)
    (earlier : ∀ j < front.length, ¬ boundary <+: (front ++ later).drop j) :
    FirstBoundary boundary (front ++ later) (front.length + n) := by
  obtain ⟨i, rfl, here, before⟩ := first
  exact ⟨front.length + i, by omega, by rw [drop_behind]; exact here, missed_behind earlier before⟩

theorem boundary_prefix (part : data <+: stream) (fits : i + boundary.length ≤ data.length) :
    boundary <+: data.drop i ↔ boundary <+: stream.drop i := by
  obtain ⟨rest, rfl⟩ := part
  rw [List.drop_append_of_le_length (by omega)]
  constructor
  · exact fun here => here.trans (List.prefix_append _ _)
  · intro here
    apply List.prefix_of_prefix_length_le here (List.prefix_append _ _)
    rw [List.length_drop]
    omega

end Occurrence

section Call

variable {x y : Input} {script : List ReadOutcome} {delivered boundary rest : Bytes} {reported : List (Nat × VfsResult)}
  {reply : Reply} {bytes i : Nat}

theorem Buffer.Fits.boundary_iff {b : Buffer} (fits : b.Fits) (part : b.contents <+: rest)
    (inside : i + boundary.length ≤ b.byteCount) :
    boundary <+: (b.data.drop b.offset).drop i ↔ boundary <+: rest.drop i := by
  have length := fits.length_contents
  have buffered : b.contents <+: b.data.drop b.offset := List.take_prefix _ _
  rw [← boundary_prefix buffered (by omega), boundary_prefix part (by omega)]

/-- With an error to be reported nothing is read any more. -/
theorem refillUntil_failed {boundaryLen fuel : Nat} (failed : x.buffer.lastError ≠ .ok) :
    refillUntil boundaryLen (fuel + 1) x script = some x := by
  rw [refillUntil, refillInputBuffer, if_pos failed]
  split
  · rfl
  · rfl

/-- The buffer that a call scans, and what it makes of it. -/
theorem Lossless.readUntil_cases (lossless : Lossless x delivered reported) (nonempty : 0 < boundary.length)
    (short : boundary.length < bufferSize) (positive : 0 < bytes)
    (done : socketBufferReadUntil bytes boundary x script = some (reply, y)) :
    ∃ z, Lossless z delivered reported ∧ x.buffer.contents <+: z.buffer.contents ∧
      (x.buffer.lastError ≠ .ok → z = x) ∧ (boundary.length < z.buffer.byteCount ∨ z.buffer.lastError ≠ .ok) ∧
      (reply.result = .ok ∧ 0 < z.buffer.byteCount ∧ reply.bytes.length =
          (scan (z.buffer.data.drop z.buffer.offset) boundary (min z.buffer.byteCount bytes)).1 ∧
        reply.gotBoundary = (scan (z.buffer.data.drop z.buffer.offset) boundary (min z.buffer.byteCount bytes)).2 ∧
        reply.bytes ++ y.buffer.contents = z.buffer.contents ∧ y.buffer.lastError = z.buffer.lastError ∨
      reply.result = z.buffer.lastError ∧ z.buffer.byteCount = 0 ∧ reply.bytes = [] ∧ reply.gotBoundary = false ∧
        y = z.report) := by
  rw [socketBufferReadUntil, if_neg (by omega), if_neg (by omega)] at done
  obtain ⟨z, filled, same⟩ := Option.map_eq_some_iff.mp done
  obtain ⟨refilled, atEnd⟩ := lossless.refillUntil boundary.length short _ filled
  obtain ⟨after, kept⟩ := lossless.refilled short refilled
  refine ⟨z, after, lossless.contents_prefix after kept, fun failed => ?_, atEnd, ?_⟩
  · rw [refillUntil_failed failed] at filled
    exact (Option.some.inj filled).symm
  have few : (scan (z.buffer.data.drop z.buffer.offset) boundary (min z.buffer.byteCount bytes)).1 ≤ _ := scan_le nonempty
  dsimp only at same
  split at same
  · rename_i some
    cases same
    obtain ⟨-, split⟩ := after.fits.consume (Nat.le_trans few (Nat.min_le_left _ _))
    refine .inl ⟨rfl, by omega, ?_, rfl, split, rfl⟩
    refine Memory.length_slice ?_
    rw [after.fits.size]
    have := after.fits.inside
    omega
  · rename_i nothing
    have empty : z.buffer.byteCount = 0 := by
      by_contra more
      exact nothing (scan_pos nonempty (by omega))
    cases same
    refine .inr ⟨rfl, empty, rfl, ?_, rfl⟩
    rw [empty, Nat.zero_min, scan, if_neg (by omega), decide_eq_false_iff_not]
    rintro ⟨never, -⟩
    omega

/-- Between the first byte of a window of the boundary's size and its end no boundary begins, unless the window
is one. -/
def Uncut (boundary rest : Bytes) (bytes : Nat) : Prop :=
  bytes = boundary.length → ¬ boundary <+: rest → ∀ j, 0 < j → j < bytes → ¬ boundary <+: rest.drop j

/-- Before the end of what a call takes without finding a boundary, none begins. -/
theorem missed_before {b : Buffer} (fits : b.Fits) (part : b.contents <+: rest) (enough : boundary.length ≤ bytes)
    (ended : b.byteCount ≤ boundary.length → rest = b.contents) (uncut : Uncut boundary rest bytes)
    (missed : (scan (b.data.drop b.offset) boundary (min b.byteCount bytes)).2 = false) :
    ∀ j < (scan (b.data.drop b.offset) boundary (min b.byteCount bytes)).1, ¬ boundary <+: rest.drop j := by
  have miss := scan_missed missed
  intro j before here
  split at miss
  · rename_i more
    obtain ⟨fetched, none⟩ := miss
    have inside : j + boundary.length ≤ min b.byteCount bytes := by omega
    exact none j inside ((fits.boundary_iff part (by omega)).mpr here)
  · rename_i few
    obtain ⟨fetched, none⟩ := miss
    have first : min b.byteCount bytes = boundary.length → ¬ boundary <+: rest := by
      intro exactly
      have inside : 0 + boundary.length ≤ b.byteCount := by omega
      have compared := fits.boundary_iff part inside
      rw [List.drop_zero, List.drop_zero] at compared
      rw [← compared]
      exact none exactly
    rcases Nat.lt_or_ge bytes b.byteCount with small | whole
    · -- the caller's window is as long as the boundary
      rcases Nat.eq_zero_or_pos j with rfl | inside
      · exact first (by omega) here
      · exact uncut (by omega) (first (by omega)) j inside (by omega) here
    · -- the stream ends in the window
      have length := here.length_le
      rw [ended (by omega), List.length_drop, fits.length_contents] at length
      obtain rfl : j = 0 := by omega
      exact first (by omega) here

/-- What a call says of the boundary. -/
theorem Lossless.readUntil_boundary (lossless : Lossless x delivered reported) (nonempty : 0 < boundary.length)
    (short : boundary.length < bufferSize) (enough : boundary.length ≤ bytes)
    (done : socketBufferReadUntil bytes boundary x script = some (reply, y))
    (part : reply.bytes ++ y.buffer.contents <+: rest)
    (ended : reply.result ≠ .ok ∨ y.buffer.lastError ≠ .ok → rest = reply.bytes ++ y.buffer.contents)
    (uncut : Uncut boundary rest bytes) :
    (reply.gotBoundary = true → FirstBoundary boundary rest reply.bytes.length) ∧
      (reply.gotBoundary = false → ∀ j < reply.bytes.length, ¬ boundary <+: rest.drop j) ∧
      (reply.result ≠ .ok → reply.gotBoundary = false ∧ reply.bytes = [] ∧ y.buffer.contents = []) ∧
      (reply.result = .ok → 0 < reply.bytes.length) := by
  obtain ⟨z, after, -, -, atEnd, ⟨fine, some, length, got, split, error⟩ | ⟨failed, empty, nothing, got, rfl⟩⟩ :=
    lossless.readUntil_cases nonempty short (by omega) done
  · rw [split] at part
    refine ⟨fun here => ?_, fun missed => ?_, fun failed => absurd fine failed, fun _ => ?_⟩
    · obtain ⟨i, fetched, inside, found, before⟩ := scan_found (got.symm.trans here)
      refine ⟨i, length.trans fetched, (after.fits.boundary_iff part (by omega)).mp found, fun j earlier => ?_⟩
      rw [← after.fits.boundary_iff part (by omega)]
      exact before j earlier
    · rw [length]
      refine missed_before after.fits part enough (fun few => ?_) uncut (got.symm.trans missed)
      rw [← split]
      exact ended (.inr (error ▸ atEnd.resolve_left (by omega)))
    · rw [length]
      exact scan_pos nonempty (by omega)
  · have none : z.buffer.contents = [] := List.length_eq_zero_iff.mp (by rw [after.fits.length_contents, empty])
    have broken := atEnd.resolve_left (by omega)
    refine ⟨fun here => absurd (got.symm.trans here) Bool.false_ne_true, fun _ => ?_, fun _ => ⟨got, nothing, none⟩, fun fine => ?_⟩
    · rw [nothing]
      exact fun j never => absurd never (Nat.not_lt_zero j)
    · exact absurd (failed.symm.trans fine) broken

end Call

section Loop

/-- A loop of calls of `gnome_vfs_socket_buffer_read_until`: what has been consumed so far, how many calls
there were, and what the last one has said. -/
structure BoundaryLoop where
  input : Input
  consumed : Bytes
  calls : Nat
  result : VfsResult
  gotBoundary : Bool
  deriving DecidableEq

namespace BoundaryLoop

def start (x : Input) : BoundaryLoop := ⟨x, [], 0, .ok, false⟩

/-- The next call, with what the socket would give while it lasts. -/
def step (boundary : Bytes) (s : BoundaryLoop) (event : Nat × List ReadOutcome) : Option BoundaryLoop :=
  if s.gotBoundary ∨ s.result ≠ .ok then none
  else (socketBufferReadUntil event.1 boundary s.input event.2).map fun done =>
    ⟨done.2, s.consumed ++ done.1.bytes, s.calls + 1, done.1.result, done.1.gotBoundary⟩

/-- What the loop has read so far is the beginning of the stream; the socket fails at its end. -/
def Covers (stream : Bytes) (s : BoundaryLoop) : Prop :=
  s.consumed ++ s.input.buffer.contents <+: stream ∧
    (s.result ≠ .ok ∨ s.input.buffer.lastError ≠ .ok → stream = s.consumed ++ s.input.buffer.contents)

/-- The calls are to take a boundary at least, and do not cut one. -/
def allowed (boundary stream : Bytes) (s : BoundaryLoop) (event : Nat × List ReadOutcome) : Prop :=
  boundary.length ≤ event.1 ∧ Uncut boundary (stream.drop s.consumed.length) event.1

/-- The loop has found the first boundary of the stream, or that there is none, or is still before it. -/
structure Finds (boundary stream : Bytes) (s : BoundaryLoop) : Prop where
  found : s.gotBoundary = true ↔ FirstBoundary boundary stream s.consumed.length
  before : s.gotBoundary = false → ∀ n, FirstBoundary boundary stream n → s.consumed.length < n
  ended : s.result ≠ .ok → ∀ n, ¬ FirstBoundary boundary stream n
  advances : s.result = .ok → s.calls ≤ s.consumed.length

/-- What is kept from call to call. -/
structure Seeks (boundary stream : Bytes) (s : BoundaryLoop) : Prop where
  found : s.gotBoundary = true → FirstBoundary boundary stream s.consumed.length
  missed : s.gotBoundary = false → ∀ j < s.consumed.length, ¬ boundary <+: stream.drop j
  ended : s.result ≠ .ok → s.gotBoundary = false ∧ s.input.buffer.contents = []
  advances : s.result = .ok → s.calls ≤ s.consumed.length

variable {boundary stream : Bytes} {s t : BoundaryLoop} {event : Nat × List ReadOutcome}

theorem Seeks.finds (seeks : Seeks boundary stream s) (nonempty : 0 < boundary.length) (covers : Covers stream s) :
    Finds boundary stream s := by
  have before : s.gotBoundary = false → ∀ n, FirstBoundary boundary stream n → s.consumed.length < n :=
    fun missed n first => first.later nonempty (seeks.missed missed)
  refine ⟨⟨seeks.found, fun first => ?_⟩, before, fun failed n first => ?_, seeks.advances⟩
  · by_contra missed
    exact Nat.lt_irrefl _ (before (by simpa using missed) _ first)
  · obtain ⟨missed, none⟩ := seeks.ended failed
    have inside := first.le_length nonempty
    rw [covers.2 (.inl failed), none, List.append_nil] at inside
    have := before missed n first
    omega

theorem step_cases (stepped : step boundary s event = some t) :
    s.gotBoundary = false ∧ s.result = .ok ∧ ∃ reply y,
      socketBufferReadUntil event.1 boundary s.input event.2 = some (reply, y) ∧
      t = ⟨y, s.consumed ++ reply.bytes, s.calls + 1, reply.result, reply.gotBoundary⟩ := by
  rw [step] at stepped
  split at stepped
  · cases stepped
  · rename_i goesOn
    obtain ⟨⟨reply, y⟩, done, rfl⟩ := Option.map_eq_some_iff.mp stepped
    rw [not_or, Bool.not_eq_true, not_not] at goesOn
    exact ⟨goesOn.1, goesOn.2, reply, y, done, rfl⟩

theorem Covers.back {delivered : Bytes} {reported : List (Nat × VfsResult)} (lossless : Lossless s.input delivered reported)
    (nonempty : 0 < boundary.length) (short : boundary.length < bufferSize) (positive : 0 < event.1)
    (stepped : step boundary s event = some t) (covers : Covers stream t) : Covers stream s := by
  obtain ⟨-, fine, reply, y, done, rfl⟩ := step_cases stepped
  obtain ⟨z, -, kept, still, -, ends⟩ := lossless.readUntil_cases nonempty short positive done
  have split : (s.consumed ++ reply.bytes) ++ y.buffer.contents = s.consumed ++ z.buffer.contents := by
    rw [List.append_assoc]
    rcases ends with ⟨-, -, -, -, taken, -⟩ | ⟨-, -, nothing, -, rfl⟩
    · rw [taken]
    · rw [nothing, List.nil_append]
      rfl
  have pending : z.buffer.lastError ≠ .ok → reply.result ≠ .ok ∨ y.buffer.lastError ≠ .ok := by
    intro failed
    rcases ends with ⟨-, -, -, -, -, error⟩ | ⟨error, -⟩
    · exact .inr (by rw [error]; exact failed)
    · exact .inl (by rw [error]; exact failed)
  obtain ⟨part, whole⟩ := covers
  dsimp only at part whole
  rw [split] at part whole
  refine ⟨((List.prefix_append_right_inj _).mpr kept).trans part, fun failed => ?_⟩
  obtain rfl := still (failed.resolve_left fun bad => bad fine)
  exact whole (pending (failed.resolve_left fun bad => bad fine))

/-- A call that is allowed goes on looking. -/
theorem Seeks.step {delivered : Bytes} {reported : List (Nat × VfsResult)} (lossless : Lossless s.input delivered reported)
    (nonempty : 0 < boundary.length) (short : boundary.length < bufferSize) (fits : allowed boundary stream s event)
    (stepped : BoundaryLoop.step boundary s event = some t) (covers : Covers stream t) (seeks : Seeks boundary stream s) :
    Seeks boundary stream t := by
  obtain ⟨missed, fine, reply, y, done, rfl⟩ := step_cases stepped
  obtain ⟨part, whole⟩ := covers
  obtain ⟨enough, uncut⟩ := fits
  dsimp only at part whole
  rw [List.append_assoc] at part whole
  obtain ⟨later, rfl⟩ := (List.prefix_append s.consumed _).trans part
  rw [List.drop_left] at uncut
  have said := lossless.readUntil_boundary nonempty short enough done ((List.prefix_append_right_inj _).mp part)
    (fun failed => List.append_cancel_left (whole failed)) uncut
  obtain ⟨found, none, ended, takes⟩ := said
  have earlier := seeks.missed missed
  refine ⟨fun here => ?_, fun not => ?_, fun failed => ?_, fun ok => ?_⟩
  · rw [List.length_append]
    exact (found here).behind earlier
  · rw [List.length_append]
    exact missed_behind earlier (none not)
  · obtain ⟨not, -, empty⟩ := ended failed
    exact ⟨not, empty⟩
  · have more := takes ok
    have before := seeks.advances fine
    rw [List.length_append]
    dsimp only
    omega

/-- Every loop that reads a stream up to a boundary, with calls that take at least a boundary and cut none, is told
of the first boundary by the call that takes it, and of no other, however the stream comes in. It comes to the
boundary, as each call that succeeds takes something, and it ends in an error only if there is none. -/
theorem reads_to_boundary (boundary stream data : Bytes) (nonempty : 0 < boundary.length) (short : boundary.length < bufferSize)
    (size : data.length = bufferSize) (session : Session)
    (before : Run Session.step Session.allowed (Session.start data) session) (s : BoundaryLoop)
    (run : Run (step boundary) (allowed boundary stream) (start session.input) s) (covers : Covers stream s) :
    Finds boundary stream s := by
  have lossless : Lossless session.input session.delivered session.reported := by
    apply before.keeps (P := fun s => Lossless s.input s.delivered s.reported) (Lossless.start data size)
    intro s event t holds fits stepped
    exact Session.step_lossless holds fits stepped
  have kept : (∃ delivered reported, Lossless s.input delivered reported) ∧ (Covers stream s → Seeks boundary stream s) := by
    apply run.keeps (P := fun s => (∃ delivered reported, Lossless s.input delivered reported) ∧
      (Covers stream s → Seeks boundary stream s))
    · refine ⟨⟨_, _, lossless⟩, fun _ => ⟨fun never => ?_, fun _ j never => ?_, fun never => ?_, fun _ => Nat.le_refl _⟩⟩
      · cases never
      · exact absurd never (Nat.not_lt_zero j)
      · exact absurd rfl never
    · rintro s event t ⟨⟨delivered, reported, lossless⟩, seeks⟩ fits stepped
      refine ⟨?_, fun covers => ?_⟩
      · obtain ⟨-, -, reply, y, done, rfl⟩ := step_cases stepped
        exact ⟨_, _, lossless.readUntil nonempty short done⟩
      · exact (seeks (covers.back lossless nonempty short (by have := fits.1; omega) stepped)).step lossless nonempty short fits stepped covers
  exact (kept.2 covers).finds nonempty covers

/-- An empty line ends a header. -/
theorem reads_to_boundary_line : ∃ s : BoundaryLoop,
    Run (step [13, 10]) (allowed [13, 10] [97, 13, 10, 98]) (start (Session.start (List.replicate bufferSize 0)).input) s ∧
      s.consumed = [97, 13, 10] ∧ s.gotBoundary = true ∧ Finds [13, 10] [97, 13, 10, 98] s := by
  have run : Run (step [13, 10]) (allowed [13, 10] [97, 13, 10, 98])
      (start (Session.start (List.replicate bufferSize 0)).input) _ :=
    .next (80, [.bytes 97 [13, 10, 98]]) .refl ⟨by decide, fun never => absurd never (by decide)⟩ rfl
  refine ⟨_, run, rfl, rfl, ?_⟩
  exact reads_to_boundary [13, 10] [97, 13, 10, 98] (List.replicate bufferSize 0) (by decide) (by decide) List.length_replicate
    (Session.start (List.replicate bufferSize 0)) .refl _ run ⟨⟨[], rfl⟩, fun failed => absurd failed (by decide)⟩

/-- Calls that take two bytes each run past a boundary of two bytes. -/
theorem reads_past_boundary : ∃ s : BoundaryLoop,
    Run (step [13, 10]) (fun _ event => List.length [13, 10] ≤ event.1)
      (start (Session.start (List.replicate bufferSize 0)).input) s ∧
      Covers [97, 13, 10, 98] s ∧ ¬ Finds [13, 10] [97, 13, 10, 98] s := by
  have run : Run (step [13, 10]) (fun _ event => List.length [13, 10] ≤ event.1)
      (start (Session.start (List.replicate bufferSize 0)).input) _ :=
    .next (2, [.error ⟨.eof, by decide⟩]) (.next (2, [.bytes 97 [13, 10, 98]]) .refl (Nat.le_refl _) rfl) (Nat.le_refl _) rfl
  refine ⟨_, run, ⟨⟨[], rfl⟩, fun _ => rfl⟩, fun finds => ?_⟩
  have first : FirstBoundary [13, 10] [97, 13, 10, 98] 3 := ⟨1, by decide, by decide, by decide⟩
  exact absurd (finds.before rfl 3 first) (by decide)

end BoundaryLoop

end Loop

end GnomeVfs.Socket
