import GnomeVfs.SocketInput

/- What is written through the buffer of a socket is accepted by the socket once and in order. -/
namespace GnomeVfs.Socket

open Transition

section Flush

/-- `written` is what the callers have been told was written. -/
structure Queued (x : Output) (written : Bytes) : Prop where
  fits : x.buffer.Fits
  front : x.buffer.offset = 0
  fifo : x.accepted ++ Memory.slice x.buffer.data 0 x.buffer.byteCount = written
  offers : ∀ n ∈ x.offered, 0 < n ∧ n ≤ bufferSize

variable {x y : Output} {script rest : List WriteOutcome} {written : Bytes} {result : VfsResult}

theorem Queued.start (data : Bytes) (size : data.length = bufferSize) : Queued ⟨.init data, [], []⟩ [] := by
  refine ⟨⟨size, Nat.zero_le _⟩, rfl, rfl, ?_⟩
  intro n member
  cases member

theorem Queued.offer (queued : Queued x written) (some : 0 < x.buffer.byteCount) :
    ∀ n ∈ x.offered ++ [x.buffer.byteCount], 0 < n ∧ n ≤ bufferSize := by
  intro n member
  have inside := queued.fits.inside
  rcases List.mem_append.mp member with old | new
  · exact queued.offers n old
  · rw [List.mem_singleton.mp new]
    omega

/-- The socket takes the first bytes of the buffer, and the rest is moved to the front. -/
def Output.accept (x : Output) (n : Nat) : Output := { x with
  buffer := { x.buffer with
    data := Memory.write x.buffer.data 0 (Memory.slice x.buffer.data n (x.buffer.byteCount - n))
    byteCount := x.buffer.byteCount - n
    lastError := .ok }
  accepted := x.accepted ++ Memory.slice x.buffer.data 0 n
  offered := x.offered ++ [x.buffer.byteCount] }

theorem Queued.accept (queued : Queued x written) (some : 0 < x.buffer.byteCount) {n : Nat}
    (few : n ≤ x.buffer.byteCount) : Queued (x.accept n) written := by
  have inside := queued.fits.inside
  have size := queued.fits.size
  have length : (Memory.slice x.buffer.data n (x.buffer.byteCount - n)).length = x.buffer.byteCount - n :=
    Memory.length_slice (by omega)
  refine ⟨⟨?_, ?_⟩, queued.front, ?_, queued.offer some⟩
  · exact (Memory.length_write (by omega)).trans size
  · show x.buffer.offset + (x.buffer.byteCount - n) ≤ bufferSize
    omega
  · have back : Memory.slice (Memory.write x.buffer.data 0 (Memory.slice x.buffer.data n (x.buffer.byteCount - n))) 0
        (Memory.slice x.buffer.data n (x.buffer.byteCount - n)).length = _ := Memory.slice_write (by omega)
    rw [length] at back
    have whole := Memory.slice_add x.buffer.data 0 n (x.buffer.byteCount - n)
    rw [Nat.add_sub_cancel' few, Nat.zero_add] at whole
    show (x.accepted ++ Memory.slice x.buffer.data 0 n) ++ Memory.slice (Memory.write _ 0 _) 0 (x.buffer.byteCount - n) = written
    rw [back, List.append_assoc, ← whole]
    exact queued.fifo

theorem flush_empty (script : List WriteOutcome) (none : ¬ 0 < x.buffer.byteCount) :
    Socket.flush script x = some (.ok, x, script) := by
  rw [Socket.flush.eq_def]
  exact if_neg none

theorem flush_dry (some : 0 < x.buffer.byteCount) : Socket.flush [] x = none := by
  rw [Socket.flush.eq_def]
  exact if_pos some

theorem flush_error (some : 0 < x.buffer.byteCount) (failure : Failure) :
    Socket.flush (.error failure :: rest) x = Option.some (failure.1, { x with
      buffer := { x.buffer with lastError := failure.1 }
      offered := x.offered ++ [x.buffer.byteCount] }, rest) := by
  rw [Socket.flush.eq_def]
  exact if_pos some

theorem flush_accepts (some : 0 < x.buffer.byteCount) (more : Nat) :
    Socket.flush (.accepts more :: rest) x = Socket.flush rest (x.accept (min (more + 1) x.buffer.byteCount)) := by
  rw [Socket.flush.eq_def]
  exact if_pos some

/-- A flush that succeeds leaves nothing, and has used at most one outcome for each byte. -/
theorem Queued.flush : ∀ (script : List WriteOutcome) {x : Output}, Queued x written →
    flush script x = some (result, y, rest) → Queued y written ∧
      (result = .ok → y.buffer.byteCount = 0 ∧ script.length ≤ rest.length + x.buffer.byteCount) ∧
      rest.length ≤ script.length ∧ (0 < x.buffer.byteCount → rest.length < script.length) := by
  intro script
  induction script with
  | nil =>
    intro x queued flushed
    by_cases some : 0 < x.buffer.byteCount
    · rw [flush_dry some] at flushed
      cases flushed
    · rw [flush_empty [] some] at flushed
      cases flushed
      exact ⟨queued, fun _ => ⟨by omega, Nat.zero_le _⟩, Nat.le_refl _, fun never => absurd never some⟩
  | cons outcome later ih =>
    intro x queued flushed
    by_cases some : 0 < x.buffer.byteCount
    · cases outcome with
      | error failure =>
        rw [flush_error some] at flushed
        cases flushed
        refine ⟨⟨⟨queued.fits.size, queued.fits.inside⟩, queued.front, queued.fifo, queued.offer some⟩, ?_, ?_⟩
        · exact fun never => absurd never failure.2
        · exact ⟨Nat.le_succ _, fun _ => Nat.lt_succ_self _⟩
      | accepts more =>
        rw [flush_accepts some] at flushed
        have few : min (more + 1) x.buffer.byteCount ≤ x.buffer.byteCount := Nat.min_le_right _ _
        obtain ⟨after, empty, shorter, -⟩ := ih (queued.accept some few) flushed
        refine ⟨after, ?_, Nat.le_succ_of_le shorter, fun _ => Nat.lt_succ_of_le shorter⟩
        intro fine
        obtain ⟨none, used⟩ := empty fine
        have used : later.length ≤ rest.length + (x.buffer.byteCount - min (more + 1) x.buffer.byteCount) := used
        refine ⟨none, ?_⟩
        rw [List.length_cons]
        omega
    · rw [flush_empty _ some] at flushed
      cases flushed
      exact ⟨queued, fun _ => ⟨by omega, Nat.le_add_right _ _⟩, Nat.le_refl _, fun never => absurd never some⟩

theorem flush_isSome : ∀ (script : List WriteOutcome) (x : Output), x.buffer.byteCount ≤ script.length →
    (Socket.flush script x).isSome := by
  intro script
  induction script with
  | nil =>
    intro x enough
    rw [List.length_nil] at enough
    rw [flush_empty [] (by omega)]
    rfl
  | cons outcome later ih =>
    intro x enough
    rw [List.length_cons] at enough
    by_cases some : 0 < x.buffer.byteCount
    · cases outcome with
      | error failure =>
        rw [flush_error some]
        rfl
      | accepts more =>
        rw [flush_accepts some]
        apply ih
        show x.buffer.byteCount - min (more + 1) x.buffer.byteCount ≤ _
        omega
    · rw [flush_empty _ some]
      rfl

end Flush

section Write

variable {x y : Output} {script : List WriteOutcome} {before data : Bytes} {writeCount n : Nat}

theorem Queued.fill (queued : Queued x (before ++ Memory.slice data 0 writeCount))
    (room : x.buffer.byteCount + n ≤ bufferSize) (more : writeCount + n ≤ data.length) :
    Queued (x.fill (Memory.slice data writeCount n)) (before ++ Memory.slice data 0 (writeCount + n)) ∧
      (x.fill (Memory.slice data writeCount n)).buffer.byteCount = x.buffer.byteCount + n := by
  have size := queued.fits.size
  have length : (Memory.slice data writeCount n).length = n := Memory.length_slice more
  obtain ⟨fits, contents⟩ := queued.fits.append queued.front (Memory.slice data writeCount n) (by omega)
  rw [Buffer.contents, Buffer.contents, queued.front] at contents
  refine ⟨⟨fits, queued.front, ?_, queued.offers⟩, ?_⟩
  · have split := Memory.slice_add data 0 writeCount n
    rw [Nat.zero_add] at split
    rw [split, ← List.append_assoc, ← queued.fifo, List.append_assoc]
    exact congrArg (x.accepted ++ ·) contents
  · show x.buffer.byteCount + (Memory.slice data writeCount n).length = _
    omega

/-- The number of bytes that the next round of the loop puts into the buffer. -/
def portion (x : Output) (data : Bytes) (writeCount : Nat) : Nat :=
  if x.buffer.byteCount < bufferSize then min (bufferSize - x.buffer.byteCount) (data.length - writeCount) else 0

/-- The output after these bytes have been put into its buffer. -/
def filled (x : Output) (data : Bytes) (writeCount : Nat) : Output :=
  if x.buffer.byteCount < bufferSize then x.fill (Memory.slice data writeCount (portion x data writeCount)) else x

theorem writeLoop_succ (fuel : Nat) (more : writeCount < data.length) :
    writeLoop data (fuel + 1) writeCount x script =
      if (filled x data writeCount).buffer.byteCount ≥ bufferSize then
        (flush script (filled x data writeCount)).bind fun done =>
          if done.1 ≠ .ok then some ((done.1, writeCount + portion x data writeCount), done.2.1)
          else writeLoop data fuel (writeCount + portion x data writeCount) done.2.1 done.2.2
      else writeLoop data fuel (writeCount + portion x data writeCount) (filled x data writeCount) script := by
  rw [writeLoop, if_pos more]
  by_cases room : x.buffer.byteCount < bufferSize
  · simp only [filled, portion, if_pos room]
  · simp only [filled, portion, if_neg room]

theorem writeLoop_end (fuel : Nat) (all : ¬ writeCount < data.length) :
    writeLoop data (fuel + 1) writeCount x script = some ((.ok, writeCount), x) := by
  rw [writeLoop, if_neg all]

theorem Queued.filled (queued : Queued x (before ++ Memory.slice data 0 writeCount)) (more : writeCount < data.length) :
    Queued (filled x data writeCount) (before ++ Memory.slice data 0 (writeCount + portion x data writeCount)) ∧
      (filled x data writeCount).buffer.byteCount = x.buffer.byteCount + portion x data writeCount ∧
      writeCount + portion x data writeCount ≤ data.length ∧
      (x.buffer.byteCount + portion x data writeCount < bufferSize →
        writeCount + portion x data writeCount = data.length) := by
  have inside := queued.fits.inside
  by_cases room : x.buffer.byteCount < bufferSize
  · have amount : portion x data writeCount = min (bufferSize - x.buffer.byteCount) (data.length - writeCount) :=
      if_pos room
    rw [Socket.filled, if_pos room]
    obtain ⟨after, count⟩ := queued.fill (n := portion x data writeCount) (by omega) (by omega)
    exact ⟨after, count, by omega, fun _ => by omega⟩
  · have amount : portion x data writeCount = 0 := if_neg room
    rw [Socket.filled, if_neg room, amount]
    exact ⟨queued, rfl, by omega, fun never => by omega⟩

theorem Queued.writeLoop : ∀ (fuel : Nat) {writeCount : Nat} {x : Output} {script : List WriteOutcome}
    {result : VfsResult} {n : Nat}, Queued x (before ++ Memory.slice data 0 writeCount) → writeCount ≤ data.length →
      writeLoop data fuel writeCount x script = some ((result, n), y) →
      Queued y (before ++ Memory.slice data 0 n) ∧ n ≤ data.length ∧ (result = .ok → n = data.length) := by
  intro fuel
  induction fuel with
  | zero =>
    intro writeCount x script result n queued part looped
    cases looped
  | succ fuel ih =>
    intro writeCount x script result n queued part looped
    by_cases more : writeCount < data.length
    · rw [writeLoop_succ fuel more] at looped
      obtain ⟨full, -, inside, -⟩ := queued.filled more
      split at looped
      · obtain ⟨⟨r, z, rest⟩, flushed, next⟩ := Option.bind_eq_some_iff.mp looped
        obtain ⟨after, -⟩ := full.flush script flushed
        split at next
        · rename_i failed
          cases next
          exact ⟨after, inside, fun never => absurd never failed⟩
        · exact ih after inside next
      · exact ih full inside looped
    · rw [writeLoop_end fuel more] at looped
      cases looped
      exact ⟨queued, part, fun _ => by omega⟩

/-- One outcome for each byte in the buffer and each byte to be written is enough. -/
theorem writeLoop_isSome : ∀ (fuel : Nat) {writeCount : Nat} {x : Output} {script : List WriteOutcome},
    Queued x (before ++ Memory.slice data 0 writeCount) → script.length + 2 ≤ fuel →
      x.buffer.byteCount + (data.length - writeCount) ≤ script.length →
      (writeLoop data fuel writeCount x script).isSome := by
  have size : 0 < bufferSize := by decide
  intro fuel
  induction fuel with
  | zero =>
    intro writeCount x script queued never enough
    omega
  | succ fuel ih =>
    intro writeCount x script queued few enough
    by_cases more : writeCount < data.length
    · rw [writeLoop_succ fuel more]
      obtain ⟨full, count, inside, last⟩ := queued.filled more
      split
      · obtain ⟨⟨result, y, rest⟩, flushed⟩ :=
          Option.isSome_iff_exists.mp (flush_isSome script (Socket.filled x data writeCount) (by omega))
        obtain ⟨after, empty, -, shorter⟩ := full.flush script flushed
        have shorter := shorter (by omega)
        rw [flushed]
        show (ite _ _ _ : Option _).isSome
        split
        · rfl
        · rename_i fine
          obtain ⟨none, used⟩ := empty (by simpa using fine)
          show (Socket.writeLoop data fuel _ y rest).isSome
          exact ih after (by omega) (by omega)
      · -- the rest of the data has gone into the buffer
        rename_i short
        have all := last (by omega)
        cases fuel with
        | zero => omega
        | succ fuel =>
          rw [writeLoop_end fuel (by omega)]
          rfl
    · rw [writeLoop_end fuel more]
      rfl

end Write

/-- A call of `write`, with its data, its result and the number of bytes it has reported. -/
structure Written where
  data : Bytes
  result : VfsResult
  bytesWritten : Nat
  deriving DecidableEq

/-- The output with the calls of `write` that have returned. -/
structure Sending where
  output : Output
  calls : List Written
  deriving DecidableEq

/-- What the callers may take to be sent, now or later. -/
def Sending.written (s : Sending) : Bytes := s.calls.flatMap fun call => call.data.take call.bytesWritten

inductive SendEvent where
  | write (data : Bytes) (script : List WriteOutcome)
  | flush (script : List WriteOutcome)
  deriving DecidableEq

/-- A call, with what the socket would give while it lasts. -/
def Sending.step (s : Sending) : SendEvent → Option Sending
  | .write data script => (socketBufferWrite data s.output script).map fun done =>
    ⟨done.2, s.calls ++ [⟨data, done.1.1, done.1.2⟩]⟩
  | .flush script => (Socket.flush script s.output).map fun done => { s with output := done.2.1 }

/-- A new buffer, whose memory may hold anything. -/
def Sending.start (data : Bytes) : Sending := ⟨⟨.init data, [], []⟩, []⟩

structure Sending.Ordered (s : Sending) : Prop where
  queued : Queued s.output s.written
  counted : ∀ call ∈ s.calls, call.bytesWritten ≤ call.data.length ∧
    (call.result = .ok → call.bytesWritten = call.data.length)

theorem Sending.Ordered.step {s t : Sending} {event : SendEvent} (ordered : s.Ordered)
    (stepped : s.step event = some t) : t.Ordered := by
  cases event with
  | write data script =>
    obtain ⟨⟨⟨result, n⟩, y⟩, done, rfl⟩ := Option.map_eq_some_iff.mp stepped
    have start : Queued s.output (s.written ++ Memory.slice data 0 0) := by
      rw [Memory.slice_zero, List.append_nil]
      exact ordered.queued
    obtain ⟨after, few, all⟩ := start.writeLoop _ (Nat.zero_le _) done
    refine ⟨?_, ?_⟩
    · show Queued y ((s.calls ++ [_]).flatMap _)
      rw [List.flatMap_append, List.flatMap_singleton]
      exact after
    · intro call member
      rcases List.mem_append.mp member with old | new
      · exact ordered.counted call old
      · rw [List.mem_singleton.mp new]
        exact ⟨few, all⟩
  | flush script =>
    obtain ⟨⟨result, y, rest⟩, done, rfl⟩ := Option.map_eq_some_iff.mp stepped
    exact ⟨(ordered.queued.flush script done).1, ordered.counted⟩

/-- In whatever order a buffer is written to and flushed, with any data and any outcomes of the socket:
what the socket has accepted, followed by what is in the buffer, is what the calls have reported as
written, the buffer is never overfull, and a call that succeeds has written everything. A call returns
where the socket gives outcomes enough. -/
theorem Sending.run_ordered (data : Bytes) (size : data.length = bufferSize) {s : Sending}
    (run : Run Sending.step (fun _ _ => True) (Sending.start data) s) :
    s.output.accepted ++ s.output.buffer.data.take s.output.buffer.byteCount =
      s.calls.flatMap (fun call => call.data.take call.bytesWritten) ∧
    s.output.buffer.byteCount ≤ bufferSize ∧ (∀ n ∈ s.output.offered, 0 < n ∧ n ≤ bufferSize) ∧
    (∀ call ∈ s.calls, call.bytesWritten ≤ call.data.length ∧
      (call.result = .ok → call.bytesWritten = call.data.length)) ∧
    (∀ (more : Bytes) (script : List WriteOutcome), s.output.buffer.byteCount + more.length ≤ script.length →
      (s.step (.write more script)).isSome ∧ (s.step (.flush script)).isSome) := by
  have ordered : s.Ordered := by
    apply run.keeps (P := fun s => s.Ordered)
    · refine ⟨Queued.start data size, ?_⟩
      intro call member
      cases member
    · intro s event t holds _ stepped
      exact holds.step stepped
  have inside := ordered.queued.fits.inside
  refine ⟨ordered.queued.fifo, by omega, ordered.queued.offers, ordered.counted, ?_⟩
  intro more script enough
  have start : Queued s.output (s.written ++ Memory.slice more 0 0) := by
    rw [Memory.slice_zero, List.append_nil]
    exact ordered.queued
  refine ⟨?_, ?_⟩
  · rw [Sending.step, Option.isSome_map]
    exact writeLoop_isSome (script.length + 3) start (by omega) (by omega)
  · rw [Sending.step, Option.isSome_map]
    exact flush_isSome script s.output (by omega)

/-- Three bytes are written, the socket accepts one of them and then fails. -/
theorem Sending.flush_ordered : ∃ s : Sending, Run Sending.step (fun _ _ => True)
    (Sending.start (List.replicate bufferSize 0)) s ∧ s.output.accepted = [1] ∧ s.output.buffer.byteCount = 2 ∧
      s.output.accepted ++ s.output.buffer.data.take s.output.buffer.byteCount =
        s.calls.flatMap (fun call => call.data.take call.bytesWritten) := by
  have run : Run Sending.step (fun _ _ => True) (Sending.start (List.replicate bufferSize 0)) _ :=
    .next (.flush [.accepts 0, .error ⟨.io, by decide⟩]) (.next (.write [1, 2, 3] []) .refl trivial rfl) trivial rfl
  exact ⟨_, run, rfl, rfl, (Sending.run_ordered _ List.length_replicate run).1⟩

end GnomeVfs.Socket
