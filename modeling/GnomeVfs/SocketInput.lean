import GnomeVfs.SocketBuffer

/- What is received from a socket is delivered through its buffer once, in order, and each failure
is reported once, behind the bytes that were received before it. -/
namespace GnomeVfs.Socket

open Transition

section Buffered

/-- The bytes in the buffer. -/
def Buffer.contents (b : Buffer) : Bytes := Memory.slice b.data b.offset b.byteCount

/-- The buffer lies within its memory. -/
structure Buffer.Fits (b : Buffer) : Prop where
  size : b.data.length = bufferSize
  inside : b.offset + b.byteCount ≤ bufferSize

variable {b : Buffer}

theorem Buffer.Fits.length_contents (fits : b.Fits) : b.contents.length = b.byteCount :=
  Memory.length_slice (by rw [fits.size]; exact fits.inside)

theorem Buffer.Fits.compact (fits : b.Fits) :
    b.compact.Fits ∧ b.compact.offset = 0 ∧ b.compact.byteCount = b.byteCount ∧ b.compact.lastError = b.lastError ∧
      b.compact.contents = b.contents := by
  have inside := fits.inside
  have length := fits.length_contents
  rw [Buffer.compact]
  split
  · have room : 0 + (Memory.slice b.data b.offset b.byteCount).length ≤ b.data.length := by
      rw [fits.size]
      show 0 + b.contents.length ≤ _
      omega
    refine ⟨⟨?_, ?_⟩, rfl, rfl, rfl, ?_⟩
    · rw [Memory.length_write room, fits.size]
    · show 0 + b.byteCount ≤ bufferSize
      omega
    · have back := Memory.slice_write room
      rw [show (Memory.slice b.data b.offset b.byteCount).length = b.byteCount from length] at back
      exact back
  · exact ⟨fits, by omega, rfl, rfl, rfl⟩

theorem Buffer.Fits.append (fits : b.Fits) (front : b.offset = 0) (bytes : Bytes)
    (room : b.byteCount + bytes.length ≤ bufferSize) :
    ({ b with
        data := Memory.write b.data b.byteCount bytes
        byteCount := b.byteCount + bytes.length } : Buffer).Fits ∧
      ({ b with
        data := Memory.write b.data b.byteCount bytes
        byteCount := b.byteCount + bytes.length } : Buffer).contents = b.contents ++ bytes := by
  have size := fits.size
  refine ⟨⟨?_, ?_⟩, ?_⟩
  · rw [Memory.length_write (by omega), size]
  · show b.offset + (b.byteCount + bytes.length) ≤ _
    omega
  · have longer := Memory.slice_write_append b.data bytes b.offset b.byteCount (by omega)
    rw [front, Nat.zero_add] at longer
    rw [Buffer.contents, Buffer.contents, front]
    exact longer

theorem Buffer.Fits.consume (fits : b.Fits) {n : Nat} (few : n ≤ b.byteCount) :
    (b.consume n).Fits ∧ Memory.slice b.data b.offset n ++ (b.consume n).contents = b.contents := by
  have inside := fits.inside
  refine ⟨⟨fits.size, ?_⟩, ?_⟩
  · show b.offset + n + (b.byteCount - n) ≤ _
    omega
  · have split := Memory.slice_add b.data b.offset n (b.byteCount - n)
    rw [Nat.add_sub_cancel' few] at split
    exact split.symm

end Buffered

section Refill

/-- The error that is still to be reported, with the number of bytes received before it. -/
def Input.pending (x : Input) : List (Nat × VfsResult) :=
  if x.buffer.lastError = .ok then [] else [(x.received.length, x.buffer.lastError)]

/-- What the callers have got so far: the bytes, and the errors, each with the number of bytes
delivered before it. -/
structure Lossless (x : Input) (delivered : Bytes) (reported : List (Nat × VfsResult)) : Prop where
  fits : x.buffer.Fits
  fifo : delivered ++ x.buffer.contents = x.received
  asked : ∀ n ∈ x.requests, 0 < n
  errors : x.failures = reported ++ x.pending

variable {x y : Input} {script rest : List ReadOutcome} {delivered : Bytes} {reported : List (Nat × VfsResult)}

theorem Lossless.start (data : Bytes) (size : data.length = bufferSize) :
    Lossless ⟨.init data, [], [], []⟩ [] [] := by
  refine ⟨⟨size, Nat.zero_le _⟩, ?_, ?_, rfl⟩
  · exact Memory.slice_zero data 0
  · intro n member
    cases member

/-- A refill that fails leaves an error to be reported; one that does not gives at least one byte. -/
theorem Lossless.refill (lossless : Lossless x delivered reported) (room : x.buffer.byteCount < bufferSize) {more : Bool}
    (refilled : refillInputBuffer x script = some (more, y, rest)) :
    Lossless y delivered reported ∧ x.received <+: y.received ∧
      if more then x.buffer.byteCount < y.buffer.byteCount ∧ script.length = rest.length + 1
      else y.buffer.byteCount = x.buffer.byteCount ∧ y.buffer.lastError ≠ .ok := by
  obtain ⟨fits, front, count, error, contents⟩ := lossless.fits.compact
  rw [refillInputBuffer] at refilled
  split at refilled
  · rename_i failed
    cases refilled
    exact ⟨lossless, List.prefix_refl _, rfl, failed⟩
  · rename_i fine
    have fine : x.buffer.lastError = .ok := by simpa using fine
    have quiet : x.pending = [] := by rw [Input.pending, if_pos fine]
    have asked : ∀ n ∈ x.requests ++ [bufferSize - x.buffer.compact.byteCount], 0 < n := by
      intro n member
      rcases List.mem_append.mp member with old | new
      · exact lossless.asked n old
      · rw [List.mem_singleton.mp new]
        omega
    have errors := lossless.errors
    rw [quiet, List.append_nil] at errors
    dsimp only at refilled
    split at refilled
    · cases refilled
    · rename_i failure tail
      cases refilled
      refine ⟨⟨⟨fits.size, fits.inside⟩, ?_, asked, ?_⟩, List.prefix_refl _, count, failure.2⟩
      · exact (congrArg (delivered ++ ·) contents).trans lossless.fifo
      · rw [Input.pending, if_neg failure.2, errors]
    · rename_i first others tail
      have few : ((first :: others).take (bufferSize - x.buffer.compact.byteCount)).length ≤
          bufferSize - x.buffer.compact.byteCount := by
        rw [List.length_take]
        omega
      have some : 0 < ((first :: others).take (bufferSize - x.buffer.compact.byteCount)).length := by
        rw [List.length_take, List.length_cons]
        omega
      cases refilled
      obtain ⟨longer, appended⟩ := fits.append front
        ((first :: others).take (bufferSize - x.buffer.compact.byteCount)) (by omega)
      refine ⟨⟨longer, ?_, asked, ?_⟩, List.prefix_append _ _, ?_, rfl⟩
      · rw [appended, contents, ← List.append_assoc, lossless.fifo]
      · rw [Input.pending, if_pos (error.trans fine), errors, List.append_nil]
      · show x.buffer.byteCount < x.buffer.compact.byteCount + _
        omega

theorem Lossless.report (lossless : Lossless x delivered reported) (empty : x.buffer.byteCount = 0)
    (failed : x.buffer.lastError ≠ .ok) :
    Lossless x.report delivered (reported ++ [(delivered.length, x.buffer.lastError)]) := by
  have none : x.buffer.contents = [] := List.length_eq_zero_iff.mp (by rw [lossless.fits.length_contents, empty])
  have all := lossless.fifo
  rw [none, List.append_nil] at all
  refine ⟨⟨lossless.fits.size, lossless.fits.inside⟩, lossless.fifo, lossless.asked, ?_⟩
  have errors := lossless.errors
  have quiet : x.report.pending = [] := if_pos rfl
  rw [Input.pending, if_neg failed, ← all] at errors
  rw [quiet, List.append_nil]
  exact errors

theorem Lossless.consume (lossless : Lossless x delivered reported) {n : Nat} (few : n ≤ x.buffer.byteCount) :
    Lossless { x with buffer := x.buffer.consume n } (delivered ++ Memory.slice x.buffer.data x.buffer.offset n)
      reported := by
  obtain ⟨fits, split⟩ := lossless.fits.consume few
  refine ⟨fits, ?_, lossless.asked, lossless.errors⟩
  rw [List.append_assoc, split]
  exact lossless.fifo

/-- Both `read` and `peekc` refill a buffer that is empty, and report the error of a refill that fails. -/
def refillEmpty (x : Input) (script : List ReadOutcome) : Option (VfsResult × Input) :=
  if x.buffer.byteCount = 0 then
    (refillInputBuffer x script).map fun done =>
      if done.1 then (VfsResult.ok, done.2.1) else (done.2.1.buffer.lastError, done.2.1.report)
  else some (.ok, x)

/-- The errors that a result adds to those reported. -/
def reports (result : VfsResult) (delivered : Bytes) : List (Nat × VfsResult) :=
  if result = .ok then [] else [(delivered.length, result)]

theorem Lossless.refillEmpty (lossless : Lossless x delivered reported) {result : VfsResult}
    (refilled : refillEmpty x script = some (result, y)) :
    Lossless y delivered (reported ++ reports result delivered) ∧
      (result = .ok → 0 < y.buffer.byteCount) ∧ (result ≠ .ok → y.buffer.byteCount = 0) := by
  have small : 0 < bufferSize := by decide
  rw [Socket.refillEmpty] at refilled
  split at refilled
  · rename_i empty
    obtain ⟨⟨more, z, rest⟩, done, same⟩ := Option.map_eq_some_iff.mp refilled
    obtain ⟨after, -, outcome⟩ := lossless.refill (by omega) done
    cases more with
    | true =>
      cases same
      have some : x.buffer.byteCount < z.buffer.byteCount := outcome.1
      refine ⟨?_, fun _ => Nat.zero_lt_of_lt some, fun never => absurd rfl never⟩
      rw [reports, if_pos rfl, List.append_nil]
      exact after
    | false =>
      cases same
      obtain ⟨count, failed⟩ : z.buffer.byteCount = x.buffer.byteCount ∧ z.buffer.lastError ≠ .ok := outcome
      refine ⟨?_, fun never => absurd never failed, fun _ => by show z.buffer.byteCount = 0; omega⟩
      rw [reports, if_neg failed]
      exact after.report (count.trans empty) failed
  · cases refilled
    refine ⟨?_, fun _ => by omega, fun never => absurd rfl never⟩
    rw [reports, if_pos rfl, List.append_nil]
    exact lossless

/-- The states that refills lead through, as long as there are at most this many bytes in the buffer. -/
inductive Refilled (limit : Nat) : Input → Input → Prop where
  | refl {x : Input} : Refilled limit x x
  | next {x y z : Input} {script rest : List ReadOutcome} {more : Bool} : x.buffer.byteCount ≤ limit →
      refillInputBuffer x script = some (more, y, rest) → Refilled limit y z → Refilled limit x z

theorem Lossless.refilled {limit : Nat} (short : limit < bufferSize) (refilled : Refilled limit x y) :
    Lossless x delivered reported → Lossless y delivered reported ∧ x.received <+: y.received := by
  induction refilled with
  | refl => exact fun lossless => ⟨lossless, List.prefix_refl _⟩
  | next few done _ ih =>
    intro lossless
    obtain ⟨after, kept, -⟩ := lossless.refill (by omega) done
    obtain ⟨last, more⟩ := ih after
    exact ⟨last, kept.trans more⟩

theorem Lossless.refillUntil (boundaryLen : Nat) (short : boundaryLen < bufferSize) : ∀ (fuel : Nat) {x : Input}
    {script : List ReadOutcome}, Lossless x delivered reported → refillUntil boundaryLen fuel x script = some y →
      Refilled boundaryLen x y ∧ (boundaryLen < y.buffer.byteCount ∨ y.buffer.lastError ≠ .ok) := by
  intro fuel
  induction fuel with
  | zero =>
    intro x script lossless filled
    cases filled
  | succ fuel ih =>
    intro x script lossless filled
    rw [Socket.refillUntil] at filled
    split at filled
    · rename_i few
      obtain ⟨⟨more, z, rest⟩, done, next⟩ := Option.bind_eq_some_iff.mp filled
      obtain ⟨after, -, outcome⟩ := lossless.refill (by omega) done
      cases more with
      | true =>
        obtain ⟨last, atEnd⟩ := ih after next
        exact ⟨.next few done last, atEnd⟩
      | false =>
        cases next
        have failed : z.buffer.lastError ≠ .ok := outcome.2
        exact ⟨.next few done .refl, Or.inr failed⟩
    · cases filled
      exact ⟨.refl, Or.inl (by omega)⟩

theorem refillInputBuffer_some (x : Input) (script : List ReadOutcome) (given : 0 < script.length) :
    ∃ done, refillInputBuffer x script = some done := by
  rw [refillInputBuffer]
  split
  · exact ⟨_, rfl⟩
  · cases script with
    | nil =>
      rw [List.length_nil] at given
      omega
    | cons outcome rest =>
      cases outcome with
      | error failure => exact ⟨_, rfl⟩
      | bytes first others => exact ⟨_, rfl⟩

theorem refillUntil_isSome (boundaryLen : Nat) (short : boundaryLen < bufferSize) : ∀ (fuel : Nat) {x : Input}
    {script : List ReadOutcome}, Lossless x delivered reported → script.length < fuel →
      boundaryLen < x.buffer.byteCount + script.length → (Socket.refillUntil boundaryLen fuel x script).isSome := by
  intro fuel
  induction fuel with
  | zero =>
    intro x script _ never
    omega
  | succ fuel ih =>
    intro x script lossless few enough
    rw [Socket.refillUntil]
    split
    · obtain ⟨⟨more, y, rest⟩, done⟩ := refillInputBuffer_some x script (by omega)
      obtain ⟨after, -, outcome⟩ := lossless.refill (by omega) done
      rw [done]
      cases more with
      | true =>
        obtain ⟨longer, shorter⟩ : x.buffer.byteCount < y.buffer.byteCount ∧ script.length = rest.length + 1 :=
          outcome
        show (Socket.refillUntil boundaryLen fuel y rest).isSome
        exact ih after (by omega) (by omega)
      | false => rfl
    · rfl

theorem Lossless.contents_prefix (first : Lossless x delivered reported) {reported' : List (Nat × VfsResult)}
    (second : Lossless y delivered reported') (kept : x.received <+: y.received) :
    x.buffer.contents <+: y.buffer.contents := by
  rw [← first.fifo, ← second.fifo] at kept
  exact (List.prefix_append_right_inj delivered).mp kept

end Refill

section Scan

variable {data boundary : Bytes} {maxScan : Nat}

theorem scan_le (some : 0 < boundary.length) : (scan data boundary maxScan).1 ≤ maxScan := by
  rw [scan]
  split
  · split
    · rename_i i found
      have inside := List.mem_range.mp (List.mem_of_find?_eq_some found)
      dsimp only
      omega
    · dsimp only
      omega
  · exact Nat.le_refl _

theorem scan_pos (some : 0 < boundary.length) (more : 0 < maxScan) : 0 < (scan data boundary maxScan).1 := by
  rw [scan]
  split
  · split
    · dsimp only
      omega
    · dsimp only
      omega
  · exact more

end Scan

section Calls

/-- The calls that take their bytes from the buffer. -/
inductive Call where
  | read (bytes : Nat)
  | readUntil (bytes : Nat) (boundary : Bytes)
  | peekc
  deriving DecidableEq

/-- The input with what has been given to its callers. -/
structure Session where
  input : Input
  delivered : Bytes
  reported : List (Nat × VfsResult)
  deriving DecidableEq

/-- What a call has given to its caller. -/
def Session.given (s : Session) (result : VfsResult) (bytes : Bytes) (input : Input) : Session :=
  ⟨input, s.delivered ++ bytes, s.reported ++ reports result s.delivered⟩

/-- A call, with what the socket would give while it lasts. -/
def Session.step (s : Session) (event : Call × List ReadOutcome) : Option Session :=
  match event.1 with
  | .read bytes => (socketBufferRead bytes s.input event.2).map fun done => s.given done.1.result done.1.bytes done.2
  | .readUntil bytes boundary =>
    (socketBufferReadUntil bytes boundary s.input event.2).map fun done => s.given done.1.result done.1.bytes done.2
  | .peekc => (socketBufferPeekc s.input event.2).map fun done => s.given done.1.1 [] done.2

/-- A boundary has at least one byte and fits into the buffer. -/
def Session.allowed (_ : Session) (event : Call × List ReadOutcome) : Prop :=
  match event.1 with
  | .readUntil _ boundary => 0 < boundary.length ∧ boundary.length < bufferSize
  | _ => True

instance (s : Session) (event : Call × List ReadOutcome) : Decidable (s.allowed event) :=
  match event with
  | (.readUntil _ boundary, _) => inferInstanceAs (Decidable (0 < boundary.length ∧ boundary.length < bufferSize))
  | (.read _, _) | (.peekc, _) => .isTrue trivial

/-- A new buffer, whose memory may hold anything. -/
def Session.start (data : Bytes) : Session := ⟨⟨.init data, [], [], []⟩, [], []⟩

variable {x y : Input} {script : List ReadOutcome} {delivered : Bytes} {reported : List (Nat × VfsResult)}
  {reply : Reply} {bytes : Nat} {boundary : Bytes}

theorem socketBufferRead_eq (some : 0 < bytes) : socketBufferRead bytes x script = (refillEmpty x script).map fun done =>
    if done.2.buffer.byteCount ≠ 0 then
      (⟨done.1, Memory.slice done.2.buffer.data done.2.buffer.offset (min bytes done.2.buffer.byteCount), false⟩,
        { done.2 with buffer := done.2.buffer.consume (min bytes done.2.buffer.byteCount) })
    else (⟨done.1, [], false⟩, done.2) := by
  rw [socketBufferRead, if_neg (by omega)]
  rfl

theorem Lossless.read (lossless : Lossless x delivered reported)
    (done : socketBufferRead bytes x script = some (reply, y)) :
    Lossless y (delivered ++ reply.bytes) (reported ++ reports reply.result delivered) := by
  by_cases some : 0 < bytes
  · rw [socketBufferRead_eq some] at done
    obtain ⟨⟨result, z⟩, refilled, same⟩ := Option.map_eq_some_iff.mp done
    obtain ⟨after, -, -⟩ := lossless.refillEmpty refilled
    dsimp only at same
    split at same
    · cases same
      exact after.consume (Nat.min_le_right _ _)
    · cases same
      rw [List.append_nil]
      exact after
  · rw [socketBufferRead, if_pos (by omega)] at done
    cases done
    rw [reports, if_pos rfl, List.append_nil, List.append_nil]
    exact lossless

theorem Lossless.readUntil (lossless : Lossless x delivered reported) (nonempty : 0 < boundary.length)
    (short : boundary.length < bufferSize) (done : socketBufferReadUntil bytes boundary x script = some (reply, y)) :
    Lossless y (delivered ++ reply.bytes) (reported ++ reports reply.result delivered) := by
  rw [socketBufferReadUntil, if_neg (by omega)] at done
  split at done
  · cases done
    rw [reports, if_pos rfl, List.append_nil, List.append_nil]
    exact lossless
  · rename_i positive
    obtain ⟨z, filled, same⟩ := Option.map_eq_some_iff.mp done
    obtain ⟨refilled, atEnd⟩ := lossless.refillUntil boundary.length short _ filled
    obtain ⟨after, -⟩ := lossless.refilled short refilled
    dsimp only at same
    split at same
    · cases same
      rw [reports, if_pos rfl, List.append_nil]
      refine after.consume (Nat.le_trans (scan_le nonempty) (Nat.min_le_left _ _))
    · rename_i nothing
      cases same
      -- the scan stops at the start only where the buffer is empty, and then the refill has failed
      have empty : z.buffer.byteCount = 0 := by
        by_contra more
        exact nothing (scan_pos nonempty (by omega))
      have failed := atEnd.resolve_left (by omega)
      rw [List.append_nil, reports, if_neg failed]
      exact after.report empty failed

theorem socketBufferPeekc_eq : socketBufferPeekc x script = (refillEmpty x script).map fun done =>
    if done.1 = .ok then ((.ok, done.2.buffer.data[done.2.buffer.offset]?), done.2) else ((done.1, none), done.2) := rfl

theorem Lossless.peekc (lossless : Lossless x delivered reported) {result : VfsResult} {shown : Option UInt8}
    (done : socketBufferPeekc x script = some ((result, shown), y)) :
    Lossless y delivered (reported ++ reports result delivered) ∧
      (result = .ok → 0 < y.buffer.byteCount ∧ shown = y.buffer.contents.head?) := by
  rw [socketBufferPeekc_eq] at done
  obtain ⟨⟨r, z⟩, refilled, same⟩ := Option.map_eq_some_iff.mp done
  obtain ⟨after, filled, -⟩ := lossless.refillEmpty refilled
  dsimp only at same
  split at same
  · rename_i fine
    cases same
    refine ⟨by rw [← fine]; exact after, ?_⟩
    intro _
    have some := filled fine
    refine ⟨some, ?_⟩
    rw [Buffer.contents, Memory.slice, List.head?_take, if_neg (by omega), List.head?_drop]
  · rename_i failed
    cases same
    exact ⟨after, fun never => absurd never failed⟩

theorem Session.step_lossless {s t : Session} {event : Call × List ReadOutcome}
    (lossless : Lossless s.input s.delivered s.reported) (fits : s.allowed event)
    (stepped : s.step event = some t) : Lossless t.input t.delivered t.reported := by
  obtain ⟨call, script⟩ := event
  cases call with
  | read bytes =>
    obtain ⟨⟨reply, y⟩, done, rfl⟩ := Option.map_eq_some_iff.mp stepped
    exact lossless.read done
  | readUntil bytes boundary =>
    obtain ⟨⟨reply, y⟩, done, rfl⟩ := Option.map_eq_some_iff.mp stepped
    exact lossless.readUntil fits.1 fits.2 done
  | peekc =>
    obtain ⟨⟨⟨result, shown⟩, y⟩, done, rfl⟩ := Option.map_eq_some_iff.mp stepped
    show Lossless y (s.delivered ++ []) _
    rw [List.append_nil]
    exact (lossless.peekc done).1

end Calls

section Peek

/-- The most bytes that a call can take. -/
def Call.size : Call → Nat
  | .read bytes => bytes
  | .readUntil bytes _ => bytes
  | .peekc => 0

variable {s t : Session} {event : Call × List ReadOutcome}

/-- A call that takes nothing leaves a buffer alone that is not empty. -/
theorem Session.step_looks (some : 0 < s.input.buffer.byteCount) (fits : s.allowed event) (looks : event.1.size = 0)
    (stepped : s.step event = Option.some t) : t = s := by
  obtain ⟨call, script⟩ := event
  have none : s.given .ok [] s.input = s := by
    rw [Session.given, reports, if_pos rfl, List.append_nil, List.append_nil]
  cases call with
  | read bytes =>
    have zero : bytes = 0 := looks
    obtain ⟨⟨reply, y⟩, done, rfl⟩ := Option.map_eq_some_iff.mp stepped
    rw [socketBufferRead, if_pos zero] at done
    cases done
    exact none
  | readUntil bytes boundary =>
    have zero : bytes = 0 := looks
    have short : boundary.length < bufferSize := fits.2
    obtain ⟨⟨reply, y⟩, done, rfl⟩ := Option.map_eq_some_iff.mp stepped
    rw [socketBufferReadUntil, if_neg (by omega), if_pos zero] at done
    cases done
    exact none
  | peekc =>
    rw [Session.step, socketBufferPeekc_eq, refillEmpty, if_neg (by omega)] at stepped
    cases stepped
    exact none

theorem Session.run_looks (some : 0 < s.input.buffer.byteCount)
    (run : Run Session.step (fun s event => s.allowed event ∧ event.1.size = 0) s t) : t = s := by
  apply run.keeps (P := fun u => u = s) rfl
  intro u event v same fits stepped
  subst same
  exact Session.step_looks some fits.1 fits.2 stepped

theorem Buffer.slice_head (b : Buffer) {n : Nat} (some : 0 < n) (few : n ≤ b.byteCount) :
    (Memory.slice b.data b.offset n).head? = b.contents.head? := by
  rw [Buffer.contents, Memory.slice, Memory.slice, List.head?_take, List.head?_take, if_neg (by omega),
    if_neg (by omega)]

/-- A call that takes bytes takes the first byte of the buffer first, and reports no error. -/
theorem Session.step_takes (lossless : Lossless s.input s.delivered s.reported) (some : 0 < s.input.buffer.byteCount)
    (fits : s.allowed event) (takes : 0 < event.1.size) (stepped : s.step event = Option.some t) :
    ∃ bytes, t.delivered = s.delivered ++ bytes ∧ t.reported = s.reported ∧
      bytes.head? = s.input.buffer.contents.head? := by
  obtain ⟨call, script⟩ := event
  cases call with
  | read bytes =>
    obtain ⟨⟨reply, y⟩, done, rfl⟩ := Option.map_eq_some_iff.mp stepped
    have size : 0 < bytes := takes
    have full : s.input.buffer.byteCount ≠ 0 := by omega
    rw [socketBufferRead_eq size, refillEmpty, if_neg full, Option.map_some, if_pos full] at done
    cases done
    refine ⟨_, rfl, List.append_nil _, ?_⟩
    exact s.input.buffer.slice_head (Nat.lt_min.mpr ⟨size, some⟩) (Nat.min_le_right _ _)
  | readUntil bytes boundary =>
    obtain ⟨⟨reply, y⟩, done, rfl⟩ := Option.map_eq_some_iff.mp stepped
    obtain ⟨nonempty, short⟩ : 0 < boundary.length ∧ boundary.length < bufferSize := fits
    have size : 0 < bytes := takes
    rw [socketBufferReadUntil, if_neg (by omega), if_neg (by omega)] at done
    obtain ⟨z, filled, same⟩ := Option.map_eq_some_iff.mp done
    obtain ⟨refilled, -⟩ := lossless.refillUntil boundary.length short _ filled
    obtain ⟨after, kept⟩ := lossless.refilled short refilled
    -- the refills have left what was in the buffer at its front
    have still := lossless.contents_prefix after kept
    have more : s.input.buffer.byteCount ≤ z.buffer.byteCount := by
      rw [← lossless.fits.length_contents, ← after.fits.length_contents]
      exact still.length_le
    have scanned : 0 < (scan (z.buffer.data.drop z.buffer.offset) boundary (min z.buffer.byteCount bytes)).1 :=
      scan_pos nonempty (by omega)
    have few : (scan (z.buffer.data.drop z.buffer.offset) boundary (min z.buffer.byteCount bytes)).1 ≤ _ :=
      scan_le nonempty
    dsimp only at same
    rw [if_pos scanned] at same
    cases same
    refine ⟨_, rfl, List.append_nil _, ?_⟩
    rw [z.buffer.slice_head scanned (by omega)]
    obtain ⟨rest, whole⟩ := still
    rw [← whole, List.head?_append_of_ne_nil]
    intro none
    have length := lossless.fits.length_contents
    rw [none, List.length_nil] at length
    omega
  | peekc =>
    have never : 0 < 0 := takes
    omega

/-- Where the socket gives as many outcomes as the buffer has room for, every call returns. -/
theorem Session.step_isSome (lossless : Lossless s.input s.delivered s.reported) (fits : s.allowed event)
    (given : bufferSize ≤ event.2.length) : (s.step event).isSome := by
  have size : 0 < bufferSize := by decide
  obtain ⟨call, script⟩ := event
  have given : bufferSize ≤ script.length := given
  have refilled : (refillEmpty s.input script).isSome := by
    rw [refillEmpty]
    split
    · obtain ⟨done, refilled⟩ := refillInputBuffer_some s.input script (by omega)
      rw [refilled]
      rfl
    · rfl
  cases call with
  | read bytes =>
    rw [Session.step, Option.isSome_map]
    by_cases some : 0 < bytes
    · rw [socketBufferRead_eq some, Option.isSome_map]
      exact refilled
    · rw [socketBufferRead, if_pos (by omega)]
      rfl
  | readUntil bytes boundary =>
    obtain ⟨nonempty, short⟩ : 0 < boundary.length ∧ boundary.length < bufferSize := fits
    rw [Session.step, Option.isSome_map, socketBufferReadUntil, if_neg (by omega)]
    split
    · rfl
    · rw [Option.isSome_map]
      exact refillUntil_isSome boundary.length short _ lossless (Nat.lt_succ_self _)
        (by show _ < _ + script.length; omega)
  | peekc =>
    rw [Session.step, socketBufferPeekc_eq, Option.isSome_map, Option.isSome_map]
    exact refilled

end Peek

/-- In whatever order a buffer is read, with any sizes and any outcomes of the socket: at every point,
between two calls as between two refills of one call, what has been delivered and what is buffered is
what was received, the errors reported are the first of those received, each behind the bytes received
before it, and no refill asks for nothing. The byte that a successful `peekc` shows is delivered first
by the next call that takes bytes. A call returns where the socket gives outcomes enough. -/
theorem Session.run_lossless (data : Bytes) (size : data.length = bufferSize) {s : Session}
    (run : Run Session.step Session.allowed (Session.start data) s) :
    (∀ (limit : Nat) (y : Input), limit < bufferSize → Refilled limit s.input y →
      Lossless y s.delivered s.reported) ∧
    (∀ (script : List ReadOutcome) (shown : Option UInt8) (y : Input),
      socketBufferPeekc s.input script = some ((.ok, shown), y) → ∃ c, shown = some c ∧
        ∀ (t u : Session) (event : Call × List ReadOutcome),
          Run Session.step (fun s event => s.allowed event ∧ event.1.size = 0) ⟨y, s.delivered, s.reported⟩ t →
          t.allowed event → 0 < event.1.size → t.step event = some u →
          ∃ rest, u.delivered = s.delivered ++ c :: rest ∧ u.reported = s.reported) ∧
    (∀ event : Call × List ReadOutcome, s.allowed event → bufferSize ≤ event.2.length → (s.step event).isSome) := by
  have lossless : Lossless s.input s.delivered s.reported := by
    apply run.keeps (P := fun s => Lossless s.input s.delivered s.reported) (Lossless.start data size)
    intro s event t holds fits stepped
    exact Session.step_lossless holds fits stepped
  refine ⟨?_, ?_, ?_⟩
  · intro limit y short refilled
    exact (lossless.refilled short refilled).1
  · intro script shown y peeked
    obtain ⟨after, showed⟩ := lossless.peekc peeked
    obtain ⟨more, first⟩ := showed rfl
    rw [reports, if_pos rfl, List.append_nil] at after
    cases here : y.buffer.contents with
    | nil =>
      have length := after.fits.length_contents
      rw [here, List.length_nil] at length
      omega
    | cons c rest =>
      refine ⟨c, by rw [first, here]; rfl, ?_⟩
      intro t u event looks fits takes stepped
      cases Session.run_looks more looks
      obtain ⟨bytes, delivered, reported, head⟩ := Session.step_takes after more fits takes stepped
      rw [show List.head? y.buffer.contents = some c by rw [here]; rfl] at head
      cases bytes with
      | nil => cases head
      | cons b others =>
        cases head
        exact ⟨others, delivered, reported⟩
  · intro event fits given
    exact Session.step_isSome lossless fits given

/-- Three bytes arrive, and two of them are read up to the boundary. -/
theorem Session.boundary_lossless :
    ∃ s : Session, Run Session.step Session.allowed (Session.start (List.replicate bufferSize 0)) s ∧
      s.delivered = [72, 10] ∧ s.input.buffer.byteCount = 1 ∧ Lossless s.input s.delivered s.reported := by
  have run : Run Session.step Session.allowed (Session.start (List.replicate bufferSize 0)) _ :=
    .next (.readUntil 80 [10], [.bytes 72 [10, 65]]) .refl ⟨by decide, by decide⟩ rfl
  refine ⟨_, run, rfl, rfl, ?_⟩
  exact (Session.run_lossless _ List.length_replicate run).1 0 _ (by decide) .refl

end GnomeVfs.Socket
