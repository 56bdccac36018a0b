import GnomeVfs.SftpCodec

/- Messages on the descriptors of a connection, and which transfers that stop early are reported. -/
namespace GnomeVfs.Sftp.Wire

/-- What comes of one `read` or `write`: items are moved, at least one and no more than were asked for,
or the call is interrupted, fails, or moves nothing. -/
inductive IoOutcome (α : Type) where
  | moved (first : α) (more : List α)
  | interrupted
  | error
  | nothing
  deriving DecidableEq

/-- What `atomic_io` returns, what it has moved, and the outcomes that are left. -/
structure Moved (α : Type) where
  result : Int
  items : List α
  rest : List (IoOutcome α)
  deriving DecidableEq

/-- `atomic_io`, behind the items that have been moved. There is no result as long as a call gives none. -/
def atomicIo {α : Type} (size : Nat) (pos : List α) (script : List (IoOutcome α)) : Option (Moved α) :=
  if pos.length < size then
    match script with
    | [] => none
    | .interrupted :: rest => atomicIo size pos rest
    | .error :: rest => some ⟨-1, pos, rest⟩
    | .nothing :: rest => some ⟨pos.length, pos, rest⟩
    | .moved first more :: rest => atomicIo size (pos ++ (first :: more).take (size - pos.length)) rest
  else some ⟨pos.length, pos, script⟩

/-- A `gssize` in a `guint`. -/
def guint (n : Int) : Nat := (n % 2 ^ 32).toNat

/-- What a transfer gives, with the bytes that went over the descriptor. -/
structure Transfer where
  result : VfsResult
  buffer : Buffer
  bytes : Bytes
  deriving DecidableEq

/-- The message with its length in front of it. -/
def Buffer.framed (b : Buffer) : Buffer :=
  { b with
    readPtr := b.readPtr - headerSize
    written := Memory.write b.written (b.readPtr - headerSize) (BigEndian.encode 4 (b.writePtr - b.readPtr)) }

/-- `buffer_send`. -/
def bufferSend (b : Buffer) (script : List (IoOutcome Unit)) : Option Transfer :=
  let b := b.framed
  let size := b.writePtr - b.readPtr
  (atomicIo size [] script).map fun io =>
    let bytesWritten := guint io.result
    let sent := b.ahead.take io.items.length
    if bytesWritten < 0 then ⟨.io, b, sent⟩
    else if bytesWritten = size then ⟨.ok, bufferClear b, sent⟩
    else ⟨.ok, b.advance bytesWritten, sent⟩

/-- The most bytes in a message. -/
def maxMessage : Nat := 256 * 1024

/-- `buffer_recv`; `stale` is what is in the variable for the length. -/
def bufferRecv (stale : Nat → UInt8) (b : Buffer) (script : List (IoOutcome UInt8)) : Option Transfer :=
  (atomicIo 4 [] script).bind fun head =>
    if guint head.result = guint (-1) then some ⟨.io, b, head.items⟩
    else if guint head.result = 0 then some ⟨.io, b, head.items⟩
    else
      let len := BigEndian.decode (copiedOver stale 4 head.items)
      if len > maxMessage then some ⟨.io, b, head.items⟩
      else
        (bufferCheckAlloc b len).bind fun b =>
          (atomicIo len [] head.rest).map fun body =>
            if guint body.result = guint (-1) then ⟨.io, b, head.items ++ body.items⟩
            else ⟨.ok, { b with written := b.written ++ body.items }, head.items ++ body.items⟩

section Patterns

variable {α : Type} {size : Nat} {pos : List α} {script : List (IoOutcome α)}

/-- How it ends to ask for items until there are so many. -/
inductive Ending where
  | whole | failed | ended | waiting
  deriving DecidableEq

/-- The items that some outcomes give to one who wants `n` of them, and what comes behind. -/
def gather : Nat → List (IoOutcome α) → List α × Ending × List (IoOutcome α)
  | 0, script => ([], .whole, script)
  | _ + 1, [] => ([], .waiting, [])
  | n + 1, .interrupted :: rest => gather (n + 1) rest
  | _ + 1, .error :: rest => ([], .failed, rest)
  | _ + 1, .nothing :: rest => ([], .ended, rest)
  | n + 1, .moved first more :: rest =>
    (first :: more.take n ++ (gather (n - more.length) rest).1, (gather (n - more.length) rest).2)

theorem length_gather (n : Nat) (script : List (IoOutcome α)) :
    (gather n script).1.length ≤ n ∧ ((gather n script).1.length = n ↔ (gather n script).2.1 = .whole) := by
  fun_induction gather n script with
  | case1 => simp
  | case2 => simp
  | case3 => assumption
  | case4 => simp
  | case5 => simp
  | case6 n first more rest ih =>
    obtain ⟨few, whole⟩ := ih
    rw [← whole, List.length_append, List.length_cons, List.length_take]
    constructor
    · omega
    · omega

/-- What `atomic_io` returns when it has asked for items. -/
def Ending.moved (pos : List α) : List α × Ending × List (IoOutcome α) → Option (Moved α)
  | (_, .waiting, _) => none
  | (items, .failed, rest) => some ⟨-1, pos ++ items, rest⟩
  | (items, _, rest) => some ⟨(pos ++ items).length, pos ++ items, rest⟩

theorem Ending.moved_nothing (pos : List α) {ending : Ending} (finished : ending = .whole ∨ ending = .ended)
    (rest : List (IoOutcome α)) : Ending.moved pos ([], ending, rest) = some ⟨pos.length, pos, rest⟩ := by
  rcases finished with rfl | rfl <;> simp [Ending.moved]

theorem Ending.moved_append (pos items more : List α) (ending : Ending) (rest : List (IoOutcome α)) :
    Ending.moved pos (items ++ more, ending, rest) = Ending.moved (pos ++ items) (more, ending, rest) := by
  cases ending <;> simp [Ending.moved]

theorem atomicIo_over (finished : size ≤ pos.length) : atomicIo size pos script = some ⟨pos.length, pos, script⟩ := by
  unfold atomicIo
  rw [if_neg (by omega)]

theorem atomicIo_eq : ∀ (script : List (IoOutcome α)) (pos : List α), pos.length ≤ size →
    atomicIo size pos script = Ending.moved pos (gather (size - pos.length) script) := by
  intro script
  induction script with
  | nil =>
    intro pos few
    rcases Nat.eq_or_lt_of_le few with finished | more
    · rw [atomicIo_over (by omega), ← finished, Nat.sub_self, gather, Ending.moved_nothing pos (.inl rfl)]
    · obtain ⟨n, left⟩ : ∃ n, size - pos.length = n + 1 := ⟨size - pos.length - 1, by omega⟩
      unfold atomicIo
      rw [if_pos more, left]
      rfl
  | cons outcome rest ih =>
    intro pos few
    rcases Nat.eq_or_lt_of_le few with finished | more
    · rw [atomicIo_over (by omega), ← finished, Nat.sub_self, gather, Ending.moved_nothing pos (.inl rfl)]
    · obtain ⟨n, left⟩ : ∃ n, size - pos.length = n + 1 := ⟨size - pos.length - 1, by omega⟩
      unfold atomicIo
      rw [if_pos more, left]
      cases outcome with
      | interrupted =>
        have later := ih pos few
        rw [left] at later
        exact later
      | error => simp [gather, Ending.moved]
      | nothing => simp [gather, Ending.moved]
      | moved first others =>
        have count : (pos ++ (first :: others).take (n + 1)).length = pos.length + min (n + 1) (others.length + 1) := by
          rw [List.length_append, List.length_take, List.length_cons]
        have later := ih (pos ++ (first :: others).take (n + 1)) (by omega)
        rw [show size - (pos ++ (first :: others).take (n + 1)).length = n - others.length by omega] at later
        rw [gather, Ending.moved_append, ← List.take_succ_cons]
        exact later

/-- A transfer from its start. -/
theorem atomicIo_gather (size : Nat) (script : List (IoOutcome α)) :
    atomicIo size [] script = Ending.moved [] (gather size script) := atomicIo_eq script [] (Nat.zero_le size)

end Patterns

section Send

/-- The bytes of a message as they go over a descriptor. -/
def Buffer.frame (b : Buffer) : Bytes := BigEndian.encode 4 (b.writePtr - b.readPtr) ++ b.ahead

variable {b : Buffer} {script : List (IoOutcome Unit)} {done : Transfer}

theorem Buffer.Fits.framed (fits : b.Fits) : b.framed.ahead = b.frame ∧ b.framed.writePtr = b.writePtr := by
  have header := fits.header
  have ordered := fits.ordered
  have room : b.readPtr - headerSize + (BigEndian.encode 4 (b.writePtr - b.readPtr)).length = b.readPtr := by
    rw [BigEndian.length_encode]
    exact Nat.sub_add_cancel header
  have short : (b.written.take (b.readPtr - headerSize)).length = b.readPtr - headerSize := by
    rw [List.length_take]
    rw [Buffer.writePtr] at ordered
    omega
  constructor
  · rw [Buffer.ahead, Buffer.framed]
    dsimp only
    rw [Memory.write, room, List.append_assoc, List.drop_left' short]
    rfl
  · exact Memory.length_write (by rw [room]; exact ordered)

theorem bufferSend_eq : bufferSend b script = (atomicIo (b.framed.writePtr - b.framed.readPtr) [] script).map fun io =>
    ⟨.ok, if guint io.result = b.framed.writePtr - b.framed.readPtr then bufferClear b.framed
      else b.framed.advance (guint io.result), b.framed.ahead.take io.items.length⟩ := by
  rw [bufferSend]
  congr 1
  funext io
  dsimp only
  rw [if_neg (Nat.not_lt_zero _)]
  split <;> rfl

/-- `buffer_send` always says that all is well. -/
theorem bufferSend_complete_iff (fits : b.Fits) (sent : bufferSend b script = some done) :
    (done.result = .ok → done.bytes = b.frame) ↔ (gather b.frame.length script).2.1 = .whole := by
  obtain ⟨ahead, place⟩ := fits.framed
  have size : b.framed.writePtr - b.framed.readPtr = b.frame.length := by
    rw [← ahead, Buffer.ahead, List.length_drop]
    rfl
  obtain ⟨few, whole⟩ := length_gather b.frame.length script
  rw [bufferSend_eq, size, atomicIo_gather] at sent
  obtain ⟨io, moved, rfl⟩ := Option.map_eq_some_iff.mp sent
  have items : io.items = (gather b.frame.length script).1 := by
    generalize gather b.frame.length script = gathered at moved
    obtain ⟨items, ending, rest⟩ := gathered
    cases ending <;> simp [Ending.moved] at moved <;> simp [← moved]
  rw [← whole, ahead, items]
  constructor
  · intro all
    have length := congrArg List.length (all rfl)
    rw [List.length_take] at length
    omega
  · intro length _
    rw [length, List.take_length]

end Send

section Recv

/-- A message has come: its length, and so many bytes, which have been put into the buffer. -/
def Transfer.Received (done : Transfer) (b : Buffer) : Prop :=
  ∃ body, body.length ≤ maxMessage ∧ done.bytes = BigEndian.encode 4 body.length ++ body ∧
    done.buffer.written = b.written ++ body

/-- What is taken for the length of a message. -/
def lengthOf (stale : Nat → UInt8) (script : List (IoOutcome UInt8)) : Nat :=
  BigEndian.decode (copiedOver stale 4 (gather 4 script).1)

/-- The end of the file comes inside a message: behind the first byte of its length, where so many bytes as
are then asked for do not fail to come, or behind a length that is not too large, before the last byte. -/
def CutOff (stale : Nat → UInt8) (script : List (IoOutcome UInt8)) : Prop :=
  lengthOf stale script ≤ maxMessage ∧
    ((gather 4 script).2.1 = .ended ∧ (gather 4 script).1 ≠ [] ∧
        (gather (lengthOf stale script) (gather 4 script).2.2).2.1 ≠ .failed ∨
      (gather 4 script).2.1 = .whole ∧ (gather (lengthOf stale script) (gather 4 script).2.2).2.1 = .ended)

variable {b c : Buffer} {stale : Nat → UInt8} {script : List (IoOutcome UInt8)} {done : Transfer}

theorem guint_length {n : Nat} (small : n < 2 ^ 32) : guint (n : Int) = n := by
  rw [guint]
  omega

/-- What a transfer that is over has given. -/
theorem atomicIo_cases {α : Type} {size : Nat} {script : List (IoOutcome α)} {io : Moved α} (small : size < 2 ^ 32 - 1)
    (moved : atomicIo size [] script = some io) : io.items = (gather size script).1 ∧ io.rest = (gather size script).2.2 ∧
      (gather size script).2.1 ≠ .waiting ∧ (guint io.result = guint (-1) ↔ (gather size script).2.1 = .failed) ∧
        ((gather size script).2.1 ≠ .failed → guint io.result = io.items.length) := by
  obtain ⟨few, -⟩ := length_gather size script
  rw [atomicIo_gather] at moved
  generalize gather size script = gathered at moved few
  obtain ⟨items, ending, rest⟩ := gathered
  have few : items.length ≤ size := few
  have last : guint (-1) = 2 ^ 32 - 1 := by decide
  have count := guint_length (show items.length < 2 ^ 32 by omega)
  cases ending with
  | waiting => cases moved
  | failed =>
    cases moved
    simp
  | whole =>
    cases moved
    rw [List.nil_append, count, last]
    exact ⟨rfl, rfl, by simp, iff_of_false (by omega) (by simp), fun _ => rfl⟩
  | ended =>
    cases moved
    rw [List.nil_append, count, last]
    exact ⟨rfl, rfl, by simp, iff_of_false (by omega) (by simp), fun _ => rfl⟩

theorem bufferCheckAlloc_written {size : Nat} (grown : bufferCheckAlloc b size = some c) : c.written = b.written := by
  obtain ⟨alloc, -, rfl⟩ := Option.map_eq_some_iff.mp grown
  rfl

/-- Bytes that begin with four others are these four and the rest. -/
theorem append_encode_inj {front back body : Bytes} {n : Nat}
    (same : front ++ back = BigEndian.encode 4 n ++ body) (length : back.length = body.length) :
    front = BigEndian.encode 4 n ∧ back = body := by
  have total := congrArg List.length same
  rw [List.length_append, List.length_append] at total
  exact List.append_inj same (by omega)

theorem encode_lengthOf (stale : Nat → UInt8) (whole : (gather 4 script).2.1 = .whole) :
    BigEndian.encode 4 (lengthOf stale script) = (gather 4 script).1 := by
  have four : (gather 4 script).1.length = 4 := (length_gather 4 script).2.mpr whole
  rw [lengthOf, copiedOver_full stale four]
  have same := BigEndian.encode_decode (gather 4 script).1
  rwa [four] at same

/-- `buffer_recv` says that all is well for a whole message, and where the end of the file comes inside one. -/
theorem bufferRecv_complete_iff (received : bufferRecv stale b script = some done) :
    (done.result = .ok → done.Received b) ↔ ¬ CutOff stale script := by
  obtain ⟨few, four⟩ := length_gather 4 script
  rw [bufferRecv] at received
  obtain ⟨head, first, received⟩ := Option.bind_eq_some_iff.mp received
  obtain ⟨items, rest, finished, failed, count⟩ := atomicIo_cases (by decide) first
  rw [items] at count received
  split at received
  · -- the length has not come
    rename_i error
    cases received
    have ending := failed.mp error
    refine ⟨fun _ => ?_, fun _ never => VfsResult.noConfusion never⟩
    rintro ⟨-, ⟨ended, -, -⟩ | ⟨whole, -⟩⟩
    · rw [ending] at ended
      cases ended
    · rw [ending] at whole
      cases whole
  rename_i noError
  have fine : (gather 4 script).2.1 ≠ .failed := fun ending => noError (failed.mpr ending)
  rw [count fine] at received
  split at received
  · -- nothing has come at all
    rename_i none
    cases received
    refine ⟨fun _ => ?_, fun _ never => VfsResult.noConfusion never⟩
    have empty := List.length_eq_zero_iff.mp none
    rintro ⟨-, ⟨-, some, -⟩ | ⟨whole, -⟩⟩
    · exact some empty
    · have := four.mpr whole
      omega
  rename_i some
  have some : (gather 4 script).1 ≠ [] := fun empty => some (by rw [empty]; rfl)
  dsimp only at received
  rw [← lengthOf] at received
  split at received
  · -- what has come is too large a length
    rename_i large
    cases received
    exact ⟨fun _ cut => absurd cut.1 (by omega), fun _ never => VfsResult.noConfusion never⟩
  rename_i small
  obtain ⟨c, grown, received⟩ := Option.bind_eq_some_iff.mp received
  obtain ⟨body, second, rfl⟩ := Option.map_eq_some_iff.mp received
  rw [rest] at second
  obtain ⟨bodyItems, -, bodyOver, bodyFailed, -⟩ := atomicIo_cases (by rw [maxMessage] at small; omega) second
  obtain ⟨bodyFew, bodyWhole⟩ := length_gather (lengthOf stale script) (gather 4 script).2.2
  split
  · -- the reading of the bytes has failed
    rename_i error
    have ending := bodyFailed.mp error
    refine ⟨fun _ => ?_, fun _ never => VfsResult.noConfusion never⟩
    rintro ⟨-, ⟨-, -, fine⟩ | ⟨-, ended⟩⟩
    · exact fine ending
    · rw [ending] at ended
      cases ended
  · rename_i noError
    have bodyFine : (gather (lengthOf stale script) (gather 4 script).2.2).2.1 ≠ .failed :=
      fun ending => noError (bodyFailed.mpr ending)
    have written : ∀ {bytes : Bytes}, c.written ++ body.items = b.written ++ bytes → body.items = bytes := by
      intro bytes same
      rw [bufferCheckAlloc_written grown] at same
      exact List.append_cancel_left same
    cases ending : (gather 4 script).2.1 with
    | waiting => exact absurd ending finished
    | failed => exact absurd ending fine
    | ended =>
      refine iff_of_false ?_ (not_not_intro ⟨by omega, .inl ⟨ending, some, bodyFine⟩⟩)
      intro all
      obtain ⟨bytes, -, frame, behind⟩ := all rfl
      have head := (append_encode_inj frame (congrArg List.length (written behind))).1
      have length := congrArg List.length head
      rw [BigEndian.length_encode] at length
      rw [four.mp length] at ending
      cases ending
    | whole =>
      have head := encode_lengthOf stale ending
      cases bodyEnding : (gather (lengthOf stale script) (gather 4 script).2.2).2.1 with
      | waiting => exact absurd bodyEnding bodyOver
      | failed => exact absurd bodyEnding bodyFine
      | whole =>
        have length := bodyWhole.mpr bodyEnding
        rw [← bodyItems] at length
        refine iff_of_true (fun _ => ⟨body.items, by omega, ?_, ?_⟩) ?_
        · rw [length, head]
        · rw [bufferCheckAlloc_written grown]
        · rintro ⟨-, ⟨ended, -⟩ | ⟨-, ended⟩⟩
          · rw [ending] at ended
            cases ended
          · rw [bodyEnding] at ended
            cases ended
      | ended =>
        refine iff_of_false ?_ (not_not_intro ⟨by omega, .inr ⟨ending, bodyEnding⟩⟩)
        intro all
        obtain ⟨bytes, short, frame, behind⟩ := all rfl
        have same := written behind
        have front := (append_encode_inj frame (congrArg List.length same)).1
        have number := congrArg BigEndian.decode (head.trans front)
        rw [maxMessage] at small short
        rw [BigEndian.decode_encode_of_lt (by omega), BigEndian.decode_encode_of_lt (by omega), ← same, bodyItems] at number
        rw [bodyWhole.mp number.symm] at bodyEnding
        cases bodyEnding

/-- A message is sent as a whole exactly where the descriptor takes it as a whole, whatever is said; and
what is said of a message that is received is right exactly where it is not cut off. -/
theorem transport_complete_iff (stale : Nat → UInt8) :
    (∀ (b : Buffer) (script : List (IoOutcome Unit)) (done : Transfer), b.Fits → bufferSend b script = some done →
      ((done.result = .ok → done.bytes = b.frame) ↔ (gather b.frame.length script).2.1 = .whole)) ∧
    (∀ (b : Buffer) (script : List (IoOutcome UInt8)) (done : Transfer),
      bufferRecv stale b script = some done → ((done.result = .ok → done.Received b) ↔ ¬ CutOff stale script)) :=
  ⟨fun _ _ _ => bufferSend_complete_iff, fun _ _ _ => bufferRecv_complete_iff⟩

/-- A message of one byte. -/
def byteMessage : Buffer := ⟨[0, 0, 0, 0, 7], headerSize, initBufferAlloc⟩

theorem byteMessage_fits : byteMessage.Fits := ⟨by decide, by decide, by decide, 0, by decide, by decide⟩

/-- Both messages arrive, after short counts and interruptions. -/
theorem transport_complete_iff_interrupted :
    (bufferSend byteMessage [.interrupted, .moved () [()], .moved () [(), (), ()]] =
        some ⟨.ok, ⟨[0, 0, 0, 1], headerSize, initBufferAlloc⟩, [0, 0, 0, 1, 7]⟩ ∧
      ((VfsResult.ok = .ok) → [0, 0, 0, 1, 7] = byteMessage.frame)) ∧
    (bufferRecv (fun _ => 0) bufferInit [.moved 0 [0], .interrupted, .moved 0 [1], .moved 9 []] =
        some ⟨.ok, ⟨[0, 0, 0, 0, 9], headerSize, initBufferAlloc⟩, [0, 0, 0, 1, 9]⟩ ∧
      ((VfsResult.ok = .ok) → Transfer.Received ⟨.ok, ⟨[0, 0, 0, 0, 9], headerSize, initBufferAlloc⟩, [0, 0, 0, 1, 9]⟩
        bufferInit)) := by
  have sent : bufferSend byteMessage [.interrupted, .moved () [()], .moved () [(), (), ()]] =
      some ⟨.ok, ⟨[0, 0, 0, 1], headerSize, initBufferAlloc⟩, [0, 0, 0, 1, 7]⟩ := by decide
  have received : bufferRecv (fun _ => 0) bufferInit [.moved 0 [0], .interrupted, .moved 0 [1], .moved 9 []] =
      some ⟨.ok, ⟨[0, 0, 0, 0, 9], headerSize, initBufferAlloc⟩, [0, 0, 0, 1, 9]⟩ := by decide
  refine ⟨⟨sent, ?_⟩, received, ?_⟩
  · exact ((transport_complete_iff fun _ => 0).1 byteMessage _ _ byteMessage_fits sent).mpr (by decide)
  · refine ((transport_complete_iff fun _ => 0).2 bufferInit _ _ received).mpr ?_
    rintro ⟨-, ⟨ended, -⟩ | ⟨-, ended⟩⟩
    · exact absurd ended (by decide)
    · exact absurd ended (by decide)

/-- A write that fails, and a connection that is closed behind two bytes of five, are not reported. -/
theorem transport_unreported :
    bufferSend byteMessage [.error] =
      some ⟨.ok, { byteMessage.framed with readPtr := 2 ^ 32 - 1 }, []⟩ ∧
    bufferRecv (fun _ => 0) bufferInit [.moved 0 [0, 0, 5], .moved 1 [2], .nothing] =
      some ⟨.ok, ⟨[0, 0, 0, 0, 1, 2], headerSize, initBufferAlloc⟩, [0, 0, 0, 5, 1, 2]⟩ ∧
    ¬ Transfer.Received ⟨.ok, ⟨[0, 0, 0, 0, 1, 2], headerSize, initBufferAlloc⟩, [0, 0, 0, 5, 1, 2]⟩ bufferInit := by
  refine ⟨by decide, by decide, ?_⟩
  rintro ⟨body, -, frame, written⟩
  have bytes : [1, 2] = body := @List.append_cancel_left _ bufferInit.written _ _ written
  rw [← bytes] at frame
  exact absurd frame (by decide)

end Recv

end GnomeVfs.Sftp.Wire
