import Mathlib.Algebra.Order.Group.Nat
import GnomeVfs.CString
import GnomeVfs.Environment
import GnomeVfs.Memory
import GnomeVfs.Result

/- The job that reads a file into a pipe (`gnome-vfs-job.c`). Where the pipe is full, it goes on
reading into a buffer that grows. -/
namespace GnomeVfs.AsyncChannel

open Interaction

/-- `GIOStatus`. -/
inductive GioStatus where
  | error | normal | eof | again
  deriving DecidableEq

/-- What is asked of the memory, the file, the context and the pipe. What is in new memory is not known. -/
inductive Op where
  | malloc (bytes : Nat)
  | realloc (data : Bytes) (bytes : Nat)
  | read (offset bytes : Nat)
  | checkCancellation
  | writeChars (chunk : Bytes)
  | setBlocking
  | shutdown

@[reducible] def Op.Reply : Op → Type
  | .malloc bytes => { data : Bytes // data.length = bytes }
  | .realloc data bytes => { grown : Bytes // grown.length = bytes ∧ data.take bytes <+: grown }
  | .read _ bytes => VfsResult × { data : Bytes // data.length ≤ bytes }
  | .checkCancellation => Bool
  | .writeChars chunk => GioStatus × Fin (chunk.length + 1)
  | .setBlocking => Unit
  | .shutdown => Unit

inductive Stop where
  | assertion
  | outOfFuel
  deriving DecidableEq

abbrev ChannelM := Action Op.Reply Stop Unit

abbrev ask (op : Op) : ChannelM op.Reply := Action.ask op

/-- `buffer` with `filled_bytes_in_buffer`, `written_bytes_in_buffer` and `current_buffer_size`. -/
structure Buffer where
  data : Bytes
  filled : Nat
  written : Nat
  size : Nat

/-- Which `goto end` it was. -/
inductive Leaving where
  | readFailed | nothingFilled | cancelled | writeFailed
  deriving DecidableEq

/-- How the inner loop ends. -/
inductive WriteEnd where
  | emptied (b : Buffer)
  | restart (b : Buffer)
  | leave (reason : Leaving)

def guint (n : Nat) : Nat := n % 2 ^ 32

def defaultBufferSize : Nat := 16384

/-- The unwritten bytes are moved to the start of the buffer. -/
def Buffer.shift (b : Buffer) : Buffer :=
  if b.written > 0 then
    { b with
      data := Memory.write b.data 0 (Memory.slice b.data b.written (b.filled - b.written))
      filled := b.filled - b.written
      written := 0 }
  else b

/-- A buffer that is more than half full is doubled. -/
def enlarge (b : Buffer) : ChannelM Buffer :=
  if guint (b.filled * 2) > b.size then do
    let grown ← ask (.realloc b.data (guint (b.size * 2)))
    return { b with data := grown.1, size := guint (b.size * 2) }
  else return b

/-- One round of the loop that writes. -/
def writeRound (bytesRead : Nat) (b : Buffer) : ChannelM (Step Buffer WriteEnd) :=
  if b.written < b.filled then do
    let (status, bytesWritten) ← ask (.writeChars (Memory.slice b.data b.written (b.filled - b.written)))
    let b := { b with written := guint (b.written + bytesWritten) }
    let cancelled : Bool ← ask .checkCancellation
    if cancelled then return .finish (.leave .cancelled)
    else if status = .again then
      if bytesRead = 0 then do
        ask .setBlocking
        return .again b
      else do
        let b ← enlarge b.shift
        return .finish (.restart b)
    else if status ≠ .normal ∨ bytesWritten.1 = 0 then return .finish (.leave .writeFailed)
    else return .again b
  else return .finish (.emptied b)

/-- What follows the inner loop. -/
def afterWrites : WriteEnd → ChannelM (Step Buffer Leaving)
  | .leave reason => return .finish reason
  | .restart b => return .again b
  | .emptied b =>
    if b.written ≠ b.filled then Action.halt .assertion else return .again { b with written := 0, filled := 0 }

/-- One round of the loop that reads. -/
def readRound (fuel : Nat) (advisedBlockSize : Nat) (b : Buffer) : ChannelM (Step Buffer Leaving) :=
  if ¬ b.filled ≤ b.size then Action.halt .assertion
  else if b.written ≠ 0 then Action.halt .assertion
  else do
    let (result, data) ← ask (.read b.filled (min advisedBlockSize (b.size - b.filled)))
    if result = .interrupted then return .again b
    else if result ≠ .ok ∧ result ≠ .eof then return .finish .readFailed
    else
      let b := { b with data := Memory.write b.data b.filled data.1, filled := guint (b.filled + data.1.length) }
      if b.filled = 0 then return .finish .nothingFilled
      else if ¬ b.written ≤ b.filled then Action.halt .assertion
      else
        let cancelled : Bool ← ask .checkCancellation
        if cancelled then return .finish .cancelled
        else
          let ended ← Action.loop .outOfFuel (writeRound data.1.length) fuel b
          afterWrites ended

/-- `serve_channel_read`. -/
def serveChannelRead (fuel : Nat) (advisedBlockSize : Nat) : ChannelM Leaving := do
  let advisedBlockSize := if advisedBlockSize = 0 then defaultBufferSize else advisedBlockSize
  let size := guint advisedBlockSize
  let data ← ask (.malloc size)
  let reason ← Action.loop .outOfFuel (readRound fuel advisedBlockSize) fuel ⟨data.1, 0, 0, size⟩
  ask .shutdown
  return reason

/-- What has been read of the file, how much of it the channel says it has taken, what is in the pipe, and how large the
buffer is; and whether a read has failed, the context has been cancelled, and the channel could not write. -/
structure World where
  read : Bytes
  accepted : Bytes
  pipe : Bytes
  allocated : Nat
  failed : Bool
  cancelled : Bool
  broken : Bool

namespace World

def start : World := ⟨[], [], [], 0, false, false, false⟩

variable (file : Bytes) (held : Bytes → Bytes)

/-- A read gives the next part of the file, nothing only at its end, and may be interrupted; the bytes that are pending are
fewer than `2 ^ 30`. The channel takes any part of what it is given and puts it into the pipe when it likes, at the latest
when it is shut down; then what is `held` of all that it has taken is dropped, because it is not a whole character. -/
def Serves (w : World) : (op : Op) → op.Reply → World → Prop
  | .malloc bytes, _, w' => w' = { w with allocated := bytes }
  | .realloc _ bytes, _, w' => w' = { w with allocated := bytes }
  | .read _ _, reply, w' =>
    if reply.1 = .ok ∨ reply.1 = .eof then
      w' = { w with read := w.read ++ reply.2.1 } ∧ w'.read <+: file ∧ (reply.2.1 = [] → w.read = file) ∧
        w'.read.length < w'.accepted.length + 2 ^ 30
    else w' = { w with failed := w.failed || reply.1 ≠ .interrupted }
  | .writeChars chunk, (status, n), w' =>
    w.pipe <+: w'.pipe ∧ w'.pipe <+: w'.accepted ∧
      w' = { w with
        accepted := w.accepted ++ chunk.take n
        pipe := w'.pipe
        broken := w.broken || status ≠ .again && (status ≠ .normal || n.1 = 0) }
  | .checkCancellation, answer, w' => w' = { w with cancelled := w.cancelled || answer }
  | .setBlocking, _, w' => w' = w
  | .shutdown, _, w' =>
    w' = { w with broken := true } ∨ w.pipe <+: w'.pipe ∧ w'.pipe ++ held w.accepted = w.accepted ∧ w' = { w with pipe := w'.pipe }

/-- What is in the pipe is the beginning of what has been read, and a read is for at least one byte and within the
buffer. -/
def Demands (w : World) (op : Op) : Prop :=
  w.pipe <+: w.read ∧
    match op with
    | .read offset bytes => 0 < bytes ∧ offset + bytes ≤ w.allocated
    | _ => True

/-- Why the loop has been left. When it was the end of the file, the channel has taken the file, and unless the pipe is broken
all of it is in the pipe just when nothing is held of it. -/
def Left (w : World) : Leaving → Prop
  | .readFailed => w.failed = true
  | .cancelled => w.cancelled = true
  | .writeFailed => w.broken = true
  | .nothingFilled => w.accepted = file ∧ (w.broken = false → w.pipe ++ held file = file ∧ (w.pipe = file ↔ held file = []))

end World

section Buffers

variable {file : Bytes} {held : Bytes → Bytes} {b : Buffer} {w : World}

/-- The buffer has the bytes that have been read and not yet taken by the channel. -/
structure Holds (file : Bytes) (b : Buffer) (w : World) : Prop where
  data : b.data.length = b.size
  allocated : w.allocated = b.size
  positive : 0 < b.size
  bounded : b.size < 2 ^ 32
  written : b.written ≤ b.filled
  filled : b.filled ≤ b.size
  few : b.filled < 2 ^ 30
  pending : w.read = w.accepted ++ Memory.slice b.data b.written (b.filled - b.written)
  pipe : w.pipe <+: w.accepted
  file : w.read <+: file
  whole : w.broken = false

/-- There is room for a read. -/
structure Ready (file : Bytes) (b : Buffer) (w : World) : Prop extends Holds file b w where
  start : b.written = 0
  room : b.filled < b.size

theorem Holds.forwarded (holds : Holds file b w) : w.pipe <+: w.read := holds.pipe.trans ⟨_, holds.pending.symm⟩

theorem guint_of_lt {n : Nat} (small : n < 2 ^ 32) : guint n = n := Nat.mod_eq_of_lt small

theorem Ready.fill (ready : Ready file b w) {data : Bytes} (fits : data.length ≤ b.size - b.filled)
    (few : w.read.length + data.length < w.accepted.length + 2 ^ 30) (next : w.read ++ data <+: file) :
    guint (b.filled + data.length) = b.filled + data.length ∧
      Holds file { b with data := Memory.write b.data b.filled data, filled := b.filled + data.length }
        { w with read := w.read ++ data } := by
  have room := ready.room
  have small := ready.bounded
  have zero := ready.start
  have length := congrArg List.length ready.pending
  rw [zero, Nat.sub_zero, List.length_append, Memory.length_slice (by rw [ready.data]; omega)] at length
  refine ⟨guint_of_lt (by omega), ?_, ready.allocated, ready.positive, small, ?_, ?_, ?_, ?_, ready.pipe, next, ready.whole⟩
  · rw [Memory.length_write (by rw [ready.data]; omega)]
    exact ready.data
  · exact Nat.le_trans ready.written (Nat.le_add_right _ _)
  · dsimp only
    omega
  · dsimp only
    omega
  · have longer := Memory.slice_write_append b.data data 0 b.filled (by rw [ready.data]; omega)
    have pending := ready.pending
    dsimp only
    rw [zero, Nat.sub_zero] at pending ⊢
    rw [Nat.zero_add] at longer
    rw [longer, ← List.append_assoc, ← pending]

theorem Holds.write (holds : Holds file b w) {n : Nat} (fits : n ≤ b.filled - b.written) {pipe : Bytes}
    (forwards : pipe <+: w.accepted ++ (Memory.slice b.data b.written (b.filled - b.written)).take n) :
    Holds file { b with written := guint (b.written + n) }
      { w with
        accepted := w.accepted ++ (Memory.slice b.data b.written (b.filled - b.written)).take n
        pipe := pipe } := by
  have written := holds.written
  have filled := holds.filled
  have small := holds.bounded
  rw [guint_of_lt (by omega)]
  refine ⟨holds.data, holds.allocated, holds.positive, small, by dsimp only; omega, filled, holds.few, ?_, forwards, holds.file,
    holds.whole⟩
  have split := Memory.slice_add b.data b.written n (b.filled - b.written - n)
  have short : (Memory.slice b.data b.written (b.filled - b.written)).take n = Memory.slice b.data b.written n := by
    rw [Memory.slice, Memory.slice, List.take_take, Nat.min_eq_left fits]
  rw [Nat.add_sub_cancel' fits] at split
  dsimp only
  rw [short, List.append_assoc, Nat.sub_add_eq, ← split]
  exact holds.pending

theorem Holds.shift (holds : Holds file b w) : Holds file b.shift w ∧ b.shift.written = 0 := by
  have written := holds.written
  have filled := holds.filled
  have few := holds.few
  rw [Buffer.shift]
  split
  · have length : (Memory.slice b.data b.written (b.filled - b.written)).length = b.filled - b.written :=
      Memory.length_slice (by rw [holds.data]; omega)
    have fits : 0 + (Memory.slice b.data b.written (b.filled - b.written)).length ≤ b.data.length := by
      rw [length, holds.data]
      omega
    have back := Memory.slice_write fits
    rw [length] at back
    refine ⟨⟨?_, holds.allocated, holds.positive, holds.bounded, Nat.zero_le _, ?_, ?_, ?_, holds.pipe, holds.file,
      holds.whole⟩, rfl⟩
    · exact (Memory.length_write fits).trans holds.data
    · dsimp only
      omega
    · dsimp only
      omega
    · dsimp only
      rw [Nat.sub_zero, back]
      exact holds.pending
  · exact ⟨holds, by omega⟩

theorem Holds.emptied (holds : Holds file b w) (all : b.written = b.filled) :
    w.accepted = w.read ∧ Ready file { b with written := 0, filled := 0 } w := by
  have same : w.accepted = w.read := by
    rw [holds.pending, all, Nat.sub_self, Memory.slice_zero, List.append_nil]
  refine ⟨same, ⟨holds.data, holds.allocated, holds.positive, holds.bounded, Nat.le_refl _, Nat.zero_le _, ?_, ?_,
    holds.pipe, holds.file, holds.whole⟩, rfl, holds.positive⟩
  · exact Nat.two_pow_pos 30
  · rw [Nat.sub_zero, Memory.slice_zero, List.append_nil]
    exact same.symm

variable {H : Stop → World → Prop} {Q : Buffer → Unit → World → Prop}

/-- The doubled buffer has room. -/
theorem safe_enlarge (holds : Holds file b w) (start : b.written = 0) (next : ∀ b' w', Ready file b' w' → Q b' () w') :
    Action.safe (World.Serves file held) World.Demands (enlarge b) () Q H w := by
  have few := holds.few
  have filled := holds.filled
  have positive := holds.positive
  rw [enlarge, guint_of_lt (by omega), Action.safe_ite]
  constructor
  · intro full
    rw [guint_of_lt (by omega), Action.safe_bind, ask, Action.safe_ask]
    refine ⟨⟨holds.forwarded, trivial⟩, ?_⟩
    rintro ⟨grown, size, kept⟩ _ rfl
    have whole : b.data.take (b.size * 2) = b.data := List.take_of_length_le (by rw [holds.data]; omega)
    rw [whole] at kept
    obtain ⟨more, rfl⟩ := kept
    refine next _ _ ⟨⟨size, rfl, by dsimp only; omega, by dsimp only; omega, holds.written, by dsimp only; omega, few, ?_,
      holds.pipe, holds.file, holds.whole⟩, start, by dsimp only; omega⟩
    rw [holds.pending]
    dsimp only
    rw [Memory.slice, Memory.slice, start, List.drop_zero, List.drop_zero, Nat.sub_zero,
      List.take_append_of_le_length (by rw [holds.data]; exact filled)]
  · intro half
    exact next b w ⟨holds, start, by omega⟩

end Buffers

section Rounds

variable {file : Bytes} {held : Bytes → Bytes} {b : Buffer} {w : World} {bytesRead fuel : Nat} {advisedBlockSize : Nat}

/-- Every state in which a run may be left without an end. -/
abbrev Unended (stop : Stop) (w : World) : Prop := stop = .outOfFuel ∧ w.pipe <+: w.read

/-- How the loop has been left, in front of the shutdown. -/
def Leaves (file : Bytes) (w : World) : Leaving → Prop
  | .readFailed => w.failed = true
  | .cancelled => w.cancelled = true
  | .writeFailed => w.broken = true
  | .nothingFilled => w.accepted = file

/-- How the inner loop can have ended. -/
def WriteEnded (file : Bytes) (w : World) : WriteEnd → Prop
  | .emptied b => Ready file { b with written := 0, filled := 0 } w ∧ b.written = b.filled
  | .restart b => Ready file b w
  | .leave reason => (w.pipe <+: w.accepted ∧ w.accepted <+: w.read) ∧ Leaves file w reason

theorem Holds.between (holds : Holds file b w) : w.pipe <+: w.accepted ∧ w.accepted <+: w.read :=
  ⟨holds.pipe, _, holds.pending.symm⟩

theorem safe_writeRound (holds : Holds file b w) :
    Action.safe (World.Serves file held) World.Demands (writeRound bytesRead b) ()
      (fun r _ w' => match r with
        | .again b' => Holds file b' w'
        | .finish ended => WriteEnded file w' ended) Unended w := by
  rw [writeRound, Action.safe_ite]
  constructor
  · intro pending
    rw [Action.safe_bind, ask, Action.safe_ask]
    refine ⟨⟨holds.forwarded, trivial⟩, ?_⟩
    rintro ⟨status, n⟩ w' ⟨-, forwards, same⟩
    have few : n.1 ≤ b.filled - b.written := by
      have inside : b.written + (b.filled - b.written) ≤ b.data.length := by
        rw [holds.data]
        have := holds.filled
        omega
      have length := Memory.length_slice inside
      have := n.2
      omega
    have accepted : w'.accepted = w.accepted ++ (Memory.slice b.data b.written (b.filled - b.written)).take n := by
      rw [same]
    rw [accepted] at forwards
    have wrote := holds.write few forwards
    -- the same but for the mark of a pipe that could not be written to
    have between : w'.pipe <+: w'.accepted ∧ w'.accepted <+: w'.read := by
      have both := wrote.between
      rwa [same]
    have holds' : (status = .again ∨ status = .normal ∧ n.1 ≠ 0) →
        Holds file { b with written := guint (b.written + n) } w' := by
      intro fine
      have unbroken : (w.broken || status ≠ .again && (status ≠ .normal || n.1 = 0)) = w.broken := by
        rcases fine with again | ⟨normal, some⟩
        · simp [again]
        · simp [normal, some]
      rw [same, unbroken]
      exact wrote
    rw [Action.safe_bind, ask, Action.safe_ask]
    refine ⟨⟨between.1.trans between.2, trivial⟩, ?_⟩
    rintro cancelled _ rfl
    rw [Action.safe_ite]
    refine ⟨fun now => ⟨between, by simp [Leaves, now]⟩, fun goesOn => ?_⟩
    have still : { w' with cancelled := w'.cancelled || cancelled } = w' := by
      rw [Bool.not_eq_true] at goesOn
      rw [goesOn, Bool.or_false]
    rw [still, Action.safe_ite]
    constructor
    · -- the pipe is full
      intro again
      have holds' := holds' (Or.inl again)
      rw [Action.safe_ite]
      constructor
      · intro _
        rw [Action.safe_bind, ask, Action.safe_ask]
        refine ⟨⟨holds'.forwarded, trivial⟩, ?_⟩
        rintro _ _ rfl
        exact holds'
      · intro _
        obtain ⟨shifted, start⟩ := holds'.shift
        rw [Action.safe_bind]
        exact safe_enlarge shifted start fun b' w' ready => ready
    · intro other
      rw [Action.safe_ite]
      constructor
      · intro bad
        refine ⟨between, ?_⟩
        rw [Leaves, same]
        rcases bad with abnormal | none
        · simp [other, abnormal]
        · simp [other, none]
      · intro fine
        rw [not_or, not_not] at fine
        exact holds' (Or.inr fine)
  · intro all
    have same : b.written = b.filled := by
      have := holds.written
      omega
    exact ⟨(holds.emptied same).2, same⟩

theorem safe_afterWrites {ended : WriteEnd} (holds : WriteEnded file w ended) :
    Action.safe (World.Serves file held) World.Demands (afterWrites ended) ()
      (fun r _ w' => match r with
        | .again b' => Ready file b' w'
        | .finish reason => (w'.pipe <+: w'.accepted ∧ w'.accepted <+: w'.read) ∧ Leaves file w' reason) Unended w := by
  cases ended with
  | leave reason => exact holds
  | restart b => exact holds
  | emptied b =>
    obtain ⟨ready, same⟩ := holds
    rw [afterWrites, if_neg (by simpa using same)]
    exact ready

/-- A round reads what there is room for, and writes until the buffer is empty or the pipe is full. -/
theorem safe_readRound (positive : 0 < advisedBlockSize) (ready : Ready file b w) :
    Action.safe (World.Serves file held) World.Demands (readRound fuel advisedBlockSize b) ()
      (fun r _ w' => match r with
        | .again b' => Ready file b' w'
        | .finish reason => (w'.pipe <+: w'.accepted ∧ w'.accepted <+: w'.read) ∧ Leaves file w' reason) Unended w := by
  have room := ready.room
  have filled := ready.filled
  rw [readRound, if_neg (by omega), if_neg (by have := ready.start; omega), Action.safe_bind, ask, Action.safe_ask]
  refine ⟨⟨ready.forwarded, by omega, by rw [ready.allocated]; omega⟩, ?_⟩
  rintro ⟨result, data, fits⟩ w' served
  rw [World.Serves] at served
  dsimp only at served
  rw [Action.safe_ite]
  constructor
  · intro interrupted
    rw [if_neg (by simp [interrupted])] at served
    have same : w' = w := by simpa [interrupted] using served
    rw [same]
    exact ready
  · intro uninterrupted
    rw [Action.safe_ite]
    constructor
    · intro failed
      rw [if_neg (by simpa [not_or] using failed)] at served
      subst served
      exact ⟨ready.between, by simp [Leaves, uninterrupted]⟩
    · intro read
      rw [if_pos (by simpa [imp_iff_not_or, or_comm] using read)] at served
      obtain ⟨rfl, next, ends, few⟩ := served
      rw [List.length_append] at few
      obtain ⟨small, holds⟩ := ready.fill (show data.length ≤ _ by omega) few next
      rw [small, Action.safe_ite]
      constructor
      · intro empty
        refine ⟨holds.between, ?_⟩
        have empty : b.filled + data.length = 0 := empty
        have none : data = [] := List.length_eq_zero_iff.mp (by omega)
        have all : b.written = b.filled + data.length := by
          have written := holds.written
          dsimp only at written
          omega
        have taken := (holds.emptied all).1
        dsimp only at taken
        rw [Leaves, taken, none, List.append_nil]
        exact ends none
      · intro _
        rw [if_neg (not_not.mpr holds.written), Action.safe_bind, ask, Action.safe_ask]
        refine ⟨⟨holds.forwarded, trivial⟩, ?_⟩
        rintro cancelled _ rfl
        rw [Action.safe_ite]
        refine ⟨fun now => ⟨holds.between, by simp [Leaves, now]⟩, fun goesOn => ?_⟩
        rw [Bool.not_eq_true] at goesOn
        rw [goesOn, Bool.or_false, Action.safe_bind]
        apply Action.safe_loop fun _ b _ w => Holds file b w
        · intro left b s w holds
          refine Action.safe_mono (safe_writeRound holds) ?_ fun _ _ => id
          intro r s w' after
          cases r with
          | again b' => exact after
          | finish ended => exact safe_afterWrites after
        · exact fun b s w holds => ⟨rfl, holds.forwarded⟩
        · exact holds

theorem Leaves.shutdown {reason : Leaving} (leaves : Leaves file w reason) {w' : World}
    (between : w.pipe <+: w.accepted ∧ w.accepted <+: w.read) (served : World.Serves file held w .shutdown () w') :
    w'.pipe <+: w'.read ∧ World.Left file held w' reason := by
  rcases served with rfl | ⟨-, flushed, same⟩
  · refine ⟨between.1.trans between.2, ?_⟩
    cases reason with
    | readFailed => exact leaves
    | cancelled => exact leaves
    | writeFailed => rfl
    | nothingFilled => exact ⟨leaves, fun never => by cases never⟩
  · have front : w'.pipe <+: w.accepted := ⟨_, flushed⟩
    rw [same]
    refine ⟨front.trans between.2, ?_⟩
    cases reason with
    | readFailed => exact leaves
    | cancelled => exact leaves
    | writeFailed => exact leaves
    | nothingFilled =>
      have taken : w.accepted = file := leaves
      rw [taken] at flushed
      refine ⟨taken, fun _ => ⟨flushed, fun all => ?_, fun none => ?_⟩⟩
      · dsimp only at all
        rw [all] at flushed
        exact List.append_right_eq_self.mp flushed
      · rwa [none, List.append_nil] at flushed

/-- Whatever the file has, its reads give and the channel takes: what is in the pipe is the beginning of what is read at all
times, each read is for at least one byte and has room in the buffer, no assertion fails, and when the end of the file is
the reason to leave, the file is in the pipe just when it does not end in a part of a character. -/
theorem serveChannelRead_forwards_iff (file : Bytes) (held : Bytes → Bytes) (advisedBlockSize : UInt32) (fuel : Nat) :
    Action.safe (World.Serves file held) World.Demands (serveChannelRead fuel advisedBlockSize.toNat) ()
      (fun reason _ w => w.pipe <+: w.read ∧ w.Left file held reason)
      (fun stop w => stop = .outOfFuel ∧ w.pipe <+: w.read) .start := by
  have small := advisedBlockSize.toNat_lt
  have block : ∃ n, (if advisedBlockSize.toNat = 0 then defaultBufferSize else advisedBlockSize.toNat) = n ∧ 0 < n ∧ n < 2 ^ 32 := by
    refine ⟨_, rfl, ?_⟩
    split
    · exact ⟨by decide, by decide⟩
    · exact ⟨by omega, small⟩
  obtain ⟨n, same, positive, bounded⟩ := block
  rw [serveChannelRead, same, guint_of_lt bounded, Action.safe_bind, ask, Action.safe_ask]
  refine ⟨⟨List.prefix_refl _, trivial⟩, ?_⟩
  rintro ⟨data, size⟩ _ rfl
  have ready : Ready file ⟨data, 0, 0, n⟩ { World.start with allocated := n } :=
    ⟨⟨size, rfl, positive, bounded, Nat.le_refl _, Nat.zero_le _, Nat.two_pow_pos 30, by simp [World.start, Memory.slice_zero],
      List.prefix_refl _, List.nil_prefix, rfl⟩, rfl, positive⟩
  rw [Action.safe_bind]
  apply Action.safe_loop fun _ b _ w => Ready file b w
  · intro left b s w ready
    refine Action.safe_mono (safe_readRound positive ready) ?_ fun _ _ => id
    intro r s w' after
    cases r with
    | again b' => exact after
    | finish reason =>
      dsimp only
      rw [Action.safe_bind, ask, Action.safe_ask]
      refine ⟨⟨after.1.1.trans after.1.2, trivial⟩, ?_⟩
      exact fun _ w'' served => after.2.shutdown after.1 served
  · exact fun b s w ready => ⟨rfl, ready.forwarded⟩
  · exact ready

/-- The part of a character at the end of a text in UTF-8. -/
def incompleteEnd (s : Bytes) : Bytes :=
  let more := s.reverse.takeWhile fun c => 0x80 ≤ c && c < 0xC0
  match (s.reverse.drop more.length).head? with
  | none => []
  | some lead =>
    let length := if lead < 0xE0 then 2 else if lead < 0xF0 then 3 else 4
    if 0xC0 ≤ lead && more.length + 1 < length then lead :: more.reverse else []

/-- A text of whole characters, the last of them of two bytes, with a buffer of two bytes. -/
theorem serveChannelRead_forwards_text :
    Action.safe (World.Serves [0x61, 0x62, 0xC3, 0xA9] incompleteEnd) World.Demands (serveChannelRead 9 2) ()
      (fun reason _ w => reason = .nothingFilled → w.broken = false → w.pipe = [0x61, 0x62, 0xC3, 0xA9])
      (fun stop _ => stop = .outOfFuel) .start := by
  refine Action.safe_mono (serveChannelRead_forwards_iff [0x61, 0x62, 0xC3, 0xA9] incompleteEnd 2 9) ?_ fun _ _ => And.left
  rintro reason _ w ⟨-, left⟩ rfl unbroken
  exact (left.2 unbroken).2.mpr (by decide)

/-- The only byte of the file begins a character: the channel takes it, and at the end nothing is in the pipe. -/
theorem serveChannelRead_drops : ¬ Action.safe (World.Serves [0xC3] incompleteEnd) World.Demands (serveChannelRead 3 1) ()
    (fun reason _ w => reason = .nothingFilled → w.broken = false → w.pipe = [0xC3]) (fun _ _ => True) .start := by
  intro holds
  have allocated := holds.2 ⟨[0], rfl⟩ _ rfl
  have read := allocated.2 (.ok, ⟨[0xC3], Nat.le_refl 1⟩) ⟨[0xC3], [], [], 1, false, false, false⟩
    ⟨rfl, by decide, by decide, by decide⟩
  have checked := read.2 false _ rfl
  have wrote := checked.2 (.normal, ⟨1, by decide⟩) ⟨[0xC3], [0xC3], [], 1, false, false, false⟩ ⟨by decide, by decide, rfl⟩
  have again := wrote.2 false _ rfl
  have ended := again.2 (.eof, ⟨[], Nat.zero_le _⟩) _ ⟨rfl, by decide, by decide, by decide⟩
  have shut := ended.2 () ⟨[0xC3], [0xC3], [], 1, false, false, false⟩ (Or.inr ⟨by decide, by decide, rfl⟩)
  exact absurd (shut rfl rfl) (by decide)

end Rounds

end GnomeVfs.AsyncChannel
