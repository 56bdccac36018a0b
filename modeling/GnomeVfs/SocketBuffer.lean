import GnomeVfs.CString
import GnomeVfs.Memory
import GnomeVfs.Result
import GnomeVfs.Transition

/- A socket with a buffer for what has been received and one for what is to be sent. The socket
gives an outcome each time it is read from or written to. -/
namespace GnomeVfs.Socket

def bufferSize : Nat := 4096

/-- `struct Buffer`. -/
structure Buffer where
  data : Bytes
  offset : Nat
  byteCount : Nat
  lastError : VfsResult
  deriving DecidableEq

/-- `buffer_init`; what is in the memory is not known. -/
def Buffer.init (data : Bytes) : Buffer := ⟨data, 0, 0, .ok⟩

/-- A result that is not `GNOME_VFS_OK`. -/
abbrev Failure := { r : VfsResult // r ≠ .ok }

/-- What comes of `gnome_vfs_socket_read`: as many of these bytes as there is room for, at least
one, or a failure. -/
inductive ReadOutcome where
  | bytes (first : UInt8) (rest : Bytes)
  | error (failure : Failure)
  deriving DecidableEq

/-- The input buffer, with what the socket has given so far: the bytes, the failures, each with
the number of bytes before it, and how many bytes it was asked for. -/
structure Input where
  buffer : Buffer
  received : Bytes
  failures : List (Nat × VfsResult)
  requests : List Nat
  deriving DecidableEq

/-- Data that is left in the buffer is moved to the front. -/
def Buffer.compact (b : Buffer) : Buffer :=
  if b.offset > 0 then
    { b with data := Memory.write b.data 0 (Memory.slice b.data b.offset b.byteCount), offset := 0 }
  else b

/-- `refill_input_buffer`. There is no result as long as the socket gives none. -/
def refillInputBuffer (x : Input) (script : List ReadOutcome) : Option (Bool × Input × List ReadOutcome) :=
  if x.buffer.lastError ≠ .ok then some (false, x, script)
  else
    let b := x.buffer.compact
    let room := bufferSize - b.byteCount
    match script with
    | [] => none
    | .error failure :: rest =>
      some (false, { x with
        buffer := { b with lastError := failure.1 }
        failures := x.failures ++ [(x.received.length, failure.1)]
        requests := x.requests ++ [room] }, rest)
    | .bytes first more :: rest =>
      let got := (first :: more).take room
      some (true, { x with
        buffer := { b with data := Memory.write b.data b.byteCount got, byteCount := b.byteCount + got.length }
        received := x.received ++ got
        requests := x.requests ++ [room] }, rest)

/-- What a call gives back: the bytes that have been copied, and for `read_until` whether the
boundary has been found. -/
structure Reply where
  result : VfsResult
  bytes : Bytes
  gotBoundary : Bool
  deriving DecidableEq

/-- `n` bytes are taken out of the buffer. -/
def Buffer.consume (b : Buffer) (n : Nat) : Buffer :=
  { b with byteCount := b.byteCount - n, offset := b.offset + n }

/-- The error of the last refill is reported and forgotten. -/
def Input.report (x : Input) : Input := { x with buffer := { x.buffer with lastError := .ok } }

/-- `gnome_vfs_socket_buffer_read`. -/
def socketBufferRead (bytes : Nat) (x : Input) (script : List ReadOutcome) : Option (Reply × Input) :=
  if bytes = 0 then some (⟨.ok, [], false⟩, x)
  else
    let refilled :=
      if x.buffer.byteCount = 0 then
        (refillInputBuffer x script).map fun done =>
          if done.1 then (VfsResult.ok, done.2.1) else (done.2.1.buffer.lastError, done.2.1.report)
      else some (.ok, x)
    refilled.map fun done =>
      let b := done.2.buffer
      if b.byteCount ≠ 0 then
        let n := min bytes b.byteCount
        (⟨done.1, Memory.slice b.data b.offset n, false⟩, { done.2 with buffer := b.consume n })
      else (⟨done.1, [], false⟩, done.2)

/-- The loop of `gnome_vfs_socket_buffer_read_until`. -/
def refillUntil (boundaryLen : Nat) : Nat → Input → List ReadOutcome → Option Input
  | 0, _, _ => none
  | fuel + 1, x, script =>
    if x.buffer.byteCount ≤ boundaryLen then
      (refillInputBuffer x script).bind fun done =>
        if done.1 then refillUntil boundaryLen fuel done.2.1 done.2.2 else some done.2.1
    else some x

/-- How far the data is fetched, and whether the boundary is there. -/
def scan (data boundary : Bytes) (maxScan : Nat) : Nat × Bool :=
  if maxScan > boundary.length then
    match (List.range (maxScan - boundary.length + 1)).find? fun i => Memory.slice data i boundary.length = boundary with
    | some i => (i + boundary.length, true)
    | none => (maxScan - boundary.length + 1, false)
  else (maxScan, decide (maxScan = boundary.length ∧ Memory.slice data 0 boundary.length = boundary))

/-- `gnome_vfs_socket_buffer_read_until`. -/
def socketBufferReadUntil (bytes : Nat) (boundary : Bytes) (x : Input) (script : List ReadOutcome) :
    Option (Reply × Input) :=
  if boundary.length ≥ bufferSize then some (⟨.tooBig, [], false⟩, x)
  else if bytes = 0 then some (⟨.ok, [], false⟩, x)
  else
    (refillUntil boundary.length (script.length + 1) x script).map fun x =>
      let b := x.buffer
      let start := b.data.drop b.offset
      let scanned := scan start boundary (min b.byteCount bytes)
      if scanned.1 > 0 then
        (⟨.ok, Memory.slice b.data b.offset scanned.1, scanned.2⟩, { x with buffer := b.consume scanned.1 })
      else (⟨b.lastError, [], scanned.2⟩, x.report)

/-- `gnome_vfs_socket_buffer_peekc`, with the character that it shows. -/
def socketBufferPeekc (x : Input) (script : List ReadOutcome) : Option ((VfsResult × Option UInt8) × Input) :=
  let refilled :=
    if x.buffer.byteCount = 0 then
      (refillInputBuffer x script).map fun done =>
        if done.1 then (VfsResult.ok, done.2.1) else (done.2.1.buffer.lastError, done.2.1.report)
    else some (.ok, x)
  refilled.map fun done =>
    if done.1 = .ok then ((.ok, done.2.buffer.data[done.2.buffer.offset]?), done.2) else ((done.1, none), done.2)

/-- What comes of `gnome_vfs_socket_write`: this many bytes and one more are accepted, or as many
as there are, or a failure. -/
inductive WriteOutcome where
  | accepts (more : Nat)
  | error (failure : Failure)
  deriving DecidableEq

/-- The output buffer, with what the socket has accepted so far and how many bytes it was offered. -/
structure Output where
  buffer : Buffer
  accepted : Bytes
  offered : List Nat
  deriving DecidableEq

/-- `flush`, which is `gnome_vfs_socket_buffer_flush`. -/
def flush : List WriteOutcome → Output → Option (VfsResult × Output × List WriteOutcome)
  | script, x =>
    if x.buffer.byteCount > 0 then
      match script with
      | [] => none
      | .error failure :: rest =>
        some (failure.1, { x with
          buffer := { x.buffer with lastError := failure.1 }
          offered := x.offered ++ [x.buffer.byteCount] }, rest)
      | .accepts more :: rest =>
        let written := min (more + 1) x.buffer.byteCount
        flush rest { x with
          buffer := { x.buffer with
            data := Memory.write x.buffer.data 0
              (Memory.slice x.buffer.data written (x.buffer.byteCount - written))
            byteCount := x.buffer.byteCount - written
            lastError := .ok }
          accepted := x.accepted ++ Memory.slice x.buffer.data 0 written
          offered := x.offered ++ [x.buffer.byteCount] }
    else some (.ok, x, script)

/-- As much of the data as there is room for is put into the buffer. -/
def Output.fill (x : Output) (data : Bytes) : Output :=
  { x with buffer := { x.buffer with
    data := Memory.write x.buffer.data x.buffer.byteCount data
    byteCount := x.buffer.byteCount + data.length } }

/-- The loop of `gnome_vfs_socket_buffer_write`. -/
def writeLoop (data : Bytes) : Nat → Nat → Output → List WriteOutcome → Option ((VfsResult × Nat) × Output)
  | 0, _, _, _ => none
  | fuel + 1, writeCount, x, script =>
    if writeCount < data.length then
      let n := if x.buffer.byteCount < bufferSize then min (bufferSize - x.buffer.byteCount) (data.length - writeCount)
        else 0
      let x := if x.buffer.byteCount < bufferSize then x.fill (Memory.slice data writeCount n) else x
      if x.buffer.byteCount ≥ bufferSize then
        (flush script x).bind fun done =>
          if done.1 ≠ .ok then some ((done.1, writeCount + n), done.2.1)
          else writeLoop data fuel (writeCount + n) done.2.1 done.2.2
      else writeLoop data fuel (writeCount + n) x script
    else some ((.ok, writeCount), x)

/-- `gnome_vfs_socket_buffer_write`, with the number of bytes written. -/
def socketBufferWrite (data : Bytes) (x : Output) (script : List WriteOutcome) : Option ((VfsResult × Nat) × Output) :=
  writeLoop data (script.length + 3) 0 x script

end GnomeVfs.Socket
