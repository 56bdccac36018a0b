import GnomeVfs.SftpConnection

/- Reading and writing a file with several requests in flight. A pointer into the buffer is its
distance from the start of the buffer. -/
namespace GnomeVfs.Sftp

open Interaction Action

def defaultReqLen : Nat := 32 * 1024

def maxReq : Nat := 8

def queueLen : Nat := maxReq + 1

/-- `struct ReadRequest` and `struct WriteRequest`; `start` is `ptr - buffer` in the one and
`offset` in the other. -/
structure Request where
  id : Nat
  reqLen : Nat
  start : Nat
  deriving DecidableEq

/-- The requests as `g_new0` leaves them. -/
def newQueue : RingQueue Request queueLen := ⟨fun _ => ⟨0, 0, 0⟩, ⟨0, by decide⟩, ⟨0, by decide⟩⟩

/-- A finished request. -/
def Request.finished (req : Request) : Bool := req.id = 0

/-- The variables of `do_read`. -/
structure ReadState where
  numBytes : Nat
  bytesRead : Nat
  buffer : Bytes
  curr : Nat
  queue : RingQueue Request queueLen
  outstanding : Nat
  gotEof : Bool

structure ReadResult where
  result : VfsResult
  bytesRead : Nat
  buffer : Bytes
  deriving DecidableEq

/-- `buffer_read` into the buffer. -/
def overwrite (buffer : Bytes) (start : Nat) (bytes : Bytes) : Bytes :=
  buffer.take start ++ bytes ++ buffer.drop (start + bytes.length)

/-- `iobuf_send_read_request`, at a place in the buffer. -/
def sendReadRequest (id start len : Nat) : Operation Unit := do
  let handle ← get
  bufferSend ⟨id, .read handle.sftpHandle ((handle.offset + start) % 2 ^ 64) len⟩

/-- One more block, unless the queue is full or everything has been requested. -/
def requestRead (x : ReadState) : Operation (Step ReadState ReadState) := do
  if x.curr < x.numBytes ∧ x.queue.isFull = false then
    let id ← sftpConnectionGetId
    let reqLen := min (x.numBytes - x.curr) defaultReqLen
    sendReadRequest id x.curr reqLen
    return .again { x with
      queue := x.queue.push ⟨id, reqLen, x.curr⟩
      outstanding := x.outstanding + 1
      curr := x.curr + reqLen }
  else return .finish x

/-- `return` from inside the loop, with the mutex unlocked. -/
def giveUpRead (x : ReadState) (result : VfsResult) : Operation (Step ReadState ReadResult) := do
  sftpConnectionUnlock
  return .finish ⟨result, x.bytesRead, x.buffer⟩

/-- A reply is written into the queue, and finished requests are popped from its tail. -/
def ReadState.answered (x : ReadState) (i : Fin queueLen) (req : Request) : ReadState :=
  { x with queue := (x.queue.set i req).popWhile Request.finished }

/-- `SSH2_FXP_DATA`. -/
def receiveData (x : ReadState) (i : Fin queueLen) (bytes : Bytes) :
    Operation (Step ReadState ReadResult) := do
  let req := x.queue.slots i
  let len := bytes.length
  if req.start + len > x.buffer.length then halt .overflow
  else
    let x := { x with buffer := overwrite x.buffer req.start bytes, bytesRead := x.bytesRead + len }
    if len < req.reqLen then
      let id ← sftpConnectionGetId
      sendReadRequest id (req.start + len) (req.reqLen - len)
      let x := { x with outstanding := x.outstanding + 1 }
      return .again (x.answered i ⟨id, req.reqLen - len, req.start + len⟩)
    else return .again (x.answered i { req with id := 0 })

/-- The first request is at the start of the buffer. -/
def receiveEof (x : ReadState) (i : Fin queueLen) : ReadState :=
  let req := x.queue.slots i
  let x := { x with gotEof := x.gotEof || req.start = 0, numBytes := min x.numBytes req.start }
  x.answered i { req with id := 0 }

def receiveRead (x : ReadState) (reply : Reply) : Operation (Step ReadState ReadResult) := do
  match x.queue.find (·.id = reply.id) with
  | none => giveUpRead x .protocolError
  | some i =>
    match reply.answer with
    | .status code =>
      if code ≠ fxEof then giveUpRead x (sftpStatusToVfsResult code)
      else return .again (receiveEof x i)
    | .data bytes => receiveData x i bytes
    | _ => giveUpRead x .protocolError

/-- One round of the loop of `do_read`. -/
def readRound (x : ReadState) : Operation (Step ReadState ReadResult) := do
  if x.bytesRead < x.numBytes ∨ x.outstanding > 0 then
    let x ← loop .outOfFuel requestRead queueLen x
    let received ← bufferRecv
    let x := { x with outstanding := x.outstanding - 1 }
    if received.1 then receiveRead x received.2 else giveUpRead x .io
  else
    modify fun handle => { handle with offset := (handle.offset + x.bytesRead) % 2 ^ 64 }
    sftpConnectionUnlock
    return .finish ⟨if x.gotEof then .eof else .ok, x.bytesRead, x.buffer⟩

def ReadState.start (buffer : Bytes) : ReadState := ⟨buffer.length, 0, buffer, 0, newQueue, 0, false⟩

/-- `do_read` into a buffer of `num_bytes` bytes. -/
def doRead (fuel : Nat) (buffer : Bytes) : Operation ReadResult := do
  sftpConnectionLock
  loop .outOfFuel readRound fuel (.start buffer)

/-- The variables of `do_write`; `curr_offset` is a `guint`. -/
structure WriteState where
  bytesWritten : Nat
  currOffset : Nat
  queue : RingQueue Request queueLen

structure WriteResult where
  result : VfsResult
  bytesWritten : Nat
  deriving DecidableEq

def requestWrite (buffer : Bytes) (x : WriteState) : Operation (Step WriteState WriteState) := do
  if x.currOffset < buffer.length ∧ x.queue.isFull = false then
    let id ← sftpConnectionGetId
    let reqLen := min (buffer.length - x.currOffset) defaultReqLen
    let handle ← get
    bufferSend ⟨id, .write handle.sftpHandle ((handle.offset + x.currOffset) % 2 ^ 64)
      ((buffer.drop x.currOffset).take reqLen)⟩
    return .again { x with
      currOffset := (x.currOffset + reqLen) % 2 ^ 32
      queue := x.queue.push ⟨id, reqLen, x.currOffset⟩ }
  else return .finish x

def giveUpWrite (x : WriteState) (result : VfsResult) : Operation (Step WriteState WriteResult) := do
  sftpConnectionUnlock
  return .finish ⟨result, x.bytesWritten⟩

def receiveWrite (x : WriteState) (reply : Reply) : Operation (Step WriteState WriteResult) := do
  match reply.answer with
  | .status code =>
    if code ≠ fxOk then giveUpWrite x (sftpStatusToVfsResult code)
    else
      match x.queue.find (·.id = reply.id) with
      | none => giveUpWrite x .protocolError
      | some i =>
        let req := x.queue.slots i
        return .again { x with
          queue := (x.queue.set i { req with id := 0 }).popWhile Request.finished
          bytesWritten := x.bytesWritten + req.reqLen }
  | _ => giveUpWrite x .protocolError

/-- One round of the loop of `do_write`. The result of `buffer_recv` is not looked at. -/
def writeRound (buffer : Bytes) (x : WriteState) : Operation (Step WriteState WriteResult) := do
  if x.bytesWritten < buffer.length then
    let x ← loop .outOfFuel (requestWrite buffer) queueLen x
    let received ← bufferRecv
    receiveWrite x received.2
  else
    modify fun handle => { handle with offset := (handle.offset + x.bytesWritten) % 2 ^ 64 }
    sftpConnectionUnlock
    return .finish ⟨.ok, x.bytesWritten⟩

def doWrite (fuel : Nat) (buffer : Bytes) : Operation WriteResult := do
  sftpConnectionLock
  loop .outOfFuel (writeRound buffer) fuel ⟨0, 0, newQueue⟩

end GnomeVfs.Sftp
