import GnomeVfs.CString
import GnomeVfs.Environment
import GnomeVfs.Result
import GnomeVfs.RingQueue

/- An SFTP connection: the packets of the protocol and what the code does with a connection, with
the server at its other end. The server answers each request once, in any order. -/
namespace GnomeVfs.Sftp

open Interaction

inductive FileType where
  | unknown | regular | directory | fifo | socket | characterDevice | blockDevice | symbolicLink
  deriving DecidableEq

/-- The attributes of a file: the size and the type that the permissions tell, where they are given. -/
structure Attrs where
  size : Option Nat
  type : Option FileType
  deriving DecidableEq

/-- One entry of a `SSH2_FXP_NAME` packet. -/
structure NameEntry where
  filename : Bytes
  longname : Bytes
  attrs : Attrs
  deriving DecidableEq

/-- What is asked of the server, without the id. -/
inductive Query where
  | read (handle : Bytes) (offset len : Nat)
  | write (handle : Bytes) (offset : Nat) (data : Bytes)
  | close (handle : Bytes)
  | readdir (handle : Bytes)
  | lstat (path : Bytes)
  | readlink (path : Bytes)
  | openFile (path : Bytes) (mode : Nat) (permissions : Option Nat)
  | opendir (path : Bytes)
  | remove (path : Bytes)
  | rmdir (path : Bytes)
  deriving DecidableEq

structure Packet where
  id : Nat
  query : Query
  deriving DecidableEq

/-- What the server says, without the id; `other` is a packet of any other type, with the word
behind the id. -/
inductive Answer where
  | status (code : Nat)
  | handle (bytes : Bytes)
  | data (bytes : Bytes)
  | name (entries : List NameEntry)
  | attrs (attrs : Attrs)
  | other (word : Nat)
  deriving DecidableEq

structure Reply where
  id : Nat
  answer : Answer
  deriving DecidableEq

/-- `SSH2_FX_OK`. -/
def fxOk : Nat := 0

/-- `SSH2_FX_EOF`. -/
def fxEof : Nat := 1

def sftpStatusToVfsResult : Nat → VfsResult
  | 0 => .ok
  | 1 => .eof
  | 2 => .notFound
  | 3 => .notPermitted
  | 6 => .loginFailed
  | 4 => .generic
  | 5 => .internal
  | 7 => .io
  | 8 => .notSupported
  | _ => .generic

section Connection

/-- `SftpConnection`. `holder` is the operation that has locked the mutex. `inflight` holds the
requests that the server has not answered, each with the operation that sent it. `timers` holds
the sources of the main loop that are to close the connection. -/
structure Connection where
  version : Nat
  msgId : Nat
  refCount : Nat
  closeTimeoutId : Nat
  holder : Option Nat
  inflight : List (Nat × Packet)
  timers : List Nat
  nextTimer : Nat
  deriving DecidableEq

/-- What an operation does with a connection. -/
inductive ConnReq where
  | lock
  | unlock
  | version
  | getId
  | send (packet : Packet)
  | recv
  | ref
  | unref
  | expire

/-- `recv` gives whether something has been received, and what is in the buffer. -/
def ConnReq.Resp : ConnReq → Type
  | .lock | .unlock | .send _ | .ref | .unref => Unit
  | .version | .getId | .expire => Nat
  | .recv => Bool × Reply

/-- What the other end of the connection does: it answers one of the requests in flight, or the
connection breaks and something else is found in the buffer. A new connection is made or refused. -/
inductive Choice where
  | go
  | reply (place : Nat) (answer : Answer)
  | broken (garbage : Reply)
  | connected (version : Nat)
  | refused (result : VfsResult)
  deriving DecidableEq

/-- `sftp_connection_ref`. -/
def Connection.ref (k : Connection) : Connection :=
  if k.closeTimeoutId > 0 then
    { k with refCount := k.refCount + 1, timers := k.timers.erase k.closeTimeoutId, closeTimeoutId := 0 }
  else { k with refCount := k.refCount + 1 }

/-- `sftp_connection_unref`. -/
def Connection.unref (k : Connection) : Connection :=
  if k.refCount - 1 = 0 ∧ k.closeTimeoutId = 0 then
    { k with
      refCount := k.refCount - 1
      closeTimeoutId := k.nextTimer
      timers := k.nextTimer :: k.timers
      nextTimer := k.nextTimer + 1 }
  else { k with refCount := k.refCount - 1 }

/-- What the operation `me` gets for a request; nothing as long as it has to wait. -/
def Connection.answer (me : Nat) (k : Connection) (choice : Choice) :
    (r : ConnReq) → Option (r.Resp × Connection)
  | .lock => if k.holder.isSome then none else some ((), { k with holder := some me })
  | .unlock => some ((), { k with holder := none })
  | .version => some (k.version, k)
  | .getId => some (k.msgId, { k with msgId := (k.msgId + 1) % 2 ^ 32 })
  | .send packet => some ((), { k with inflight := k.inflight ++ [(me, packet)] })
  | .recv =>
    match choice with
    | .reply place answer =>
      (k.inflight[place]?).map fun sent =>
        ((true, ⟨sent.2.id, answer⟩), { k with inflight := k.inflight.eraseIdx place })
    | .broken garbage => some ((false, garbage), k)
    | _ => none
  | .ref => some ((), k.ref)
  | .unref => some ((), k.unref)
  | .expire => some (k.refCount, { k with closeTimeoutId := 0 })

/-- Why an operation does not come to its end: the loop is cut off, or memory outside the buffer
would be written. -/
inductive Stop where
  | outOfFuel | overflow
  deriving DecidableEq

/-- `GnomeVFSFileInfo`; `typeValid` says whether `valid_fields` has the type. -/
structure FileInfo where
  typeValid : Bool
  type : FileType
  size : Nat
  symlinkName : Option Bytes
  name : Bytes
  deriving DecidableEq

/-- `SftpOpenHandle`; `entries` are the infos between `info_read_ptr` and `info_write_ptr`, and
`followLinks` is the option that `dir_options` may have. -/
structure OpenHandle where
  sftpHandle : Bytes
  offset : Nat
  entries : List FileInfo
  path : Bytes
  followLinks : Bool
  deriving DecidableEq

/-- The operations on an open file. -/
abbrev Operation := Action ConnReq.Resp Stop OpenHandle

variable {S : Type}

def sftpConnectionLock : Action ConnReq.Resp Stop S Unit := Action.ask ConnReq.lock

def sftpConnectionUnlock : Action ConnReq.Resp Stop S Unit := Action.ask ConnReq.unlock

def sftpConnectionGetId : Action ConnReq.Resp Stop S Nat := Action.ask ConnReq.getId

def bufferSend (packet : Packet) : Action ConnReq.Resp Stop S Unit := Action.ask (ConnReq.send packet)

def bufferRecv : Action ConnReq.Resp Stop S (Bool × Reply) := Action.ask ConnReq.recv

end Connection

end GnomeVfs.Sftp
