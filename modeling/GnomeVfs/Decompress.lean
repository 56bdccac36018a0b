import GnomeVfs.CString
import GnomeVfs.Environment
import GnomeVfs.Result

/- Reading what is compressed: `do_read` of the gzip and of the bzip2 method, with a decompressor that is an oracle
and a parent that gives its bytes in parts of any size. -/
namespace GnomeVfs.Decompress

open Interaction Action

/-- What a decompressor says, how many bytes it has consumed, and what it has produced. -/
structure Decoded (R : Type) where
  result : R
  consumed : Nat
  output : Bytes

/-- What is done in a sequence of reads; `call` is the caller who reads so many bytes. -/
inductive Req where
  | call (numBytes : Nat)
  | parentRead (len : Nat)
  | decode (input : Bytes) (availOut : Nat)

abbrev Req.Resp (R : Type) : Req → Type
  | .call _ => Unit
  | .parentRead _ => VfsResult × Bytes
  | .decode _ _ => Decoded R

inductive Stop where
  | outOfFuel

/-- `GZipMethodHandle` and `Bzip2MethodHandle`, as far as reading goes; `input` is what lies between `next_in` and the
end of the buffer. -/
structure Handle (R : Type) where
  input : Bytes
  lastResult : R
  lastVfsResult : VfsResult
  deriving DecidableEq

abbrev Reading (R : Type) := Action (Req.Resp R) Stop (Handle R)

/-- What is left of the caller's buffer, and what has been put into it. The field `avail_out` has 32 bits, and starts
with the size modulo 2^32. -/
structure Out where
  availOut : Nat
  output : Bytes

def Out.start (numBytes : Nat) : Out := ⟨numBytes % 2 ^ 32, []⟩

def Out.put (x : Out) (bytes : Bytes) : Out := ⟨x.availOut - bytes.length, x.output ++ bytes⟩

def Handle.consume {R : Type} (h : Handle R) (n : Nat) : Handle R := { h with input := h.input.drop n }

section Code

variable {R : Type}

def request (r : Req) : Reading R (r.Resp R) := Action.ask r

/-- `fill_buffer`. -/
def fillBuffer (bufsize numBytes availOut : Nat) : Reading R VfsResult := do
  let handle ← get
  if handle.input ≠ [] then return .ok
  let (result, bytes) ← request (.parentRead bufsize)
  if result ≠ .ok then
    if availOut = numBytes then return result
    modify fun handle => { handle with lastVfsResult := result }
    return .ok
  modify fun handle => { handle with input := bytes }
  return .ok

/-- `inflate` and `BZ2_bzDecompress`, on what the stream points to. -/
def decode (x : Out) : Reading R (R × Out) := do
  let handle ← get
  let decoded ← request (.decode handle.input x.availOut)
  modify fun handle => handle.consume decoded.consumed
  return (decoded.result, x.put decoded.output)

/-- Reads one behind the other, of these sizes. -/
def readAll (doRead : Nat → Reading R (VfsResult × Bytes)) : List Nat → Reading R (List (VfsResult × Bytes))
  | [] => return []
  | numBytes :: sizes => do
    request (.call numBytes)
    let result ← doRead numBytes
    let rest ← readAll doRead sizes
    return result :: rest

end Code

def zBufsize : Nat := 16384

inductive ZResult where
  | ok | streamEnd | dataError | bufError | other
  deriving DecidableEq

def resultFromZResult : ZResult → VfsResult
  | .ok | .streamEnd => .ok
  | .dataError => .corruptedData
  | .bufError | .other => .internal

/-- One round of the loop of `do_read` of the gzip method. -/
def gzipRound (numBytes : Nat) (x : Out) : Reading ZResult (Step Out (VfsResult × Bytes)) := do
  if x.availOut = 0 then return .finish (.ok, x.output)
  let result ← fillBuffer zBufsize numBytes x.availOut
  if result ≠ .ok then return .finish (result, [])
  let (zResult, x) ← decode x
  if zResult = .streamEnd then
    modify fun handle => { handle with lastResult := zResult }
    return .finish (.ok, x.output)
  if zResult ≠ .ok then modify fun handle => { handle with lastResult := zResult }
  let handle ← get
  if handle.lastResult ≠ .ok ∧ x.availOut = numBytes then
    return .finish (resultFromZResult handle.lastResult, [])
  return .again x

/-- `do_read` of the gzip method. -/
def gzipRead (fuel numBytes : Nat) : Reading ZResult (VfsResult × Bytes) := do
  let handle ← get
  if handle.lastResult ≠ .ok then
    return (if handle.lastResult = .streamEnd then .eof else resultFromZResult handle.lastResult, [])
  if handle.lastVfsResult ≠ .ok then return (handle.lastVfsResult, [])
  loop .outOfFuel (gzipRound numBytes) fuel (.start numBytes)

def bzBufsize : Nat := 5000

inductive BzResult where
  | ok | streamEnd | memError | paramError | dataError | unexpectedEof | sequenceError | other
  deriving DecidableEq

def resultFromBzResult : BzResult → VfsResult
  | .ok | .streamEnd => .ok
  | .memError => .noMemory
  | .paramError => .badParameters
  | .dataError => .corruptedData
  | .unexpectedEof => .eof
  | .sequenceError => .notPermitted
  | .other => .internal

/-- One round of the loop of `do_read` of the bzip2 method. It looks at the last result that has been recorded, not at
the one it has just got. -/
def bzip2Round (numBytes : Nat) (x : Out) : Reading BzResult (Step Out (VfsResult × Bytes)) := do
  if x.availOut = 0 then return .finish (.ok, x.output)
  let result ← fillBuffer bzBufsize numBytes x.availOut
  if result ≠ .ok then return .finish (result, [])
  let (bzResult, x) ← decode x
  let handle ← get
  if handle.lastResult ≠ .ok ∧ x.availOut = numBytes then
    modify fun handle => { handle with lastResult := bzResult }
    return .finish (resultFromBzResult bzResult, [])
  if bzResult = .streamEnd then
    modify fun handle => { handle with lastResult := bzResult }
    return .finish (.ok, x.output)
  return .again x

/-- `do_read` of the bzip2 method. -/
def bzip2Read (fuel numBytes : Nat) : Reading BzResult (VfsResult × Bytes) := do
  let handle ← get
  if handle.lastResult ≠ .ok then
    return (if handle.lastResult = .streamEnd then .eof else resultFromBzResult handle.lastResult, [])
  if handle.lastVfsResult ≠ .ok then return (handle.lastVfsResult, [])
  loop .outOfFuel (bzip2Round numBytes) fuel (.start numBytes)

section World

variable {R : Type}

/-- The parent gives the bytes of its stream and then fails for good. `faults` are those that have been met, each with
the number of the call. -/
structure World (R : Type) where
  stream : Bytes
  fault : { result : VfsResult // result ≠ .ok }
  dead : Option R
  calls : Nat
  size : Nat
  faults : List (Nat × VfsResult)
  produced : Bytes

/-- What is known of a decompressor: the results that are errors, what a reader is told of a result, and where it may
make no progress. -/
structure Codec (R : Type) where
  ok : R
  fails : R → Bool
  told : R → Option VfsResult
  goes : Bytes → Decoded R → Prop
  told_ne_ok : ∀ r, told r ≠ some .ok
  told_of_fails : ∀ r, fails r = true → (told r).isSome

variable (codec : Codec R)

/-- The oracle keeps within what it is given, goes on as long as it has input, and stays with an error. -/
structure Codec.Answers (w : World R) (input : Bytes) (availOut : Nat) (decoded : Decoded R) : Prop where
  consumed : decoded.consumed ≤ input.length
  output : decoded.output.length ≤ availOut
  goes : codec.goes input decoded
  dead : ∀ e, w.dead = some e → decoded = ⟨e, 0, []⟩

def World.called (w : World R) (numBytes : Nat) : World R := { w with calls := w.calls + 1, size := numBytes }

def World.meets (w : World R) (fault : VfsResult) : World R := { w with faults := w.faults ++ [(w.calls, fault)] }

def Codec.decoded (w : World R) (decoded : Decoded R) : World R :=
  { w with
    produced := w.produced ++ decoded.output
    dead := if codec.fails decoded.result then some decoded.result else w.dead
    faults := w.faults ++ ((codec.told decoded.result).map (w.calls, ·)).toList }

/-- The parent and the decompressor, as long as the answers of the decompressor are of this kind. -/
def Codec.env (kind : World R → Bytes → Nat → Decoded R → Prop) : World R → (r : Req) → r.Resp R → World R → Prop
  | w, .call numBytes, _, w' => w' = w.called numBytes
  | w, .parentRead len, (result, bytes), w' =>
    (result = .ok ∧ 0 < bytes.length ∧ bytes.length ≤ len ∧
      ∃ rest, w.stream = bytes ++ rest ∧ w' = { w with stream := rest }) ∨
    (w.stream = [] ∧ result = w.fault.1 ∧ bytes = [] ∧ w' = w.meets result)
  | w, .decode input availOut, decoded, w' =>
    codec.Answers w input availOut decoded ∧ kind w input availOut decoded ∧ w' = codec.decoded w decoded

/-- The reads have delivered what has been produced. Each has succeeded where no fault had been met before it, and
has been told of a fault else. -/
structure Delivered (log : List (VfsResult × Bytes)) (w : World R) : Prop where
  bytes : log.flatMap Prod.snd = w.produced
  faults : ∀ fault ∈ w.faults, fault.2 ≠ .ok
  each : ∀ i result, log[i]? = some result → (result.1 = .ok ∧ ∀ fault ∈ w.faults, i < fault.1) ∨
    (result.2 = [] ∧ ∃ fault ∈ w.faults, fault.1 ≤ i + 1 ∧ result.1 = fault.2)

end World

end GnomeVfs.Decompress
