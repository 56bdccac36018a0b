import GnomeVfs.BigEndian
import GnomeVfs.Decompress

/- Writing a gzip file: the header, what `deflate` makes of the data, and the sums at its end. -/
namespace GnomeVfs.Gzip

open Interaction Decompress

/-- A byte of the reflected CRC-32, bit by bit. -/
def crcByte (crc : UInt32) (c : UInt8) : UInt32 :=
  (List.range 8).foldl (fun crc _ => if crc &&& 1 = 1 then (crc >>> 1) ^^^ 0xedb88320 else crc >>> 1) (crc ^^^ c.toUInt32)

/-- `crc32` of zlib. -/
def crc32 (crc : UInt32) (data : Bytes) : UInt32 := ~~~(data.foldl crcByte (~~~crc))

theorem crc32_append (crc : UInt32) (front back : Bytes) : crc32 crc (front ++ back) = crc32 (crc32 crc front) back := by
  rw [crc32, crc32, crc32, List.foldl_append, UInt32.not_not]

inductive WriteReq where
  | parentWrite (bytes : Bytes)
  | deflate (input : Bytes) (availOut : Nat) (finish : Bool)
  | parentClose

abbrev WriteReq.Resp : WriteReq → Type
  | .parentWrite _ => VfsResult × Nat
  | .deflate _ _ _ => Decoded ZResult
  | .parentClose => VfsResult

/-- `GZipMethodHandle` as far as writing goes; `nextOut` is the place in the buffer. -/
structure WriteHandle where
  buffer : Bytes
  nextOut : Nat
  availOut : Nat
  crc : UInt32
  totalIn : Nat
  deriving DecidableEq

abbrev Writing := Action WriteReq.Resp Stop WriteHandle

def ask (r : WriteReq) : Writing r.Resp := Action.ask r

/-- `gnome_vfs_write` on the parent, which is not asked for nothing. -/
def parentWrite (bytes : Bytes) : Writing (VfsResult × Nat) :=
  if bytes = [] then pure (.ok, 0) else ask (.parentWrite bytes)

/-- A `guint32`, the least significant byte first. -/
def littleEndian (value : Nat) : Bytes := (BigEndian.encode 4 (value % 2 ^ 32)).reverse

def writeGuint32 (value : Nat) : Writing VfsResult := do
  let (result, _) ← parentWrite (littleEndian value)
  return result

/-- The ten bytes, with a time whose low bits are written. -/
def headerBytes (modificationTime : Int) : Bytes :=
  [0x1f, 0x8b, 8, 0] ++ littleEndian (modificationTime % 2 ^ 32).toNat ++ [0, 3]

def writeGzipHeader (modificationTime : Int) : Writing VfsResult := do
  let (result, bytesWritten) ← parentWrite (headerBytes modificationTime)
  if result ≠ .ok then return result
  if bytesWritten ≠ 10 then return .io
  return .ok

/-- What has been produced is stored at `next_out`. -/
def WriteHandle.produce (h : WriteHandle) (decoded : Decoded ZResult) : WriteHandle :=
  { h with
    buffer := h.buffer.take h.nextOut ++ (decoded.output ++ h.buffer.drop (h.nextOut + decoded.output.length))
    nextOut := h.nextOut + decoded.output.length
    availOut := h.availOut - decoded.output.length
    totalIn := h.totalIn + decoded.consumed }

/-- `deflate`, and what is left of the input. -/
def deflate (input : Bytes) (finish : Bool) : Writing (ZResult × Bytes) := do
  let handle ← get
  let decoded ← ask (.deflate input handle.availOut finish)
  modify fun handle => handle.produce decoded
  return (decoded.result, input.drop decoded.consumed)

/-- A full buffer is written, and as much room is left in it as the parent has accepted. -/
def emptyBuffer : Writing VfsResult := do
  let handle ← get
  if handle.availOut ≠ 0 then return .ok
  modify fun handle => { handle with nextOut := 0 }
  let (result, written) ← parentWrite (handle.buffer.take zBufsize)
  if result ≠ .ok then return result
  modify fun handle => { handle with availOut := handle.availOut + written }
  return .ok

/-- One round of the loop of `do_write`, on what is left of the input. -/
def writeRound (input : Bytes) : Writing (Step Bytes (VfsResult × Bytes)) := do
  if input = [] then return .finish (.ok, input)
  let result ← emptyBuffer
  if result ≠ .ok then return .finish (result, input)
  let (zResult, input) ← deflate input false
  if resultFromZResult zResult ≠ .ok then return .finish (resultFromZResult zResult, input)
  return .again input

/-- `do_write`. A `uInt` holds the number of the bytes that are compressed and summed up. -/
def doWrite (fuel : Nat) (data : Bytes) : Writing (VfsResult × Nat) := do
  let input := data.take (data.length % 2 ^ 32)
  let (result, left) ← Action.loop .outOfFuel writeRound fuel input
  modify fun handle => { handle with crc := crc32 handle.crc input }
  return (result, data.length - left.length)

/-- One round of the loop of `flush_write`, which goes on with the last result of `deflate` and whether
it is done, or ends with that result or with an error of the parent. -/
def flushRound (x : ZResult × Bool) : Writing (Step (ZResult × Bool) (VfsResult ⊕ ZResult)) := do
  let handle ← get
  let (result, _) ← parentWrite (handle.buffer.take (zBufsize - handle.availOut))
  if result ≠ .ok then return .finish (.inl result)
  modify fun handle => { handle with nextOut := 0, availOut := zBufsize }
  if x.2 then return .finish (.inr x.1)
  let (zResult, _) ← deflate [] true
  let zResult := if zResult = .bufError then .ok else zResult
  let handle ← get
  if zResult = .ok ∨ zResult = .streamEnd then return .again (zResult, handle.availOut ≠ 0 || zResult = .streamEnd)
  return .finish (.inr zResult)

def flushWrite (fuel : Nat) : Writing VfsResult := do
  match ← Action.loop .outOfFuel flushRound fuel (.ok, false) with
  | .inl result => return result
  | .inr zResult =>
    let handle ← get
    let result ← writeGuint32 handle.crc.toNat
    if result ≠ .ok then return result
    let result ← writeGuint32 handle.totalIn
    if result ≠ .ok then return result
    if zResult = .ok ∨ zResult = .streamEnd then return .ok
    return resultFromZResult zResult

/-- `do_close` of a handle opened for writing. -/
def doClose (fuel : Nat) : Writing VfsResult := do
  let result ← flushWrite fuel
  if result = .ok then ask .parentClose else return result

def writeAll (fuel : Nat) : List Bytes → Writing (List VfsResult)
  | [] => return []
  | data :: rest => do
    let (result, _) ← doWrite fuel data
    let results ← writeAll fuel rest
    return result :: results

/-- A handle is opened for writing, written to and closed: the results of the calls. -/
def session (fuel : Nat) (modificationTime : Int) (data : List Bytes) : Writing (List VfsResult) := do
  let opened ← writeGzipHeader modificationTime
  if opened ≠ .ok then return [opened]
  let results ← writeAll fuel data
  let closed ← doClose fuel
  return opened :: results ++ [closed]

/-- A handle behind `gzip_method_handle_init_for_deflate`, with whatever its buffer holds. -/
def WriteHandle.new (buffer : Bytes) : WriteHandle := ⟨buffer, 0, zBufsize, crc32 0 [], 0⟩

/-- The bytes that the parent has accepted, and those that `deflate` has produced. -/
structure WriteWorld where
  accepted : Bytes
  produced : Bytes
  deriving DecidableEq

def WriteWorld.accept (w : WriteWorld) (bytes : Bytes) : WriteWorld := { w with accepted := w.accepted ++ bytes }

def WriteWorld.produce (w : WriteWorld) (bytes : Bytes) : WriteWorld := { w with produced := w.produced ++ bytes }

/-- A write that succeeds accepts at least a byte; how many of those offered it may accept is `takes`. -/
def writeEnv (takes : Bytes → Nat → Prop) : WriteWorld → (r : WriteReq) → r.Resp → WriteWorld → Prop
  | w, .parentWrite bytes, (result, n), w' =>
    (result = .ok ∧ 1 ≤ n ∧ n ≤ bytes.length ∧ takes bytes n ∧ w' = w.accept (bytes.take n)) ∨ (result ≠ .ok ∧ w' = w)
  | w, .deflate input availOut _, decoded, w' =>
    decoded.consumed ≤ input.length ∧ decoded.output.length ≤ availOut ∧ w' = w.produce decoded.output
  | w, .parentClose, _, w' => w' = w

/-- Nothing is left over. -/
def wholeWrites (bytes : Bytes) (n : Nat) : Prop := n = bytes.length

def anyWrites (_ : Bytes) (_ : Nat) : Prop := True

/-- The file is complete: the header, what has been produced, and both sums. -/
def Complete (modificationTime : Int) (data : Bytes) (w : WriteWorld) : Prop :=
  w.accepted = headerBytes modificationTime ++ w.produced ++ littleEndian (crc32 0 data).toNat ++
    littleEndian (data.length % 2 ^ 32)

section Invariant

variable {time : Int} {crc : UInt32} {total : Nat} {h : WriteHandle} {w : WriteWorld} {bytes : Bytes}

/-- What has been produced lies in the buffer up to `next_out`, behind what has been accepted of it. -/
structure Going (time : Int) (crc : UInt32) (total : Nat) (h : WriteHandle) (w : WriteWorld) : Prop where
  length : h.buffer.length = zBufsize
  room : h.nextOut + h.availOut = zBufsize
  output : w.accepted ++ h.buffer.take h.nextOut = headerBytes time ++ w.produced
  crc : h.crc = crc
  total : h.totalIn = total

theorem Going.produce {decoded : Decoded ZResult} (going : Going time crc total h w)
    (output : decoded.output.length ≤ h.availOut) :
    Going time crc (total + decoded.consumed) (h.produce decoded) (w.produce decoded.output) := by
  have length := going.length
  have room := going.room
  have front : (h.buffer.take h.nextOut).length = h.nextOut := List.length_take_of_le (by omega)
  refine ⟨?_, ?_, ?_, going.crc, by rw [WriteHandle.produce, going.total]⟩
  · simp only [WriteHandle.produce, List.length_append, List.length_drop, front]
    omega
  · simp only [WriteHandle.produce]
    omega
  · have stored : (h.produce decoded).buffer.take (h.produce decoded).nextOut = h.buffer.take h.nextOut ++ decoded.output := by
      simp only [WriteHandle.produce]
      rw [← List.append_assoc]
      exact List.take_left' (by rw [List.length_append, front])
    rw [stored, ← List.append_assoc]
    exact (congrArg (· ++ decoded.output) going.output).trans (List.append_assoc ..)

theorem Going.emptied (going : Going time crc total h w) :
    Going time crc total { h with nextOut := 0, availOut := zBufsize } (w.accept (h.buffer.take h.nextOut)) := by
  refine ⟨going.length, Nat.zero_add _, ?_, going.crc, going.total⟩
  rw [List.take_zero, List.append_nil]
  exact going.output

theorem Going.accepted (going : Going time crc total h w) (empty : h.nextOut = 0) :
    w.accepted = headerBytes time ++ w.produced := by
  have output := going.output
  rwa [empty, List.take_zero, List.append_nil] at output

end Invariant

variable {Q : VfsResult × Nat → WriteHandle → WriteWorld → Prop} {fuel : Nat}

section Safe

open Interaction.Action

variable {H : Stop → WriteWorld → Prop} {h : WriteHandle} {w : WriteWorld} {time : Int} {crc : UInt32} {total : Nat}

/-- The writes of a run that meet the condition. -/
abbrev whole : WriteWorld → (r : WriteReq) → r.Resp → WriteWorld → Prop := writeEnv wholeWrites

theorem safe_ask {takes : Bytes → Nat → Prop} {r : WriteReq} {Q : r.Resp → WriteHandle → WriteWorld → Prop} :
    safe (writeEnv takes) (fun _ _ => True) (ask r) h Q H w ↔ ∀ a w', writeEnv takes w r a w' → Q a h w' :=
  ⟨fun holds => holds.2, fun holds => ⟨True.intro, holds⟩⟩

theorem safe_parentWrite {bytes : Bytes} (written : Q (.ok, bytes.length) h (w.accept bytes))
    (failed : ∀ result n, result ≠ .ok → Q (result, n) h w) :
    safe whole (fun _ _ => True) (parentWrite bytes) h Q H w := by
  rw [parentWrite, safe_ite]
  constructor
  · intro none_given
    rw [safe_pure]
    rw [none_given] at written
    simpa [WriteWorld.accept] using written
  · intro some_given
    rw [safe_ask]
    rintro ⟨result, n⟩ w' (⟨rfl, -, -, takes, rfl⟩ | ⟨other, rfl⟩)
    · rw [wholeWrites] at takes
      rw [takes, List.take_length]
      exact written
    · exact failed result n other

theorem safe_deflate {Q : ZResult × Bytes → WriteHandle → WriteWorld → Prop} {input : Bytes} {finish : Bool}
    (going : Going time crc total h w)
    (answered : ∀ zResult (consumed : Nat) h' w', consumed ≤ input.length → Going time crc (total + consumed) h' w' →
      Q (zResult, input.drop consumed) h' w'):
    safe whole (fun _ _ => True) (deflate input finish) h Q H w := by
  rw [deflate, safe_bind, safe_get, safe_bind, safe_ask]
  rintro decoded w' ⟨consumed, output, rfl⟩
  exact answered decoded.result decoded.consumed _ _ consumed (going.produce output)

theorem safe_emptyBuffer (going : Going time crc total h w) :
    safe whole (fun _ _ => True) emptyBuffer h
      (fun result h' w' => result = .ok → Going time crc total h' w') H w := by
  rw [emptyBuffer, safe_bind, safe_get, safe_ite]
  refine ⟨fun _ _ => going, fun full => ?_⟩
  have full : h.availOut = 0 := not_not.mp full
  have filled : h.nextOut = zBufsize := by
    have room := going.room
    omega
  have all : h.buffer.take zBufsize = h.buffer.take h.nextOut := by rw [filled]
  rw [safe_bind, safe_modify, safe_bind]
  apply safe_parentWrite
  · dsimp only
    rw [safe_ite]
    refine ⟨fun never => absurd rfl never, fun _ => ?_⟩
    rw [safe_bind, safe_modify, safe_pure]
    intro _
    have size : (h.buffer.take zBufsize).length = zBufsize := by rw [List.length_take, going.length, Nat.min_self]
    have emptied := going.emptied
    rw [← all] at emptied
    simp only [full, Nat.zero_add, size]
    exact emptied
  · intro result n other
    dsimp only
    rw [safe_ite]
    exact ⟨fun _ never => absurd never other, fun fine => absurd fine (not_not.mpr other)⟩

/-- A round of `do_write` goes on with the rest of the data, or ends with an error. -/
theorem safe_writeRound {input : Bytes} (going : Going time crc total h w) :
    safe whole (fun _ _ => True) (writeRound input) h (fun step h' w' => match step with
      | .again rest => ∃ consumed ≤ input.length, rest.length = input.length - consumed ∧
          Going time crc (total + consumed) h' w'
      | .finish (result, rest) => result = .ok → input = [] ∧ rest = [] ∧ Going time crc total h' w') H w := by
  rw [writeRound, safe_ite]
  refine ⟨fun done => fun _ => ⟨done, done, going⟩, fun some_left => ?_⟩
  rw [safe_bind]
  refine safe_mono (safe_emptyBuffer going) (fun result h' w' emptied => ?_) fun _ _ => id
  rw [safe_ite]
  refine ⟨fun failed => fun never => absurd never failed, fun fine => ?_⟩
  rw [safe_bind]
  refine safe_deflate (emptied (not_not.mp fine)) fun zResult consumed h'' w'' few gone => ?_
  dsimp only
  rw [safe_ite]
  exact ⟨fun failed => fun never => absurd never failed, fun _ => ⟨consumed, few, List.length_drop, gone⟩⟩

/-- A call that succeeds has passed all its data on. -/
theorem safe_doWrite {data : Bytes} (small : data.length < 2 ^ 32) (going : Going time crc total h w) :
    safe whole (fun _ _ => True) (doWrite fuel data) h (fun r h' w' =>
      r.1 = .ok → Going time (crc32 crc data) (total + data.length) h' w') (fun _ _ => True) w := by
  have input : data.take (data.length % 2 ^ 32) = data := by
    rw [Nat.mod_eq_of_lt small, List.take_length]
  rw [doWrite, input, safe_bind]
  refine safe_mono (Q := fun (r : VfsResult × Bytes) h' w' => r.1 = .ok → Going time crc (total + data.length) h' w')
    ?_ (fun r h' w' passed => ?_) fun _ _ => id
  · refine safe_loop (fun _ rest h' w' => ∃ count, count + rest.length = data.length ∧ Going time crc (total + count) h' w')
      ?_ (fun _ _ _ _ => True.intro) fuel data ⟨0, Nat.zero_add _, going⟩
    rintro fuel rest h' w' ⟨count, length, gone⟩
    refine safe_mono (safe_writeRound gone) ?_ fun _ _ => id
    rintro (rest' | ⟨result, rest'⟩) h'' w'' after
    · obtain ⟨consumed, few, left, after⟩ := after
      exact ⟨count + consumed, by omega, by rwa [← Nat.add_assoc]⟩
    · intro fine
      obtain ⟨rfl, -, after⟩ := after fine
      rw [List.length_nil, Nat.add_zero] at length
      rwa [length] at after
  · rw [safe_bind, safe_modify, safe_pure]
    intro fine
    obtain ⟨length, room, output, sum, counted⟩ := passed fine
    exact ⟨length, room, output, by rw [sum], counted⟩

/-- A round of `flush_write` empties the buffer; it ends with nothing in it, or with an error. -/
theorem safe_flushRound {x : ZResult × Bool} (going : Going time crc total h w) :
    safe whole (fun _ _ => True) (flushRound x) h (fun step h' w' => match step with
      | .again _ => Going time crc total h' w'
      | .finish (.inl result) => result ≠ .ok
      | .finish (.inr zResult) => resultFromZResult zResult = .ok → Going time crc total h' w' ∧ h'.nextOut = 0) H w := by
  have held : zBufsize - h.availOut = h.nextOut := by
    have room := going.room
    omega
  rw [flushRound, safe_bind, safe_get, held, safe_bind]
  apply safe_parentWrite
  · dsimp only
    rw [safe_ite]
    refine ⟨fun never => absurd rfl never, fun _ => ?_⟩
    rw [safe_bind, safe_modify, safe_ite]
    refine ⟨fun _ => fun _ => ⟨going.emptied, rfl⟩, fun _ => ?_⟩
    rw [safe_bind]
    refine safe_deflate going.emptied fun zResult consumed h' w' few gone => ?_
    have none_left : consumed = 0 := Nat.le_zero.mp few
    rw [none_left, Nat.add_zero] at gone
    dsimp only
    rw [safe_bind, safe_get, safe_ite]
    refine ⟨fun _ => gone, fun failed => ?_⟩
    rw [safe_pure]
    intro fine
    exact absurd fine (by cases zResult <;> simp_all [resultFromZResult])
  · intro result n other
    dsimp only
    rw [safe_ite]
    exact ⟨fun _ => other, fun fine => absurd fine (not_not.mpr other)⟩

theorem safe_writeGuint32 {value : Nat} {Q : VfsResult → WriteHandle → WriteWorld → Prop}
    (written : Q .ok h (w.accept (littleEndian value))) (failed : ∀ result, result ≠ .ok → Q result h w) :
    safe whole (fun _ _ => True) (writeGuint32 value) h Q H w := by
  rw [writeGuint32, safe_bind]
  exact safe_parentWrite written fun result _ other => failed result other

theorem safe_flushWrite (going : Going time crc total h w) :
    safe whole (fun _ _ => True) (flushWrite fuel) h (fun result _ w' => result = .ok →
      w'.accepted = headerBytes time ++ w'.produced ++ littleEndian crc.toNat ++ littleEndian total)
      (fun _ _ => True) w := by
  rw [flushWrite, safe_bind]
  refine safe_mono (safe_loop (fun _ _ h' w' => Going time crc total h' w')
    (fun _ _ _ _ gone => safe_mono (Q := fun step h' w' => match step with
      | .again _ => Going time crc total h' w'
      | .finish (.inl result) => result ≠ .ok
      | .finish (.inr zResult) => resultFromZResult zResult = .ok → Going time crc total h' w' ∧ h'.nextOut = 0)
      (safe_flushRound gone) ?_ fun _ _ => id)
    (fun _ _ _ _ => True.intro) fuel _ going) (Q := fun r h' w' => match r with
      | .inl result => result ≠ .ok
      | .inr zResult => resultFromZResult zResult = .ok → Going time crc total h' w' ∧ h'.nextOut = 0) ?_ fun _ _ => id
  · rintro (x | result | zResult) h' w' after
    · exact after
    · exact after
    · exact after
  · rintro (result | zResult) h' w' after
    · exact fun fine => absurd fine after
    · dsimp only
      rw [safe_bind, safe_get, safe_bind]
      refine safe_writeGuint32 ?_ fun result other => ?_
      · rw [safe_ite]
        refine ⟨fun never => absurd rfl never, fun _ => ?_⟩
        rw [safe_bind]
        refine safe_writeGuint32 ?_ fun result other => ?_
        · rw [safe_ite]
          refine ⟨fun never => absurd rfl never, fun _ => ?_⟩
          have complete (fine : resultFromZResult zResult = .ok) :
              ((w'.accept (littleEndian h'.crc.toNat)).accept (littleEndian h'.totalIn)).accepted =
                headerBytes time ++ ((w'.accept (littleEndian h'.crc.toNat)).accept (littleEndian h'.totalIn)).produced ++
                  littleEndian crc.toNat ++ littleEndian total := by
            obtain ⟨gone, empty⟩ := after fine
            simp only [WriteWorld.accept, gone.accepted empty, gone.crc, gone.total]
          rw [safe_ite]
          refine ⟨fun done _ => complete ?_, fun _ fine => complete fine⟩
          obtain rfl | rfl := done
          · rfl
          · rfl
        · rw [safe_ite]
          exact ⟨fun _ fine => absurd fine other, fun fine => absurd fine (not_not.mpr other)⟩
      · rw [safe_ite]
        exact ⟨fun _ fine => absurd fine other, fun fine => absurd fine (not_not.mpr other)⟩

theorem safe_writeAll : ∀ {data : List Bytes} {crc : UInt32} {total : Nat} {h : WriteHandle} {w : WriteWorld},
    (∀ d ∈ data, d.length < 2 ^ 32) → Going time crc total h w →
    safe whole (fun _ _ => True) (writeAll fuel data) h (fun results h' w' => (∀ r ∈ results, r = .ok) →
      Going time (crc32 crc data.flatten) (total + data.flatten.length) h' w') (fun _ _ => True) w := by
  intro data
  induction data with
  | nil =>
    intro crc total h w _ going
    rw [writeAll, safe_pure]
    intro _
    have same : crc32 crc [] = crc := UInt32.not_not
    rwa [List.flatten_nil, same]
  | cons d rest ih =>
    intro crc total h w small going
    rw [writeAll, safe_bind]
    refine safe_mono (safe_doWrite (small d List.mem_cons_self) going) (fun r h' w' written => ?_) fun _ _ => id
    dsimp only
    rw [safe_bind]
    by_cases fine : r.1 = .ok
    · refine safe_mono (ih (fun e member => small e (List.mem_cons_of_mem _ member)) (written fine))
        (fun results h'' w'' all => ?_) fun _ _ => id
      rw [safe_pure]
      intro each
      rw [List.flatten_cons, crc32_append, List.length_append, ← Nat.add_assoc]
      exact all fun r member => each r (List.mem_cons_of_mem _ member)
    · refine safe_mono (Q := fun _ _ _ => True) (safe_always (fun _ _ => True.intro) (fun _ _ _ => True.intro) fun _ _ => True.intro)
        (fun results h'' w'' _ => ?_) fun _ _ => id
      rw [safe_pure]
      exact fun each => absurd (each _ List.mem_cons_self) fine

theorem going_new {buffer : Bytes} (size : buffer.length = zBufsize) (time : Int) :
    Going time (crc32 0 []) 0 (.new buffer) (WriteWorld.accept ⟨[], []⟩ (headerBytes time)) := by
  refine ⟨size, Nat.zero_add _, ?_, rfl, rfl⟩
  rw [WriteHandle.new, List.take_zero]
  rfl

/-- In every run in which the parent takes each write as a whole and each call is given less than
4 GiB, the file is complete when all calls have succeeded. -/
theorem gzip_output_complete (fuel : Nat) (time : Int) {buffer : Bytes} (size : buffer.length = zBufsize)
    {data : List Bytes} (small : ∀ d ∈ data, d.length < 2 ^ 32) :
    safe (writeEnv wholeWrites) (fun _ _ => True) (session fuel time data) (.new buffer)
      (fun results _ w => (∀ r ∈ results, r = .ok) → Complete time data.flatten w) (fun _ _ => True) ⟨[], []⟩ := by
  rw [session, safe_bind, writeGzipHeader, safe_bind]
  apply safe_parentWrite
  · have ten : (headerBytes time).length = 10 := by simp [headerBytes, littleEndian]
    dsimp only
    rw [ten, safe_ite]
    refine ⟨fun never => absurd rfl never, fun _ => ?_⟩
    rw [safe_ite]
    refine ⟨fun never => absurd rfl never, fun _ => ?_⟩
    rw [safe_pure, safe_ite]
    refine ⟨fun never => absurd rfl never, fun _ => ?_⟩
    rw [safe_bind]
    refine safe_mono (safe_writeAll small (going_new size time)) (fun results h w written => ?_) fun _ _ => id
    rw [safe_bind, doClose, safe_bind]
    by_cases fine : ∀ r ∈ results, r = .ok
    · refine safe_mono (safe_flushWrite (written fine)) (fun result h' w' flushed => ?_) fun _ _ => id
      have empty : crc32 0 [] = 0 := UInt32.not_not
      rw [empty, Nat.zero_add] at flushed
      have sized (n : Nat) : littleEndian (n % 2 ^ 32) = littleEndian n := by rw [littleEndian, littleEndian, Nat.mod_mod]
      rw [safe_ite]
      constructor
      · intro done
        rw [safe_ask]
        rintro closed w'' rfl
        rw [safe_pure]
        intro _
        rw [Complete, sized]
        exact flushed done
      · intro failed
        rw [safe_pure, safe_pure]
        exact fun all => absurd (all result (by simp)) failed
    · refine safe_mono (Q := fun _ _ _ => True) (safe_always (fun _ _ => True.intro) (fun _ _ _ => True.intro) fun _ _ => True.intro)
        (fun result h' w' _ => ?_) fun _ _ => id
      refine safe_mono (Q := fun _ _ _ => True) (safe_always (fun _ _ => True.intro) (fun _ _ _ => True.intro) fun _ _ => True.intro)
        (fun closed h'' w'' _ => ?_) fun _ _ => id
      rw [safe_pure]
      exact fun all => absurd (fun r member => all r (by simp [member])) fine
  · intro result n other
    dsimp only
    rw [safe_ite]
    refine ⟨fun _ => ?_, fun fine => absurd fine (not_not.mpr other)⟩
    rw [safe_pure, safe_ite]
    refine ⟨fun _ => ?_, fun fine => absurd fine (not_not.mpr other)⟩
    rw [safe_pure]
    exact fun all => absurd (all result List.mem_cons_self) other

theorem gzip_output_complete_two :
    safe (writeEnv wholeWrites) (fun _ _ => True) (session 4 0 [ascii "ab", ascii "c"]) (.new (List.replicate 16384 0))
      (fun results _ w => (∀ r ∈ results, r = .ok) → Complete 0 (ascii "abc") w) (fun _ _ => True) ⟨[], []⟩ :=
  gzip_output_complete 4 0 List.length_replicate (by decide)

theorem accepts {bytes : Bytes} {n : Nat}
    (holds : safe (writeEnv anyWrites) (fun _ _ => True) (parentWrite bytes) h Q H w) (some_byte : 1 ≤ n)
    (few : n ≤ bytes.length) : Q (.ok, n) h (w.accept (bytes.take n)) := by
  rw [parentWrite, safe_ite] at holds
  have asked := holds.2 fun none_given => by
    rw [none_given, List.length_nil] at few
    omega
  rw [safe_ask] at asked
  exact asked (.ok, n) _ (Or.inl ⟨rfl, some_byte, few, True.intro, rfl⟩)

theorem accepts_nothing {bytes : Bytes}
    (holds : safe (writeEnv anyWrites) (fun _ _ => True) (parentWrite bytes) h Q H w) (empty : bytes = []) :
    Q (.ok, 0) h w := by
  rw [parentWrite, safe_ite] at holds
  exact holds.1 empty

/-- A parent that takes only the first byte of the check sum. -/
theorem check_sum_cut_short :
    ¬ safe (writeEnv anyWrites) (fun _ _ => True) (session 2 0 []) (.new (List.replicate 16384 0))
      (fun results _ w => (∀ r ∈ results, r = .ok) → Complete 0 [] w) (fun _ _ => True) ⟨[], []⟩ := by
  intro holds
  rw [session, safe_bind, writeGzipHeader, safe_bind] at holds
  have opened := accepts (n := 10) holds (by decide) (by decide)
  have opened := (safe_ite.mp opened).2 fun never => never rfl
  have opened := (safe_ite.mp opened).2 fun never => never rfl
  rw [safe_pure] at opened
  have opened := (safe_ite.mp opened).2 fun never => never rfl
  rw [safe_bind, writeAll, safe_pure, safe_bind, doClose, safe_bind, flushWrite, safe_bind, loop,
    safe_bind, flushRound, safe_bind, safe_get, safe_bind] at opened
  have flushed := accepts_nothing opened (by rw [WriteHandle.new, Nat.sub_self, List.take_zero])
  have flushed := (safe_ite.mp flushed).2 fun never => never rfl
  rw [safe_bind, safe_modify] at flushed
  have flushed := (safe_ite.mp flushed).2 (by decide)
  rw [safe_bind, deflate, safe_bind, safe_get, safe_bind, safe_ask] at flushed
  have deflated := flushed ⟨.streamEnd, 0, [3, 0]⟩ _ ⟨by decide, by decide, rfl⟩
  rw [safe_bind, safe_modify, safe_pure] at deflated
  rw [safe_bind, safe_get] at deflated
  have again := (safe_ite.mp deflated).1 (by decide)
  rw [safe_pure] at again
  dsimp only at again
  rw [loop, safe_bind, flushRound, safe_bind, safe_get, safe_bind] at again
  have emptied := accepts (n := 2) again (by decide) (by decide)
  have emptied := (safe_ite.mp emptied).2 fun never => never rfl
  rw [safe_bind, safe_modify] at emptied
  have emptied := (safe_ite.mp emptied).1 (by decide)
  rw [safe_pure] at emptied
  dsimp only at emptied
  rw [safe_pure] at emptied
  dsimp only at emptied
  rw [safe_bind, safe_get, safe_bind, writeGuint32, safe_bind] at emptied
  have summed := accepts (n := 1) emptied (by decide) (by decide)
  rw [safe_pure] at summed
  have summed := (safe_ite.mp summed).2 fun never => never rfl
  rw [safe_bind, writeGuint32, safe_bind] at summed
  have counted := accepts (n := 4) summed (by decide) (by decide)
  rw [safe_pure] at counted
  have counted := (safe_ite.mp counted).2 fun never => never rfl
  have finished := (safe_ite.mp counted).1 (by decide)
  rw [safe_pure] at finished
  have closing := (safe_ite.mp finished).1 rfl
  rw [safe_ask] at closing
  have complete := closing .ok _ rfl
  rw [safe_pure] at complete
  have complete := congrArg List.length (complete (by decide))
  exact absurd complete (by decide)

end Safe

end GnomeVfs.Gzip
