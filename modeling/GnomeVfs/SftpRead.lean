import Mathlib.Algebra.BigOperators.Group.List.Basic
import Mathlib.Algebra.Ring.Nat
import GnomeVfs.SftpFlight

/- Reading a file with several requests in flight: whatever the order of the replies and however
short they are, the buffer holds the file. -/
namespace GnomeVfs.Sftp

open Interaction Action Transition

section Window

/-- The part of a request that lies before `n`. -/
def Request.before (n : Nat) (req : Request) : Nat := min (req.start + req.reqLen) n - min req.start n

/-- How much is still to come, counted in bytes. -/
def ahead (n : Nat) (reqs : List Request) : Nat := (reqs.map (Request.before n)).sum

/-- What is left of the work: the bytes that have not been requested, and those requested. -/
def left (buffer : Bytes) (x : ReadState) (reqs : List Request) : Nat :=
  (buffer.length - x.curr) + (reqs.map Request.reqLen).sum

/-- How much of the buffer the file fills from an offset on. -/
def available (content : Bytes) (offset : Nat) (buffer : Bytes) : Nat :=
  min buffer.length (content.length - offset)

/-- Where `do_read` is: every byte of the file that has been requested has been read, or one of
the requests `reqs` that wait for an answer is for it. -/
structure Window (content : Bytes) (offset : Nat) (buffer : Bytes) (x : ReadState) (reqs : List Request) :
    Prop where
  size : x.buffer.length = buffer.length
  upper : x.numBytes ≤ buffer.length
  lower : available content offset buffer ≤ x.numBytes
  requested : x.curr ≤ buffer.length
  inside : ∀ req ∈ reqs, req.start + req.reqLen ≤ x.curr
  total : x.bytesRead + ahead (available content offset buffer) reqs =
    min x.curr (available content offset buffer)
  bytes : ∀ j < min x.curr (available content offset buffer),
    (∃ req ∈ reqs, req.start ≤ j ∧ j < req.start + req.reqLen) ∨ x.buffer[j]? = content[offset + j]?
  reached : available content offset buffer < x.curr → x.numBytes ≤ available content offset buffer ∨
    ∃ req ∈ reqs, req.start ≤ available content offset buffer ∧
      available content offset buffer < req.start + req.reqLen
  atEnd : x.gotEof = true → content.length ≤ offset
  first : content.length ≤ offset → 0 < x.curr → x.gotEof = true ∨ ∃ req ∈ reqs, req.start = 0
  begun : x.numBytes = buffer.length ∨ 0 < x.curr
  blocks : defaultReqLen ∣ x.curr ∨ x.numBytes ≤ x.curr

variable {content buffer : Bytes} {offset : Nat} {x : ReadState} {reqs rest : List Request} {req : Request}

theorem Window.perm (window : Window content offset buffer x reqs) (same : reqs.Perm rest) :
    Window content offset buffer x rest := by
  refine ⟨window.size, window.upper, window.lower, window.requested, ?_, ?_, ?_, ?_, window.atEnd, ?_,
    window.begun, window.blocks⟩
  · intro req member
    exact window.inside req (same.mem_iff.mpr member)
  · have sums : ahead (available content offset buffer) rest = ahead (available content offset buffer) reqs :=
      (same.map _).sum_eq.symm
    rw [sums]
    exact window.total
  · intro j small
    refine (window.bytes j small).imp_left ?_
    rintro ⟨req, member, covers⟩
    exact ⟨req, same.mem_iff.mp member, covers⟩
  · intro passed
    refine (window.reached passed).imp_right ?_
    rintro ⟨req, member, covers⟩
    exact ⟨req, same.mem_iff.mp member, covers⟩
  · intro empty some
    refine (window.first empty some).imp_right ?_
    rintro ⟨req, member, starts⟩
    exact ⟨req, same.mem_iff.mp member, starts⟩

theorem Window.queue (window : Window content offset buffer x reqs) (queue : RingQueue Request queueLen)
    (outstanding : Nat) : Window content offset buffer { x with queue, outstanding } reqs :=
  ⟨window.size, window.upper, window.lower, window.requested, window.inside, window.total, window.bytes,
    window.reached, window.atEnd, window.first, window.begun, window.blocks⟩

theorem left_perm (same : reqs.Perm rest) : left buffer x reqs = left buffer x rest := by
  rw [left, left, (same.map _).sum_eq]

theorem ahead_cons (n : Nat) (req : Request) (rest : List Request) :
    ahead n (req :: rest) = req.before n + ahead n rest := List.sum_cons

/-- Nothing is read before it has been requested. -/
theorem Window.start (content : Bytes) (offset : Nat) (buffer : Bytes) :
    Window content offset buffer (.start buffer) [] := by
  have none : (ReadState.start buffer).curr = 0 := rfl
  refine ⟨rfl, Nat.le_refl _, Nat.min_le_left _ _, Nat.zero_le _, by simp, ?_, ?_, ?_, ?_, ?_, Or.inl rfl, ?_⟩
  · simp [ahead, ReadState.start]
  · simp [none]
  · simp [none]
  · intro got
    cases got
  · simp [none]
  · simp [none]

/-- The next block is requested. -/
theorem Window.request (window : Window content offset buffer x reqs) (more : x.curr < x.numBytes) (id : Nat) :
    Window content offset buffer { x with curr := x.curr + min (x.numBytes - x.curr) defaultReqLen }
      (⟨id, min (x.numBytes - x.curr) defaultReqLen, x.curr⟩ :: reqs) := by
  have upper := window.upper
  have requested := window.requested
  have total := window.total
  have blockLen : 0 < defaultReqLen := by decide
  generalize taken : min (x.numBytes - x.curr) defaultReqLen = len
  have positive : 0 < len := by omega
  have fits : x.curr + len ≤ x.numBytes := by omega
  refine ⟨window.size, upper, window.lower, ?_, ?_, ?_, ?_, ?_, window.atEnd, ?_, ?_, ?_⟩
  · show x.curr + len ≤ buffer.length
    omega
  · intro req member
    rcases List.mem_cons.mp member with rfl | older
    · exact Nat.le_refl _
    · exact Nat.le_trans (window.inside req older) (Nat.le_add_right _ _)
  · rw [ahead_cons, Request.before]
    dsimp only
    omega
  · intro j small
    by_cases old : j < x.curr
    · have := window.bytes j (by omega)
      refine this.imp_left ?_
      rintro ⟨req, member, covers⟩
      exact ⟨req, List.mem_cons_of_mem _ member, covers⟩
    · left
      refine ⟨_, List.mem_cons_self, ?_, ?_⟩
      · show x.curr ≤ j
        omega
      · show j < x.curr + len
        have : j < min (x.curr + len) (available content offset buffer) := small
        omega
  · intro passed
    have passed : available content offset buffer < x.curr + len := passed
    by_cases old : available content offset buffer < x.curr
    · refine (window.reached old).imp_right ?_
      rintro ⟨req, member, covers⟩
      exact ⟨req, List.mem_cons_of_mem _ member, covers⟩
    · right
      exact ⟨_, List.mem_cons_self, by show x.curr ≤ _; omega, passed⟩
  · intro empty _
    by_cases some : 0 < x.curr
    · refine (window.first empty some).imp_right ?_
      rintro ⟨req, member, starts⟩
      exact ⟨req, List.mem_cons_of_mem _ member, starts⟩
    · right
      exact ⟨_, List.mem_cons_self, by show x.curr = 0; omega⟩
  · right
    show 0 < x.curr + len
    omega
  · have block := window.blocks.resolve_right (by omega)
    by_cases whole : len = defaultReqLen
    · left
      show defaultReqLen ∣ x.curr + len
      rw [whole]
      exact Nat.dvd_add block (Nat.dvd_refl _)
    · right
      show x.numBytes ≤ x.curr + len
      omega

theorem length_overwrite {start : Nat} {bytes : Bytes} (fits : start + bytes.length ≤ x.buffer.length) :
    (overwrite x.buffer start bytes).length = x.buffer.length := by
  rw [overwrite]
  simp only [List.length_append, List.length_take, List.length_drop]
  omega

theorem getElem?_overwrite {start : Nat} {bytes : Bytes} (fits : start + bytes.length ≤ x.buffer.length)
    (j : Nat) : (overwrite x.buffer start bytes)[j]? =
      if start ≤ j ∧ j < start + bytes.length then bytes[j - start]? else x.buffer[j]? := by
  have short : (x.buffer.take start).length = start := by
    rw [List.length_take]
    omega
  rw [overwrite, List.append_assoc]
  by_cases front : j < start
  · rw [List.getElem?_append_left (by omega), List.getElem?_take_of_lt front, if_neg (by omega)]
  · rw [List.getElem?_append_right (by omega), short]
    by_cases mine : j < start + bytes.length
    · rw [List.getElem?_append_left (by omega), if_pos ⟨by omega, mine⟩]
    · rw [List.getElem?_append_right (by omega), List.getElem?_drop, if_neg (by omega)]
      congr 1
      omega

/-- Some of the bytes of a request have come; the rest is requested again. -/
theorem Window.data (window : Window content offset buffer x (req :: rest)) {bytes : Bytes} (id : Nat)
    (some : 0 < bytes.length) (short : bytes.length ≤ req.reqLen)
    (honest : bytes <+: content.drop (offset + req.start)) :
    Window content offset buffer
      { x with buffer := overwrite x.buffer req.start bytes, bytesRead := x.bytesRead + bytes.length }
      (⟨id, req.reqLen - bytes.length, req.start + bytes.length⟩ :: rest) := by
  have requested := window.requested
  have size := window.size
  have inside := window.inside req List.mem_cons_self
  have total := window.total
  have enough : bytes.length ≤ content.length - (offset + req.start) := by
    rw [← List.length_drop]
    exact honest.length_le
  have fits : req.start + bytes.length ≤ available content offset buffer := by
    rw [available]
    omega
  have room : req.start + bytes.length ≤ x.buffer.length := by omega
  have same : ∀ j, req.start ≤ j → j < req.start + bytes.length → bytes[j - req.start]? = content[offset + j]? := by
    intro j from_ to_
    obtain ⟨tail, shape⟩ := honest
    have here : offset + j = offset + req.start + (j - req.start) := by omega
    rw [here, ← List.getElem?_drop, ← shape, List.getElem?_append_left (by omega)]
  refine ⟨?_, window.upper, window.lower, requested, ?_, ?_, ?_, ?_, window.atEnd, ?_, window.begun,
    window.blocks⟩
  · rw [length_overwrite room, size]
  · intro other member
    rcases List.mem_cons.mp member with rfl | older
    · show req.start + bytes.length + (req.reqLen - bytes.length) ≤ x.curr
      omega
    · exact window.inside other (List.mem_cons_of_mem _ older)
  · rw [ahead_cons, Request.before] at total ⊢
    dsimp only
    omega
  · intro j small
    show _ ∨ (overwrite x.buffer req.start bytes)[j]? = _
    rw [getElem?_overwrite room]
    by_cases mine : req.start ≤ j ∧ j < req.start + bytes.length
    · rw [if_pos mine]
      exact Or.inr (same j mine.1 mine.2)
    · rw [if_neg mine]
      refine (window.bytes j small).imp_left ?_
      rintro ⟨other, member, covers⟩
      rcases List.mem_cons.mp member with rfl | older
      · refine ⟨_, List.mem_cons_self, ?_, ?_⟩
        · show other.start + bytes.length ≤ j
          omega
        · show j < other.start + bytes.length + (other.reqLen - bytes.length)
          omega
      · exact ⟨other, List.mem_cons_of_mem _ older, covers⟩
  · intro passed
    refine (window.reached passed).imp_right ?_
    rintro ⟨other, member, covers⟩
    rcases List.mem_cons.mp member with rfl | older
    · refine ⟨_, List.mem_cons_self, fits, ?_⟩
      show _ < other.start + bytes.length + (other.reqLen - bytes.length)
      omega
    · exact ⟨other, List.mem_cons_of_mem _ older, covers⟩
  · intro empty _
    omega

/-- A request for which nothing is left is finished. -/
theorem Window.drop (window : Window content offset buffer x (req :: rest)) (done : req.reqLen = 0)
    (later : 0 < req.start) : Window content offset buffer x rest := by
  have total := window.total
  refine ⟨window.size, window.upper, window.lower, window.requested, ?_, ?_, ?_, ?_, window.atEnd, ?_,
    window.begun, window.blocks⟩
  · intro other member
    exact window.inside other (List.mem_cons_of_mem _ member)
  · rw [ahead_cons, Request.before] at total
    omega
  · intro j small
    refine (window.bytes j small).imp_left ?_
    rintro ⟨other, member, covers⟩
    rcases List.mem_cons.mp member with rfl | older
    · omega
    · exact ⟨other, older, covers⟩
  · intro passed
    refine (window.reached passed).imp_right ?_
    rintro ⟨other, member, covers⟩
    rcases List.mem_cons.mp member with rfl | older
    · omega
    · exact ⟨other, older, covers⟩
  · intro empty some
    refine (window.first empty some).imp_right ?_
    rintro ⟨other, member, starts⟩
    rcases List.mem_cons.mp member with rfl | older
    · omega
    · exact ⟨other, older, starts⟩

/-- A request behind the end of the file. -/
theorem Window.eof (window : Window content offset buffer x (req :: rest)) (positive : 0 < req.reqLen)
    (honest : content.length ≤ offset + req.start) :
    Window content offset buffer
      { x with gotEof := x.gotEof || req.start = 0, numBytes := min x.numBytes req.start } rest := by
  have upper := window.upper
  have lower := window.lower
  have requested := window.requested
  have inside := window.inside req List.mem_cons_self
  have total := window.total
  have behind : available content offset buffer ≤ req.start := by
    rw [available]
    omega
  refine ⟨window.size, ?_, ?_, requested, ?_, ?_, ?_, ?_, ?_, ?_, ?_, ?_⟩
  · show min x.numBytes req.start ≤ buffer.length
    omega
  · show _ ≤ min x.numBytes req.start
    omega
  · intro other member
    exact window.inside other (List.mem_cons_of_mem _ member)
  · rw [ahead_cons, Request.before] at total
    dsimp only
    omega
  · intro j small
    have small : j < min x.curr (available content offset buffer) := small
    refine (window.bytes j small).imp_left ?_
    rintro ⟨other, member, covers⟩
    rcases List.mem_cons.mp member with rfl | older
    · omega
    · exact ⟨other, older, covers⟩
  · intro passed
    rcases window.reached passed with before | ⟨other, member, covers⟩
    · left
      show min x.numBytes req.start ≤ _
      omega
    · rcases List.mem_cons.mp member with rfl | older
      · left
        show min x.numBytes other.start ≤ _
        omega
      · exact Or.inr ⟨other, older, covers⟩
  · intro got
    have got : x.gotEof = true ∨ req.start = 0 := by simpa using got
    rcases got with before | here
    · exact window.atEnd before
    · omega
  · intro empty some
    show (x.gotEof || decide (req.start = 0)) = true ∨ _
    rcases window.first empty some with before | ⟨other, member, starts⟩
    · simp [before]
    · rcases List.mem_cons.mp member with rfl | older
      · simp [starts]
      · exact Or.inr ⟨other, older, starts⟩
  · right
    show 0 < x.curr
    omega
  · refine window.blocks.imp_right ?_
    intro all
    show min x.numBytes req.start ≤ x.curr
    omega

/-- With nothing in flight and everything requested, everything is read. -/
theorem Window.complete (window : Window content offset buffer x []) (all : x.numBytes ≤ x.curr) :
    x.numBytes ≤ x.bytesRead := by
  have total := window.total
  have none : ahead (available content offset buffer) [] = 0 := rfl
  by_cases passed : available content offset buffer < x.curr
  · rcases window.reached passed with before | ⟨_, member, _⟩
    · omega
    · cases member
  · omega

theorem Window.finished (window : Window content offset buffer x []) (atEnd : x.numBytes ≤ x.bytesRead) :
    x.bytesRead = available content offset buffer ∧
      x.buffer.take x.bytesRead = (content.drop offset).take x.bytesRead := by
  have total := window.total
  have lower := window.lower
  have none : ahead (available content offset buffer) [] = 0 := rfl
  have count : x.bytesRead = available content offset buffer := by omega
  refine ⟨count, ?_⟩
  apply List.ext_getElem?
  intro j
  rw [List.getElem?_take, List.getElem?_take]
  split
  · rename_i small
    rw [List.getElem?_drop]
    rcases window.bytes j (by omega) with ⟨_, member, _⟩ | same
    · cases member
    · exact same
  · rfl

theorem Window.gotEof_iff (window : Window content offset buffer x []) (atEnd : x.numBytes ≤ x.bytesRead)
    (some : 0 < buffer.length) : x.gotEof = true ↔ content.length ≤ offset := by
  constructor
  · exact window.atEnd
  · intro empty
    have count := (window.finished atEnd).1
    have nothing : available content offset buffer = 0 := by
      rw [available]
      omega
    have started : 0 < x.curr := by
      rcases window.begun with all | started
      · omega
      · exact started
    rcases window.first empty started with got | ⟨_, member, _⟩
    · exact got
    · cases member

end Window

section Reading

/-- What an honest server says about a file: bytes of the file, as long as there are any at the
offset, and the end of the file from there on. -/
def HonestRead (content : Bytes) : Query → Answer → Prop
  | .read _ offset len, .data bytes =>
    0 < bytes.length ∧ bytes.length ≤ len ∧ bytes <+: content.drop offset
  | .read _ offset _, .status code => code = fxEof ∧ content.length ≤ offset
  | _, _ => False

theorem honestRead_exists (content handle : Bytes) (offset : Nat) {len : Nat} (positive : 0 < len) :
    ∃ answer, HonestRead content (.read handle offset len) answer := by
  by_cases behind : content.length ≤ offset
  · exact ⟨.status fxEof, rfl, behind⟩
  · refine ⟨.data ((content.drop offset).take 1), ?_, ?_, List.take_prefix _ _⟩
    · rw [List.length_take, List.length_drop]
      omega
    · rw [List.length_take]
      omega

/-- The packet of a request. -/
def readQuery (h : OpenHandle) (req : Request) : Query :=
  .read h.sftpHandle ((h.offset + req.start) % 2 ^ 64) req.reqLen

/-- No request for a block of the buffer has an offset of more than 64 bits, and the file does not
end behind such an offset. -/
def NoWrap (content : Bytes) (offset : Nat) (buffer : Bytes) : Prop :=
  content.length < 2 ^ 64 ∧ ∀ start, defaultReqLen ∣ start → start < buffer.length → offset + start < 2 ^ 64

/-- The invariant of `do_read`. -/
structure Reading (content buffer : Bytes) (me : Nat) (h : OpenHandle) (k : Connection) (x : ReadState) :
    Prop where
  flight : Flight me (readQuery h) k x.queue
  count : x.outstanding = (live x.queue).length
  popped : Popped x.queue
  window : Window content h.offset buffer x (live x.queue)
  positive : ∀ req ∈ live x.queue, 0 < req.reqLen
  direct : ∀ req ∈ live x.queue, h.offset + req.start < 2 ^ 64

variable {content buffer : Bytes} {me : Nat} {h : OpenHandle} {k : Connection} {x y : ReadState}
  {H : Stop → Connection → Prop}

theorem Reading.start (empty : k.inflight = []) (bound : k.msgId < 2 ^ 32) :
    Reading content buffer me h k (.start buffer) := by
  refine ⟨.new empty bound, rfl, .new, Window.start content h.offset buffer, ?_, ?_⟩
  · intro req member
    cases member
  · intro req member
    cases member

theorem Reading.length_le (reading : Reading content buffer me h k x) : k.inflight.length ≤ maxReq := by
  rw [reading.flight.length]
  exact length_live_le x.queue

/-- A block more is requested. -/
def ReadState.requested (x : ReadState) (id : Nat) : ReadState :=
  { x with
    queue := x.queue.push ⟨id, min (x.numBytes - x.curr) defaultReqLen, x.curr⟩
    outstanding := x.outstanding + 1
    curr := x.curr + min (x.numBytes - x.curr) defaultReqLen }

theorem Reading.requested (reading : Reading content buffer me h k x) (noWrap : NoWrap content h.offset buffer)
    (more : x.curr < x.numBytes) (free : x.queue.isFull = false) (numbered : k.msgId ≠ 0) :
    Reading content buffer me h
        (k.sending me ⟨k.msgId, readQuery h ⟨k.msgId, min (x.numBytes - x.curr) defaultReqLen, x.curr⟩⟩)
        (x.requested k.msgId) ∧
      left buffer (x.requested k.msgId) (live (x.requested k.msgId).queue) = left buffer x (live x.queue) := by
  have pushed : live (x.queue.push ⟨k.msgId, min (x.numBytes - x.curr) defaultReqLen, x.curr⟩) =
      live x.queue ++ [⟨k.msgId, min (x.numBytes - x.curr) defaultReqLen, x.curr⟩] := live_push free numbered
  have one := List.perm_append_singleton
    (⟨k.msgId, min (x.numBytes - x.curr) defaultReqLen, x.curr⟩ : Request) (live x.queue)
  have upper := reading.window.upper
  have blockLen : 0 < defaultReqLen := by decide
  refine ⟨⟨?_, ?_, ?_, ?_, ?_, ?_⟩, ?_⟩
  · exact reading.flight.send numbered rfl (pushed ▸ one)
  · show x.outstanding + 1 = (live (x.queue.push _)).length
    rw [pushed, List.length_append, reading.count, List.length_singleton]
  · exact reading.popped.push free numbered
  · show Window content h.offset buffer (x.requested k.msgId) (live (x.queue.push _))
    rw [pushed]
    exact ((reading.window.request more k.msgId).perm one.symm).queue _ _
  · intro req member
    have member : req ∈ live (x.queue.push ⟨k.msgId, min (x.numBytes - x.curr) defaultReqLen, x.curr⟩) := member
    rw [pushed] at member
    rcases List.mem_append.mp member with old | new
    · exact reading.positive req old
    · rw [List.mem_singleton.mp new]
      show 0 < min (x.numBytes - x.curr) defaultReqLen
      omega
  · intro req member
    have member : req ∈ live (x.queue.push ⟨k.msgId, min (x.numBytes - x.curr) defaultReqLen, x.curr⟩) := member
    rw [pushed] at member
    rcases List.mem_append.mp member with old | new
    · exact reading.direct req old
    · rw [List.mem_singleton.mp new]
      exact noWrap.2 x.curr (reading.window.blocks.resolve_right (by omega)) (by omega)
  · show left buffer (x.requested k.msgId) (live (x.queue.push _)) = _
    rw [pushed, left_perm one, left, left, List.map_cons, List.sum_cons]
    show (buffer.length - (x.curr + min (x.numBytes - x.curr) defaultReqLen)) + _ = _
    dsimp only
    omega

theorem sendReadRequest_safe {ids : Nat → Prop} {honest : Query → Answer → Prop} {id start len : Nat}
    {Q : Unit → OpenHandle → Connection → Prop} (short : k.inflight.length ≤ maxReq)
    (next : Q () h { k with inflight := k.inflight ++ [(me, ⟨id, readQuery h ⟨id, len, start⟩⟩)] }) :
    safe (chosen (Connection.answer me) (Serving ids honest)) (Bounded honest) (sendReadRequest id start len) h
      Q H k := by
  rw [sendReadRequest, safe_bind, safe_get]
  exact safe_send short next

/-- The inner loop of `do_read`. -/
theorem requestRead_safe {Q : Step ReadState ReadState → OpenHandle → Connection → Prop}
    (short : k.inflight.length ≤ maxReq)
    (again : x.curr < x.numBytes → x.queue.isFull = false → k.msgId ≠ 0 →
      Q (.again (x.requested k.msgId)) h
        (k.sending me ⟨k.msgId, readQuery h ⟨k.msgId, min (x.numBytes - x.curr) defaultReqLen, x.curr⟩⟩))
    (finish : x.numBytes ≤ x.curr ∨ x.queue.isFull = true → Q (.finish x) h k) :
    safe (chosen (Connection.answer me) (Serving (· ≠ 0) (HonestRead content))) (Bounded (HonestRead content))
      (requestRead x) h Q H k := by
  rw [requestRead]
  by_cases more : x.curr < x.numBytes ∧ x.queue.isFull = false
  · rw [if_pos more]
    apply safe_bind.mpr
    apply safe_getId short
    intro numbered
    apply safe_bind.mpr
    refine sendReadRequest_safe ?_ ?_
    · exact short
    · exact again more.1 more.2 numbered
  · rw [if_neg more]
    apply finish
    by_cases full : x.queue.isFull = true
    · exact Or.inr full
    · left
      have free : x.queue.isFull = false := by simpa using full
      by_contra few
      exact more ⟨by omega, free⟩

/-- What the inner loop leaves as it was. -/
structure Refilled (buffer : Bytes) (x y : ReadState) : Prop where
  bytesRead : y.bytesRead = x.bytesRead
  numBytes : y.numBytes = x.numBytes
  outstanding : x.outstanding ≤ y.outstanding
  left : left buffer y (live y.queue) = left buffer x (live x.queue)

theorem requestReads_safe (noWrap : NoWrap content h.offset buffer) (reading : Reading content buffer me h k x)
    {Q : ReadState → OpenHandle → Connection → Prop}
    (next : ∀ y k', Reading content buffer me h k' y → Refilled buffer x y →
      y.numBytes ≤ y.curr ∨ y.queue.isFull = true → Q y h k') :
    safe (chosen (Connection.answer me) (Serving (· ≠ 0) (HonestRead content))) (Bounded (HonestRead content))
      (loop .outOfFuel requestRead queueLen x) h Q H k := by
  apply safe_loop (fun fuel y h' k' => h' = h ∧ queueLen ≤ fuel + y.queue.items.length ∧
    Reading content buffer me h k' y ∧ Refilled buffer x y)
  · rintro fuel y h' k' ⟨rfl, room, inv, same⟩
    apply requestRead_safe inv.length_le
    · intro more free numbered
      obtain ⟨reading, kept⟩ := inv.requested noWrap more free numbered
      refine ⟨rfl, ?_, reading, same.bytesRead, same.numBytes, ?_, kept.trans same.left⟩
      · show queueLen ≤ fuel + (y.queue.push _).items.length
        rw [RingQueue.items_push y.queue _ free, List.length_append, List.length_singleton]
        omega
      · exact Nat.le_succ_of_le same.outstanding
    · intro atEnd
      exact next y k' inv same atEnd
  · rintro y h' k' ⟨-, room, -, -⟩
    have := RingQueue.length_items_lt y.queue
    omega
  · exact ⟨rfl, by omega, reading, rfl, rfl, Nat.le_refl _, rfl⟩

/-- What is known when a reply has been written into the queue. -/
theorem Reading.answered {i : Fin queueLen} {new : Request}
    (flight : Flight me (readQuery h) k (x.queue.set i new))
    (count : x.outstanding = (live (x.queue.set i new)).length)
    (window : Window content h.offset buffer x (live (x.queue.set i new)))
    (positive : ∀ req ∈ live (x.queue.set i new), 0 < req.reqLen)
    (direct : ∀ req ∈ live (x.queue.set i new), h.offset + req.start < 2 ^ 64) :
    Reading content buffer me h k (x.answered i new) := by
  have same : live (x.answered i new).queue = live (x.queue.set i new) := live_popWhile _
  refine ⟨flight.popWhile, ?_, .popWhile _, ?_, ?_, ?_⟩
  · rw [same]
    exact count
  · rw [same]
    exact window.queue _ _
  · rw [same]
    exact positive
  · rw [same]
    exact direct

variable {i : Fin queueLen} {place : Nat}

/-- The request behind the end of the file is finished. -/
theorem Reading.eof (reading : Reading content buffer me h k x) (holds : x.queue.Holds i)
    (waits : (x.queue.slots i).id ≠ 0)
    (answered : k.inflight[place]? = some (me, ⟨(x.queue.slots i).id, readQuery h (x.queue.slots i)⟩))
    (behind : content.length ≤ h.offset + (x.queue.slots i).start) :
    Reading content buffer me h (k.received place) (receiveEof { x with outstanding := x.outstanding - 1 } i) ∧
      left buffer (receiveEof { x with outstanding := x.outstanding - 1 } i)
        (live (receiveEof { x with outstanding := x.outstanding - 1 } i).queue) < left buffer x (live x.queue) := by
  obtain ⟨rest, before, finished, -⟩ := live_set holds waits
  have after := finished { x.queue.slots i with id := 0 } rfl
  have less := before.trans (after.symm.cons _)
  have positive := reading.positive _ (before.mem_iff.mpr List.mem_cons_self)
  have kept : ∀ req ∈ live (x.queue.set i { x.queue.slots i with id := 0 }), req ∈ live x.queue := by
    intro req member
    exact less.mem_iff.mpr (List.mem_cons_of_mem _ member)
  constructor
  · apply Reading.answered (x := { x with
      outstanding := x.outstanding - 1
      gotEof := x.gotEof || (x.queue.slots i).start = 0
      numBytes := min x.numBytes (x.queue.slots i).start }) (reading.flight.finish answered less)
    · show x.outstanding - 1 = (live (x.queue.set i { x.queue.slots i with id := 0 })).length
      rw [reading.count, less.length_eq, List.length_cons]
      omega
    · exact ((reading.window.perm less).eof positive behind).queue _ _
    · intro req member
      exact reading.positive req (kept req member)
    · intro req member
      exact reading.direct req (kept req member)
  · have same : live (receiveEof { x with outstanding := x.outstanding - 1 } i).queue =
        live (x.queue.set i { x.queue.slots i with id := 0 }) := live_popWhile _
    rw [same, left_perm less, left, left, List.map_cons, List.sum_cons]
    show (buffer.length - x.curr) + _ < _
    omega

/-- A request for which some bytes have come. -/
def Request.rest (req : Request) (id len : Nat) : Request := ⟨id, req.reqLen - len, req.start + len⟩

/-- The state behind some bytes of a file. -/
def ReadState.stored (x : ReadState) (i : Fin queueLen) (bytes : Bytes) (outstanding : Nat) : ReadState :=
  { x with
    buffer := overwrite x.buffer (x.queue.slots i).start bytes
    bytesRead := x.bytesRead + bytes.length
    outstanding }

/-- All the bytes of a request have come. -/
theorem Reading.whole (reading : Reading content buffer me h k x) (holds : x.queue.Holds i)
    (waits : (x.queue.slots i).id ≠ 0)
    (answered : k.inflight[place]? = some (me, ⟨(x.queue.slots i).id, readQuery h (x.queue.slots i)⟩))
    {bytes : Bytes} (all : bytes.length = (x.queue.slots i).reqLen)
    (honest : bytes <+: content.drop (h.offset + (x.queue.slots i).start)) :
    Reading content buffer me h (k.received place)
        ((x.stored i bytes (x.outstanding - 1)).answered i { x.queue.slots i with id := 0 }) ∧
      left buffer ((x.stored i bytes (x.outstanding - 1)).answered i { x.queue.slots i with id := 0 })
        (live ((x.stored i bytes (x.outstanding - 1)).answered i { x.queue.slots i with id := 0 }).queue) <
          left buffer x (live x.queue) := by
  obtain ⟨rest, before, finished, -⟩ := live_set holds waits
  have after := finished { x.queue.slots i with id := 0 } rfl
  have less := before.trans (after.symm.cons _)
  have positive := reading.positive _ (before.mem_iff.mpr List.mem_cons_self)
  have kept : ∀ req ∈ live (x.queue.set i { x.queue.slots i with id := 0 }), req ∈ live x.queue := by
    intro req member
    exact less.mem_iff.mpr (List.mem_cons_of_mem _ member)
  constructor
  · apply Reading.answered (x := x.stored i bytes (x.outstanding - 1)) (reading.flight.finish answered less)
    · show x.outstanding - 1 = (live (x.queue.set i { x.queue.slots i with id := 0 })).length
      rw [reading.count, less.length_eq, List.length_cons]
      omega
    · have stored := (reading.window.perm less).data 0 (by omega) (by omega) honest
      exact (stored.drop (by show _ - _ = 0; omega) (by show 0 < _ + _; omega)).queue _ _
    · intro req member
      exact reading.positive req (kept req member)
    · intro req member
      exact reading.direct req (kept req member)
  · have same : live ((x.stored i bytes (x.outstanding - 1)).answered i { x.queue.slots i with id := 0 }).queue =
        live (x.queue.set i { x.queue.slots i with id := 0 }) := live_popWhile _
    rw [same, left_perm less, left, left, List.map_cons, List.sum_cons]
    show (buffer.length - x.curr) + _ < _
    omega

/-- Some of the bytes of a request have come, and the others are requested under a new id. -/
theorem Reading.partly (reading : Reading content buffer me h k x) (noWrap : NoWrap content h.offset buffer)
    (holds : x.queue.Holds i) (waits : (x.queue.slots i).id ≠ 0)
    (answered : k.inflight[place]? = some (me, ⟨(x.queue.slots i).id, readQuery h (x.queue.slots i)⟩))
    {bytes : Bytes} (some : 0 < bytes.length) (short : bytes.length < (x.queue.slots i).reqLen)
    (honest : bytes <+: content.drop (h.offset + (x.queue.slots i).start)) (numbered : k.msgId ≠ 0) :
    Reading content buffer me h
        ((k.received place).sending me ⟨k.msgId, readQuery h ((x.queue.slots i).rest k.msgId bytes.length)⟩)
        ((x.stored i bytes (x.outstanding - 1 + 1)).answered i ((x.queue.slots i).rest k.msgId bytes.length)) ∧
      left buffer
          ((x.stored i bytes (x.outstanding - 1 + 1)).answered i ((x.queue.slots i).rest k.msgId bytes.length))
          (live ((x.stored i bytes (x.outstanding - 1 + 1)).answered i
            ((x.queue.slots i).rest k.msgId bytes.length)).queue) < left buffer x (live x.queue) := by
  obtain ⟨rest, before, finished, again⟩ := live_set holds waits
  have gone := finished { x.queue.slots i with id := 0 } rfl
  have after := again ((x.queue.slots i).rest k.msgId bytes.length) numbered
  have less := before.trans (gone.symm.cons _)
  have more := after.trans (gone.symm.cons _)
  have enough : bytes.length ≤ content.length - (h.offset + (x.queue.slots i).start) := by
    rw [← List.length_drop]
    exact honest.length_le
  have kept : ∀ req ∈ rest, req ∈ live x.queue := by
    intro req member
    exact before.mem_iff.mpr (List.mem_cons_of_mem _ member)
  constructor
  · apply Reading.answered (x := x.stored i bytes (x.outstanding - 1 + 1))
      ((reading.flight.finish answered less).send numbered rfl more)
    · show x.outstanding - 1 + 1 = (live (x.queue.set i _)).length
      rw [reading.count, before.length_eq, after.length_eq, List.length_cons, List.length_cons]
      omega
    · exact (((reading.window.perm before).data k.msgId some (by omega) honest).perm after.symm).queue _ _
    · intro req member
      rcases List.mem_cons.mp (after.mem_iff.mp member) with rfl | older
      · show 0 < _ - _
        omega
      · exact reading.positive req (kept req older)
    · intro req member
      rcases List.mem_cons.mp (after.mem_iff.mp member) with rfl | older
      · have := noWrap.1
        show h.offset + (_ + _) < _
        omega
      · exact reading.direct req (kept req older)
  · have same : live ((x.stored i bytes (x.outstanding - 1 + 1)).answered i
        ((x.queue.slots i).rest k.msgId bytes.length)).queue =
          live (x.queue.set i ((x.queue.slots i).rest k.msgId bytes.length)) := live_popWhile _
    rw [same, left_perm after, left_perm before, left, left, List.map_cons, List.sum_cons, List.map_cons,
      List.sum_cons]
    show (buffer.length - x.curr) + ((_ - _) + _) < _
    omega

/-- The reply to a request of the queue. -/
theorem receiveRead_safe (noWrap : NoWrap content h.offset buffer) (reading : Reading content buffer me h k x)
    {place : Nat} {sent : Nat × Packet} {answer : Answer} (answered : k.inflight[place]? = some sent)
    (honest : HonestRead content sent.2.query answer)
    {Q : Step ReadState ReadResult → OpenHandle → Connection → Prop}
    (next : ∀ y k', Reading content buffer me h k' y →
      left buffer y (live y.queue) < left buffer x (live x.queue) → Q (.again y) h k') :
    safe (chosen (Connection.answer me) (Serving (· ≠ 0) (HonestRead content))) (Bounded (HonestRead content))
      (receiveRead { x with outstanding := x.outstanding - 1 } ⟨sent.2.id, answer⟩) h Q H (k.received place) := by
  obtain ⟨i, found, holds, waits, member, rfl⟩ := reading.flight.found answered
  have offset : (h.offset + (x.queue.slots i).start) % 2 ^ 64 = h.offset + (x.queue.slots i).start :=
    Nat.mod_eq_of_lt (reading.direct _ member)
  have short : (k.received place).inflight.length ≤ maxReq :=
    Nat.le_trans (List.length_eraseIdx_le _ _) reading.length_le
  rw [receiveRead]
  dsimp only at found ⊢
  rw [found]
  cases answer with
  | status code =>
    obtain ⟨rfl, behind⟩ := honest
    rw [offset] at behind
    obtain ⟨after, less⟩ := reading.eof holds waits answered behind
    exact next _ _ after less
  | data bytes =>
    obtain ⟨some, few, bytesOf⟩ := honest
    rw [offset] at bytesOf
    have inside := reading.window.inside _ member
    have requested := reading.window.requested
    have size := reading.window.size
    dsimp only
    rw [receiveData, if_neg (by dsimp only; omega)]
    by_cases part : bytes.length < (x.queue.slots i).reqLen
    · rw [if_pos part]
      apply safe_bind.mpr
      apply safe_getId short
      intro numbered
      apply safe_bind.mpr
      refine sendReadRequest_safe ?_ ?_
      · exact short
      · obtain ⟨after, less⟩ := reading.partly noWrap holds waits answered some part bytesOf numbered
        exact next _ _ after less
    · rw [if_neg part]
      obtain ⟨after, less⟩ := reading.whole holds waits answered (by omega) bytesOf
      exact next _ _ after less
  | handle bytes => exact honest.elim
  | name entries => exact honest.elim
  | attrs attrs => exact honest.elim
  | other word => exact honest.elim

theorem Reading.receives (reading : Reading content buffer me h k x)
    (atEnd : x.numBytes ≤ x.curr ∨ x.queue.isFull = true) (goes : x.bytesRead < x.numBytes ∨ 0 < x.outstanding) :
    Bounded (HonestRead content) k .recv := by
  refine ⟨reading.length_le, ?_⟩
  have some : live x.queue ≠ [] := by
    intro none
    have window := reading.window
    have count := reading.count
    rw [none] at window count
    have complete := window.complete (atEnd.resolve_right (reading.popped.not_full none))
    rw [List.length_nil] at count
    omega
  obtain ⟨i, member, answered⟩ := reading.flight.exists_sent some
  obtain ⟨answer, honest⟩ := honestRead_exists content h.sftpHandle
    ((h.offset + (x.queue.slots i).start) % 2 ^ 64) (reading.positive _ member)
  exact ⟨0, answer, _, answered, honest⟩

/-- What `do_read` is for: the buffer holds the file from the offset on, as far as both go. -/
structure ReadDone (content buffer : Bytes) (h : OpenHandle) (r : ReadResult) (h' : OpenHandle) : Prop where
  bytesRead : r.bytesRead = min buffer.length (content.length - h.offset)
  filled : r.buffer.take r.bytesRead = (content.drop h.offset).take r.bytesRead
  size : r.buffer.length = buffer.length
  offset : h' = { h with offset := h.offset + r.bytesRead }
  result : r.result = if content.length ≤ h.offset then .eof else .ok

theorem Reading.done (reading : Reading content buffer me h k x) (noWrap : NoWrap content h.offset buffer)
    (some : 0 < buffer.length) (atEnd : ¬ (x.bytesRead < x.numBytes ∨ x.outstanding > 0)) :
    ReadDone content buffer h ⟨if x.gotEof then .eof else .ok, x.bytesRead, x.buffer⟩
      { h with offset := (h.offset + x.bytesRead) % 2 ^ 64 } := by
  have count := reading.count
  have none : live x.queue = [] := List.length_eq_zero_iff.mp (by omega)
  have window := reading.window
  rw [none] at window
  have complete : x.numBytes ≤ x.bytesRead := by omega
  obtain ⟨amount, same⟩ := window.finished complete
  have small : h.offset + x.bytesRead < 2 ^ 64 := by
    have := noWrap.1
    have := noWrap.2 0 (Nat.dvd_zero _) some
    rw [amount, available]
    omega
  refine ⟨amount, same, window.size, ?_, ?_⟩
  · dsimp only
    rw [Nat.mod_eq_of_lt small]
  · by_cases empty : content.length ≤ h.offset
    · simp [(window.gotEof_iff complete some).mpr empty, empty]
    · have not : x.gotEof = false := by
        by_contra got
        exact empty ((window.gotEof_iff complete some).mp (by simpa using got))
      simp [not, empty]

theorem readRound_safe (noWrap : NoWrap content h.offset buffer) (some : 0 < buffer.length)
    (reading : Reading content buffer me h k x)
    {Q : Step ReadState ReadResult → OpenHandle → Connection → Prop}
    (next : ∀ y k', Reading content buffer me h k' y →
      left buffer y (live y.queue) < left buffer x (live x.queue) → Q (.again y) h k')
    (last : ∀ r h' k', ReadDone content buffer h r h' → k'.inflight.length ≤ maxReq → Q (.finish r) h' k') :
    safe (chosen (Connection.answer me) (Serving (· ≠ 0) (HonestRead content))) (Bounded (HonestRead content))
      (readRound x) h Q H k := by
  rw [readRound]
  by_cases goes : x.bytesRead < x.numBytes ∨ x.outstanding > 0
  · rw [if_pos goes]
    apply safe_bind.mpr
    apply requestReads_safe noWrap reading
    intro y k' filled same atEnd
    apply safe_bind.mpr
    have goes : y.bytesRead < y.numBytes ∨ 0 < y.outstanding := by
      have := same.outstanding
      rw [same.bytesRead, same.numBytes]
      omega
    apply safe_recv (filled.receives atEnd goes)
    intro place sent answer answered honest
    apply receiveRead_safe noWrap filled answered honest
    intro z k'' after less
    exact next z k'' after (same.left ▸ less)
  · rw [if_neg goes]
    apply safe_bind.mpr
    rw [safe_modify, safe_bind]
    apply safe_unlock reading.length_le
    exact last _ _ _ (reading.done noWrap some goes) reading.length_le

theorem doRead_safe (me : Nat) {fuel : Nat} (noWrap : NoWrap content h.offset buffer) (some : 0 < buffer.length)
    (enough : buffer.length < fuel) (free : k.holder = none) (quiet : k.inflight = []) (bound : k.msgId < 2 ^ 32) :
    safe (chosen (Connection.answer me) (Serving (· ≠ 0) (HonestRead content))) (Bounded (HonestRead content))
      (doRead fuel buffer) h (fun r h' k' => ReadDone content buffer h r h' ∧ k'.inflight.length ≤ maxReq)
      (fun _ _ => False) k := by
  have nothing : k.inflight.length ≤ maxReq := by
    rw [quiet]
    decide
  rw [doRead]
  apply safe_bind.mpr
  apply safe_lock ⟨nothing, free⟩
  intro _
  apply safe_loop (fun fuel y h' k' => h' = h ∧ Reading content buffer me h k' y ∧
    left buffer y (live y.queue) < fuel)
  · rintro fuel y h' k' ⟨rfl, reading, room⟩
    apply readRound_safe noWrap some reading
    · intro z k'' after less
      exact ⟨rfl, after, by omega⟩
    · intro r h'' k'' done short
      exact ⟨done, short⟩
  · rintro y h' k' ⟨-, -, never⟩
    omega
  · refine ⟨rfl, .start quiet bound, ?_⟩
    have all : left buffer (.start buffer) (live (ReadState.start buffer).queue) = buffer.length := by
      simp [left, ReadState.start, live_newQueue]
    rw [all]
    exact enough

/-- Where a run of `do_read` may be: at its end, or at a request that will be answered; something
is received only with a request in flight. -/
def ReadGoes (content buffer : Bytes) (me : Nat) (h : OpenHandle) :
    Prog ConnReq.Resp Stop (ReadResult × OpenHandle) → Connection → Prop
  | .done out, _ => ReadDone content buffer h out.1 out.2
  | .stop _, _ => False
  | .ask r next, k => (r = .recv → k.inflight ≠ []) ∧
      (r = .getId ∧ k.msgId = 0 ∨ ∃ choice config,
        permits (Serving (· ≠ 0) (HonestRead content)) (Prog.ask r next, k) choice ∧
          serve (Connection.answer me) (Prog.ask r next, k) choice = some config)

/-- `do_read` fills the buffer from the file, whatever the order of the replies and however short
they are, as long as no request is for an offset of more than 64 bits. Each round of its loop
receives one reply, so it ends behind at most as many replies as there are bytes to read. -/
theorem doRead_reads (content buffer : Bytes) (h : OpenHandle) (k : Connection) (me fuel : Nat)
    (some : 0 < buffer.length) (direct : NoWrap content h.offset buffer) (enough : buffer.length < fuel)
    (free : k.holder = none) (quiet : k.inflight = []) (bound : k.msgId < 2 ^ 32) :
    Acc (fun next config => ∃ choice, serve (Connection.answer me) config choice = Option.some next)
        (doRead fuel buffer h, k) ∧
      ∀ config, Run (serve (Connection.answer me)) (permits (Serving (· ≠ 0) (HonestRead content)))
          (doRead fuel buffer h, k) config →
        config.2.inflight.length ≤ maxReq ∧ ReadGoes content buffer me h config.1 config.2 := by
  refine ⟨serve_finite _ _ _, ?_⟩
  rintro ⟨p, k'⟩ run
  have safe := safe_run _ _ (doRead_safe me direct some enough free quiet bound) run
  cases p with
  | done out => exact ⟨safe.2, safe.1⟩
  | stop reason => exact safe.elim
  | ask r next =>
    have bounded : Bounded (HonestRead content) k' r := safe.1
    refine ⟨bounded.short, ?_, ?_⟩
    · rintro rfl
      exact bounded.inflight_ne
    · by_cases out : r = .getId ∧ k'.msgId = 0
      · exact Or.inl out
      · obtain ⟨choice, given, fits, answered⟩ := bounded_answer (· ≠ 0) me bounded (by
          rintro rfl zero
          exact out ⟨rfl, zero⟩)
        exact Or.inr ⟨choice, (next given.1, given.2), fits, by simp [serve, answered]⟩

instance (content : Bytes) : ∀ query, DecidablePred (HonestRead content query)
  | .read _ offset len, .data bytes =>
    inferInstanceAs (Decidable (0 < bytes.length ∧ bytes.length ≤ len ∧ bytes <+: content.drop offset))
  | .read _ offset _, .status code => inferInstanceAs (Decidable (code = fxEof ∧ content.length ≤ offset))
  | .read _ _ _, .handle _ | .read _ _ _, .name _ | .read _ _ _, .attrs _ | .read _ _ _, .other _ => .isFalse id
  | .write _ _ _, _ | .close _, _ | .readdir _, _ | .lstat _, _ | .readlink _, _ | .openFile _ _ _, _
  | .opendir _, _ | .remove _, _ | .rmdir _, _ => .isFalse id

/-- A connection as `sftp_connect` leaves it. -/
def freshConnection : Connection := ⟨3, 1, 1, 0, none, [], [], 1⟩

def openFile (offset : Nat) : OpenHandle := ⟨[7], offset, [], [], false⟩

/-- Two replies of one byte and the end of the file. -/
def shortReplies : List Choice :=
  [.go, .go, .go, .reply 0 (.data [2]), .go, .go, .reply 0 (.data [3]), .go, .go, .reply 0 (.status fxEof), .go]

theorem shortReplies_read : ∃ k', Run (serve (Connection.answer 0)) (permits (Serving (· ≠ 0) (HonestRead [1, 2, 3])))
      (doRead 5 [0, 0, 0, 0] (openFile 1), freshConnection) (.done (⟨.ok, 2, [2, 3, 0, 0]⟩, openFile 3), k') ∧
    ReadDone [1, 2, 3] [0, 0, 0, 0] (openFile 1) ⟨.ok, 2, [2, 3, 0, 0]⟩ (openFile 3) := by
  have direct : NoWrap [1, 2, 3] (openFile 1).offset [0, 0, 0, 0] := by
    refine ⟨by decide, ?_⟩
    intro start _ small
    have small : start < 4 := small
    show 1 + start < 2 ^ 64
    omega
  have run : Run (serve (Connection.answer 0)) (permits (Serving (· ≠ 0) (HonestRead [1, 2, 3])))
      (doRead 5 [0, 0, 0, 0] (openFile 1), freshConnection)
      (.done (⟨.ok, 2, [2, 3, 0, 0]⟩, openFile 3), { freshConnection with msgId := 4 }) :=
    Run.of_foldlM shortReplies (by rfl)
  exact ⟨_, run, ((doRead_reads [1, 2, 3] [0, 0, 0, 0] (openFile 1) freshConnection 0 5 (by decide) direct
    (by decide) rfl rfl (by decide)).2 _ run).2⟩

end Reading

section Runs

variable {ids : Nat → Prop} {honest : Query → Answer → Prop} {me : Nat} {h h' : OpenHandle} {k k' : Connection}
  {x y : ReadState} {i : Fin queueLen} {id : Nat}

theorem requestRead_reaches (len : Nat) (more : x.curr < x.numBytes) (free : x.queue.isFull = false)
    (fine : ids k.msgId) (isLen : min (x.numBytes - x.curr) defaultReqLen = len) :
    Reaches (Connection.answer me) (Serving ids honest) (requestRead x) h k
      (.again { x with
        queue := x.queue.push ⟨k.msgId, len, x.curr⟩
        outstanding := x.outstanding + 1
        curr := x.curr + len }) h
      (k.sending me ⟨k.msgId, readQuery h ⟨k.msgId, len, x.curr⟩⟩) := by
  subst isLen
  rw [requestRead, if_pos ⟨more, free⟩]
  exact (reaches_getId fine).bind (Reaches.bind (reaches_send _) reaches_pure)

theorem requestRead_stops (all : x.numBytes ≤ x.curr) :
    Reaches (Connection.answer me) (Serving ids honest) (requestRead x) h k (.finish x) h k := by
  rw [requestRead, if_neg (by omega)]
  exact reaches_pure

theorem requestReads_two {buffer : Bytes} (size : buffer.length = defaultReqLen + 1) (fine : ids k.msgId)
    (next : ids ((k.msgId + 1) % 2 ^ 32)) :
    Reaches (Connection.answer me) (Serving ids honest)
      (loop Stop.outOfFuel requestRead queueLen (.start buffer)) h k
      ⟨buffer.length, 0, buffer, 0 + defaultReqLen + 1, (newQueue.push ⟨k.msgId, defaultReqLen, 0⟩).push
        ⟨(k.msgId + 1) % 2 ^ 32, 1, 0 + defaultReqLen⟩, 2, false⟩ h
      ((k.sending me ⟨k.msgId, readQuery h ⟨k.msgId, defaultReqLen, 0⟩⟩).sending me
        ⟨(k.msgId + 1) % 2 ^ 32, readQuery h ⟨(k.msgId + 1) % 2 ^ 32, 1, 0 + defaultReqLen⟩⟩) := by
  have block : 0 < defaultReqLen := by decide
  apply Reaches.again (requestRead_reaches defaultReqLen _ rfl fine _)
  · apply Reaches.again (requestRead_reaches 1 _ rfl next _)
    · apply Reaches.finish (requestRead_stops _)
      show buffer.length ≤ 0 + defaultReqLen + 1
      omega
    · show 0 + defaultReqLen < buffer.length
      omega
    · show min (buffer.length - (0 + defaultReqLen)) _ = _
      omega
  · show 0 < buffer.length
    omega
  · show min (buffer.length - 0) _ = _
    omega

theorem readRound_reaches (place : Nat) {r : Step ReadState ReadResult} {k'' : Connection} {sent : Nat × Packet}
    {answer : Answer} (goes : x.bytesRead < x.numBytes ∨ x.outstanding > 0)
    (filled : Reaches (Connection.answer me) (Serving ids honest) (loop Stop.outOfFuel requestRead queueLen x) h k
      y h k')
    (found : k'.inflight[place]? = some sent) (fair : honest sent.2.query answer)
    (received : Reaches (Connection.answer me) (Serving ids honest)
      (receiveRead { y with outstanding := y.outstanding - 1 } ⟨sent.2.id, answer⟩) h (k'.received place) r h' k'') :
    Reaches (Connection.answer me) (Serving ids honest) (readRound x) h k r h' k'' := by
  rw [readRound, if_pos goes]
  exact filled.bind ((reaches_recv found fair).bind received)

theorem readRound_ends (atEnd : ¬ (x.bytesRead < x.numBytes ∨ x.outstanding > 0)) :
    Reaches (Connection.answer me) (Serving ids honest) (readRound x) h k
      (.finish ⟨if x.gotEof then .eof else .ok, x.bytesRead, x.buffer⟩)
      { h with offset := (h.offset + x.bytesRead) % 2 ^ 64 } { k with holder := none } := by
  rw [readRound, if_neg atEnd]
  exact reaches_modify.bind (reaches_unlock.bind reaches_pure)

theorem receiveRead_whole {bytes : Bytes} (found : x.queue.find (·.id = id) = some i)
    (room : (x.queue.slots i).start + bytes.length ≤ x.buffer.length)
    (all : (x.queue.slots i).reqLen ≤ bytes.length) :
    Reaches (Connection.answer me) (Serving ids honest) (receiveRead x ⟨id, .data bytes⟩) h k
      (.again ((x.stored i bytes x.outstanding).answered i { x.queue.slots i with id := 0 })) h k := by
  rw [receiveRead]
  dsimp only
  rw [found]
  dsimp only
  rw [receiveData, if_neg (by omega), if_neg (by omega)]
  exact reaches_pure

theorem receiveRead_eof (found : x.queue.find (·.id = id) = some i) :
    Reaches (Connection.answer me) (Serving ids honest) (receiveRead x ⟨id, .status fxEof⟩) h k
      (.again (receiveEof x i)) h k := by
  rw [receiveRead]
  dsimp only
  rw [found]
  exact reaches_pure

theorem doRead_secondOnly {buffer : Bytes} (size : buffer.length = defaultReqLen + 1) {c : UInt8}
    (data : honest (readQuery h ⟨2, 1, 0 + defaultReqLen⟩) (.data [c]))
    (eof : honest (readQuery h ⟨1, defaultReqLen, 0⟩) (.status fxEof)) (fuel : Nat) :
    ∃ r h' k', Reaches (Connection.answer 0) (Serving (· ≠ 0) honest) (doRead (fuel + 3) buffer) h freshConnection
      r h' k' ∧ r.bytesRead = 1 := by
  have block : 0 < defaultReqLen := by decide
  refine ⟨_, _, _, (reaches_lock rfl).bind (.again
    (readRound_reaches 1 (.inl ?_) (requestReads_two size (by decide) (by decide)) rfl data
      (receiveRead_whole (i := ⟨1, by decide⟩) rfl ?_ (Nat.le_refl _)))
    (.again (readRound_reaches 0 (.inr ?_) (.finish (requestRead_stops ?_)) rfl eof
      (receiveRead_eof (i := ⟨0, by decide⟩) rfl)) (.finish (readRound_ends ?_)))), ?_⟩
  · show 0 < buffer.length
    omega
  · show 0 + defaultReqLen + 1 ≤ buffer.length
    omega
  · show 0 < 1
    omega
  · show buffer.length ≤ 0 + defaultReqLen + 1
    omega
  · show ¬ (0 + 1 < min buffer.length 0 ∨ 2 - 1 - 1 > 0)
    omega
  · rfl

/-- An offset of `2 ^ 64 - 1`, which `do_seek` to `-1` gives, is behind the end of every file. The
request for the second block of the buffer wraps around to the start of the file. -/
theorem doRead_wraps : ¬ ∀ (content buffer : Bytes) (h : OpenHandle), content.length < 2 ^ 64 → h.offset < 2 ^ 64 →
    0 < buffer.length → ∀ r h' k', Reaches (Connection.answer 0) (Serving (· ≠ 0) (HonestRead content))
      (doRead (buffer.length + 2) buffer) h freshConnection r h' k' → ReadDone content buffer h r h' := by
  intro claim
  have block : 0 < defaultReqLen := by decide
  have size : (List.replicate (defaultReqLen + 1) (0 : UInt8)).length = defaultReqLen + 1 := List.length_replicate
  have wrapped : (2 ^ 64 - 1 + (0 + defaultReqLen)) % 2 ^ 64 = defaultReqLen - 1 := by decide
  have last : HonestRead (List.replicate defaultReqLen 0) (readQuery (openFile (2 ^ 64 - 1)) ⟨2, 1, 0 + defaultReqLen⟩)
      (.data [0]) := by
    refine ⟨Nat.one_pos, Nat.le_refl _, ?_⟩
    show [0] <+: List.drop ((2 ^ 64 - 1 + (0 + defaultReqLen)) % 2 ^ 64) _
    rw [wrapped, List.drop_replicate, Nat.sub_sub_self block]
    exact List.prefix_refl _
  have behind : HonestRead (List.replicate defaultReqLen 0) (readQuery (openFile (2 ^ 64 - 1)) ⟨1, defaultReqLen, 0⟩)
      (.status fxEof) := by
    refine ⟨rfl, ?_⟩
    rw [List.length_replicate]
    decide
  obtain ⟨r, h', k', run, one⟩ := doRead_secondOnly size last behind defaultReqLen
  have few : (List.replicate defaultReqLen (0 : UInt8)).length < 2 ^ 64 := by
    rw [List.length_replicate]
    decide
  have some : 0 < (List.replicate (defaultReqLen + 1) (0 : UInt8)).length := by
    rw [size]
    omega
  have enough : (List.replicate (defaultReqLen + 1) (0 : UInt8)).length + 2 = defaultReqLen + 3 := by
    rw [size]
  have done := claim _ _ (openFile (2 ^ 64 - 1)) few (by decide) some r h' k' (by rw [enough]; exact run)
  have count := done.bytesRead
  rw [one, List.length_replicate, List.length_replicate] at count
  revert count
  decide

end Runs

end GnomeVfs.Sftp
