import GnomeVfs.SftpRead

/- Writing a file with several requests in flight: whatever the order of the replies, each byte of
the buffer is sent once, to its place in the file. -/
namespace GnomeVfs.Sftp

open Interaction Action Transition

/-- The bytes that a request is to store, each with the handle of the file and its place there. -/
def Query.stored : Query → List (Bytes × Nat × UInt8)
  | .write handle offset data => (data.zipIdx offset).map fun byte => (handle, byte.2, byte.1)
  | _ => []

def ConnReq.stored : ConnReq → List (Bytes × Nat × UInt8)
  | .send packet => packet.query.stored
  | _ => []

/-- What the requests of a run are to store. -/
def stored (log : List ConnReq) : List (Bytes × Nat × UInt8) := log.flatMap ConnReq.stored

/-- The number of requests for `n` bytes. -/
def blocks (n : Nat) : Nat := (n + defaultReqLen - 1) / defaultReqLen

theorem stored_append (log : List ConnReq) (r : ConnReq) : stored (log ++ [r]) = stored log ++ r.stored := by
  rw [stored, List.flatMap_append, List.flatMap_singleton]
  rfl

/-- The bytes of a buffer, written from an offset on. -/
def placed (handle : Bytes) (offset : Nat) (buffer : Bytes) : List (Bytes × Nat × UInt8) :=
  (buffer.zipIdx offset).map fun byte => (handle, byte.2, byte.1)

theorem placed_append (handle : Bytes) (offset : Nat) (first second : Bytes) :
    placed handle offset (first ++ second) =
      placed handle offset first ++ placed handle (offset + first.length) second := by
  rw [placed, List.zipIdx_append, List.map_append]
  rfl

theorem placed_take (handle : Bytes) (offset : Nat) (buffer : Bytes) {start len : Nat}
    (inside : start ≤ buffer.length) :
    placed handle offset (buffer.take (start + len)) = placed handle offset (buffer.take start) ++
      placed handle (offset + start) ((buffer.drop start).take len) := by
  rw [List.take_add, placed_append, List.length_take, Nat.min_eq_left inside]

section Writing

/-- The packet of a request. -/
def writeQuery (h : OpenHandle) (buffer : Bytes) (req : Request) : Query :=
  .write h.sftpHandle ((h.offset + req.start) % 2 ^ 64) ((buffer.drop req.start).take req.reqLen)

/-- A server that stores what it is asked to. -/
def HonestWrite : Query → Answer → Prop
  | .write _ _ _, .status code => code = fxOk
  | _, _ => False

theorem HonestWrite.answer {query : Query} {answer : Answer} (honest : HonestWrite query answer) :
    answer = .status fxOk := by
  rw [HonestWrite.eq_def] at honest
  split at honest
  · rw [honest]
  · exact honest.elim

theorem honestWrite_ok (h : OpenHandle) (buffer : Bytes) (req : Request) :
    HonestWrite (writeQuery h buffer req) (.status fxOk) := rfl

/-- None of the requests has the id of a finished request, or there is only one. -/
def Numbered (k : Connection) (buffer : Bytes) : Prop :=
  buffer.length ≤ defaultReqLen ∨ 0 < k.msgId ∧ k.msgId + blocks buffer.length ≤ 2 ^ 32

/-- The invariant of `do_write`. -/
structure Writing (buffer : Bytes) (me : Nat) (h : OpenHandle) (w : Connection × List ConnReq) (x : WriteState) :
    Prop where
  flight : Flight me (writeQuery h buffer) w.1 x.queue
  popped : Popped x.queue
  positive : ∀ req ∈ live x.queue, 0 < req.reqLen
  requested : x.currOffset ≤ buffer.length
  total : x.bytesWritten + ((live x.queue).map Request.reqLen).sum = x.currOffset
  numbered : x.currOffset < buffer.length →
    0 < w.1.msgId ∧ w.1.msgId + blocks (buffer.length - x.currOffset) ≤ 2 ^ 32
  sent : stored w.2 = placed h.sftpHandle h.offset (buffer.take x.currOffset)

variable {buffer : Bytes} {me : Nat} {h : OpenHandle} {k : Connection} {log : List ConnReq} {x y : WriteState}
  {H : Stop → Connection × List ConnReq → Prop}

theorem Writing.start (empty : k.inflight = []) (bound : k.msgId < 2 ^ 32)
    (numbered : 0 < k.msgId ∧ k.msgId + blocks buffer.length ≤ 2 ^ 32) (log : List ConnReq) (none : stored log = []) :
    Writing buffer me h (k, log) ⟨0, 0, newQueue⟩ := by
  refine ⟨.new empty bound, .new, ?_, Nat.zero_le _, rfl, ?_, ?_⟩
  · intro req member
    cases member
  · intro _
    exact numbered
  · rw [none]
    rfl

theorem Writing.length_le (writing : Writing buffer me h (k, log) x) : k.inflight.length ≤ maxReq := by
  rw [writing.flight.length]
  exact length_live_le x.queue

theorem blocks_succ {n : Nat} (more : defaultReqLen < n) : blocks n = blocks (n - defaultReqLen) + 1 := by
  have positive : 0 < defaultReqLen := by decide
  rw [blocks, blocks, ← Nat.add_div_right _ positive]
  congr 1
  omega

theorem blocks_pos {n : Nat} (some : 0 < n) : 0 < blocks n := by
  have positive : 0 < defaultReqLen := by decide
  exact Nat.div_pos (by omega) positive

theorem Writing.request (writing : Writing buffer me h (k, log) x)
    (direct : h.offset + buffer.length < 2 ^ 64) (more : x.currOffset < buffer.length)
    (free : x.queue.isFull = false) (len : Nat) (isLen : min (buffer.length - x.currOffset) defaultReqLen = len)
    (log' : List ConnReq)
    (next : stored log' = stored log ++ (writeQuery h buffer ⟨k.msgId, len, x.currOffset⟩).stored) :
    Writing buffer me h
      (k.sending me ⟨k.msgId, writeQuery h buffer ⟨k.msgId, len, x.currOffset⟩⟩, log')
      { x with currOffset := x.currOffset + len, queue := x.queue.push ⟨k.msgId, len, x.currOffset⟩ } := by
  obtain ⟨positive, enough⟩ := writing.numbered more
  have nonzero : k.msgId ≠ 0 := by
    have positive : 0 < k.msgId := positive
    omega
  have pushed : live (x.queue.push ⟨k.msgId, len, x.currOffset⟩) =
      live x.queue ++ [⟨k.msgId, len, x.currOffset⟩] := live_push free nonzero
  have one := List.perm_append_singleton (⟨k.msgId, len, x.currOffset⟩ : Request) (live x.queue)
  have block : 0 < defaultReqLen := by decide
  have requested := writing.requested
  refine ⟨?_, writing.popped.push free nonzero, ?_, ?_, ?_, ?_, ?_⟩
  · exact writing.flight.send nonzero rfl (pushed ▸ one)
  · intro req member
    have member : req ∈ live (x.queue.push ⟨k.msgId, len, x.currOffset⟩) := member
    rw [pushed] at member
    rcases List.mem_append.mp member with old | new
    · exact writing.positive req old
    · rw [List.mem_singleton.mp new]
      show 0 < len
      omega
  · show x.currOffset + len ≤ buffer.length
    omega
  · show x.bytesWritten + ((live (x.queue.push _)).map Request.reqLen).sum = x.currOffset + len
    rw [pushed, (one.map _).sum_eq, List.map_cons, List.sum_cons]
    have total := writing.total
    dsimp only
    omega
  · intro further
    have further : x.currOffset + len < buffer.length := further
    have whole : len = defaultReqLen := by omega
    have enough : k.msgId + blocks (buffer.length - x.currOffset) ≤ 2 ^ 32 := enough
    have rest := blocks_succ (n := buffer.length - x.currOffset) (by omega)
    have some := blocks_pos (n := buffer.length - x.currOffset - defaultReqLen) (by omega)
    have below : k.msgId + 1 < 2 ^ 32 := by omega
    have less : buffer.length - (x.currOffset + len) = buffer.length - x.currOffset - defaultReqLen := by omega
    show 0 < (k.msgId + 1) % 2 ^ 32 ∧ (k.msgId + 1) % 2 ^ 32 + blocks (buffer.length - (x.currOffset + len)) ≤ _
    rw [Nat.mod_eq_of_lt below, less]
    omega
  · have before : stored log = placed h.sftpHandle h.offset (buffer.take x.currOffset) := writing.sent
    show stored log' = placed h.sftpHandle h.offset (buffer.take (x.currOffset + len))
    rw [next, before, placed_take _ _ _ requested, writeQuery, Nat.mod_eq_of_lt (by dsimp only; omega)]
    rfl

/-- The inner loop of `do_write`. -/
theorem requestWrite_safe {ids : Nat → Prop} {honest : Query → Answer → Prop}
    {Q : Step WriteState WriteState → OpenHandle → Connection × List ConnReq → Prop}
    (short : k.inflight.length ≤ maxReq)
    (again : ∀ len log', x.currOffset < buffer.length → x.queue.isFull = false → ids k.msgId →
      min (buffer.length - x.currOffset) defaultReqLen = len →
      stored log' = stored log ++ (writeQuery h buffer ⟨k.msgId, len, x.currOffset⟩).stored →
      Q (.again { x with
          currOffset := (x.currOffset + len) % 2 ^ 32
          queue := x.queue.push ⟨k.msgId, len, x.currOffset⟩ }) h
        (k.sending me ⟨k.msgId, writeQuery h buffer ⟨k.msgId, len, x.currOffset⟩⟩, log'))
    (finish : buffer.length ≤ x.currOffset ∨ x.queue.isFull = true → Q (.finish x) h (k, log)) :
    safe (chosen (recorded (Connection.answer me)) fun w => Serving ids honest w.1)
      (fun w => Bounded honest w.1) (requestWrite buffer x) h Q H (k, log) := by
  rw [requestWrite]
  by_cases more : x.currOffset < buffer.length ∧ x.queue.isFull = false
  · rw [if_pos more]
    apply safe_bind.mpr
    apply safe_recorded
    apply safe_getId short
    intro fine
    apply safe_bind.mpr
    apply safe_bind.mpr
    apply safe_recorded
    apply safe_send
    · exact short
    · apply again _ _ more.1 more.2 fine rfl
      rw [stored_append, stored_append]
      simp [ConnReq.stored, writeQuery]
  · rw [if_neg more]
    apply finish
    by_cases full : x.queue.isFull = true
    · exact Or.inr full
    · left
      have free : x.queue.isFull = false := by simpa using full
      by_contra few
      exact more ⟨by omega, free⟩

theorem requestWrites_safe (small : buffer.length < 2 ^ 32) (direct : h.offset + buffer.length < 2 ^ 64)
    (writing : Writing buffer me h (k, log) x)
    {Q : WriteState → OpenHandle → Connection × List ConnReq → Prop}
    (next : ∀ y k' log', Writing buffer me h (k', log') y → y.bytesWritten = x.bytesWritten →
      buffer.length ≤ y.currOffset ∨ y.queue.isFull = true → Q y h (k', log')) :
    safe (chosen (recorded (Connection.answer me)) fun w => Serving (fun _ => True) HonestWrite w.1)
      (fun w => Bounded HonestWrite w.1) (loop .outOfFuel (requestWrite buffer) queueLen x) h Q H (k, log) := by
  apply safe_loop (fun fuel y h' w => h' = h ∧ queueLen ≤ fuel + y.queue.items.length ∧
    Writing buffer me h w y ∧ y.bytesWritten = x.bytesWritten)
  · rintro fuel y h' ⟨k', log'⟩ ⟨rfl, room, inv, same⟩
    apply requestWrite_safe inv.length_le
    · intro len longer more free _ isLen logged
      have requested := inv.request direct more free len isLen longer logged
      have bound : y.currOffset + len ≤ buffer.length := requested.requested
      rw [Nat.mod_eq_of_lt (by omega)]
      refine ⟨rfl, ?_, requested, same⟩
      show queueLen ≤ fuel + (y.queue.push _).items.length
      rw [RingQueue.items_push y.queue _ free, List.length_append, List.length_singleton]
      omega
    · intro atEnd
      exact next y k' log' inv same atEnd
  · rintro y h' k' ⟨-, room, -, -⟩
    have := RingQueue.length_items_lt y.queue
    omega
  · exact ⟨rfl, by omega, writing, rfl⟩

/-- The request that has been answered is finished. -/
def WriteState.answered (x : WriteState) (i : Fin queueLen) : WriteState :=
  { x with
    queue := (x.queue.set i { x.queue.slots i with id := 0 }).popWhile Request.finished
    bytesWritten := x.bytesWritten + (x.queue.slots i).reqLen }

theorem Writing.answered (writing : Writing buffer me h (k, log) x) {i : Fin queueLen} {place : Nat}
    (holds : x.queue.Holds i) (waits : (x.queue.slots i).id ≠ 0)
    (answered : k.inflight[place]? = some (me, ⟨(x.queue.slots i).id, writeQuery h buffer (x.queue.slots i)⟩))
    (log' : List ConnReq) (same : stored log' = stored log) :
    Writing buffer me h (k.received place, log') (x.answered i) ∧ x.bytesWritten < (x.answered i).bytesWritten := by
  obtain ⟨rest, before, finished, -⟩ := live_set holds waits
  have after := finished { x.queue.slots i with id := 0 } rfl
  have less := before.trans (after.symm.cons _)
  have positive := writing.positive _ (before.mem_iff.mpr List.mem_cons_self)
  have left : live (x.answered i).queue = live (x.queue.set i { x.queue.slots i with id := 0 }) := live_popWhile _
  have total : x.bytesWritten + ((live x.queue).map Request.reqLen).sum = x.currOffset := writing.total
  constructor
  · refine ⟨(writing.flight.finish answered less).popWhile, .popWhile _, ?_, writing.requested, ?_,
      writing.numbered, ?_⟩
    · intro req member
      rw [left] at member
      exact writing.positive req (less.mem_iff.mpr (List.mem_cons_of_mem _ member))
    · rw [(less.map _).sum_eq, List.map_cons, List.sum_cons] at total
      rw [left, WriteState.answered]
      dsimp only at total ⊢
      omega
    · exact same.trans writing.sent
  · show x.bytesWritten < x.bytesWritten + _
    omega

/-- The reply to a request of the queue. -/
theorem receiveWrite_safe (writing : Writing buffer me h (k, log) x) {place : Nat} {sent : Nat × Packet}
    {answer : Answer} (answered : k.inflight[place]? = some sent) (honest : HonestWrite sent.2.query answer)
    (log' : List ConnReq) (same : stored log' = stored log)
    {Q : Step WriteState WriteResult → OpenHandle → Connection × List ConnReq → Prop}
    (next : ∀ y k', Writing buffer me h (k', log') y → x.bytesWritten < y.bytesWritten → Q (.again y) h (k', log')) :
    safe (chosen (recorded (Connection.answer me)) fun w => Serving (fun _ => True) HonestWrite w.1)
      (fun w => Bounded HonestWrite w.1) (receiveWrite x ⟨sent.2.id, answer⟩) h Q H (k.received place, log') := by
  obtain ⟨i, found, holds, waits, -, rfl⟩ := writing.flight.found answered
  obtain rfl := honest.answer
  rw [receiveWrite]
  dsimp only at found ⊢
  rw [if_neg (by simp), found]
  obtain ⟨after, more⟩ := writing.answered holds waits answered log' same
  exact next _ _ after more

theorem Writing.receives (writing : Writing buffer me h (k, log) x)
    (atEnd : buffer.length ≤ x.currOffset ∨ x.queue.isFull = true) (goes : x.bytesWritten < buffer.length) :
    Bounded HonestWrite k .recv := by
  refine ⟨writing.length_le, ?_⟩
  have some : live x.queue ≠ [] := by
    intro none
    have total := writing.total
    rw [none, List.map_nil, List.sum_nil] at total
    have all := atEnd.resolve_right (writing.popped.not_full none)
    omega
  obtain ⟨i, -, answered⟩ := writing.flight.exists_sent some
  exact ⟨0, .status fxOk, _, answered, rfl⟩

/-- What `do_write` is for: everything is written, each byte to its place. -/
structure WriteDone (buffer : Bytes) (h : OpenHandle) (r : WriteResult) (h' : OpenHandle) (log : List ConnReq) :
    Prop where
  result : r = ⟨.ok, buffer.length⟩
  offset : h' = { h with offset := h.offset + buffer.length }
  sent : stored log = placed h.sftpHandle h.offset buffer

theorem Writing.done (writing : Writing buffer me h (k, log) x) (direct : h.offset + buffer.length < 2 ^ 64)
    (atEnd : ¬ x.bytesWritten < buffer.length) (log' : List ConnReq) (same : stored log' = stored log) :
    WriteDone buffer h ⟨.ok, x.bytesWritten⟩ { h with offset := (h.offset + x.bytesWritten) % 2 ^ 64 } log' := by
  have total := writing.total
  have requested := writing.requested
  have all : x.bytesWritten = buffer.length := by omega
  refine ⟨by rw [all], ?_, ?_⟩
  · rw [all, Nat.mod_eq_of_lt direct]
  · have sent : stored log = _ := writing.sent
    rw [same, sent, List.take_of_length_le (by omega)]

theorem stored_recv (log : List ConnReq) : stored (log ++ [.recv]) = stored log := by
  rw [stored_append]
  exact List.append_nil _

theorem stored_unlock (log : List ConnReq) : stored (log ++ [.unlock]) = stored log := by
  rw [stored_append]
  exact List.append_nil _

theorem writeRound_safe (small : buffer.length < 2 ^ 32) (direct : h.offset + buffer.length < 2 ^ 64)
    (writing : Writing buffer me h (k, log) x)
    {Q : Step WriteState WriteResult → OpenHandle → Connection × List ConnReq → Prop}
    (next : ∀ y k' log', Writing buffer me h (k', log') y → x.bytesWritten < y.bytesWritten →
      Q (.again y) h (k', log'))
    (last : ∀ r h' k' log', WriteDone buffer h r h' log' → k'.inflight.length ≤ maxReq →
      Q (.finish r) h' (k', log')) :
    safe (chosen (recorded (Connection.answer me)) fun w => Serving (fun _ => True) HonestWrite w.1)
      (fun w => Bounded HonestWrite w.1) (writeRound buffer x) h Q H (k, log) := by
  rw [writeRound]
  by_cases goes : x.bytesWritten < buffer.length
  · rw [if_pos goes]
    apply safe_bind.mpr
    apply requestWrites_safe small direct writing
    intro y k' log' filled same atEnd
    apply safe_bind.mpr
    apply safe_recorded
    apply safe_recv (filled.receives atEnd (same ▸ goes))
    intro place sent answer answered honest
    apply receiveWrite_safe filled answered honest _ (stored_recv log')
    intro z k'' after more
    exact next z k'' _ after (same ▸ more)
  · rw [if_neg goes]
    apply safe_bind.mpr
    rw [safe_modify, safe_bind]
    apply safe_recorded
    apply safe_unlock writing.length_le
    exact last _ _ _ _ (writing.done direct goes _ (stored_unlock log)) writing.length_le

/-- Where the only request of a buffer is: not yet sent, or answered. -/
def OneBlock (buffer : Bytes) (h : OpenHandle) (w : Connection × List ConnReq) (x : WriteState) (fuel : Nat) : Prop :=
  w.1.inflight = [] ∧ (x = ⟨0, 0, newQueue⟩ ∧ stored w.2 = [] ∧ 1 < fuel ∨
    x.bytesWritten = buffer.length ∧ stored w.2 = placed h.sftpHandle h.offset buffer ∧ 0 < fuel)

theorem requestWrites_one (one : buffer.length ≤ defaultReqLen) (some : 0 < buffer.length)
    (direct : h.offset + buffer.length < 2 ^ 64) (quiet : k.inflight = []) (none : stored log = [])
    {Q : WriteState → OpenHandle → Connection × List ConnReq → Prop}
    (next : ∀ y k' log' packet, y.bytesWritten = 0 → y.queue.items = [⟨packet.id, buffer.length, 0⟩] →
      k'.inflight = [(me, packet)] → packet.query = writeQuery h buffer ⟨packet.id, buffer.length, 0⟩ →
      stored log' = placed h.sftpHandle h.offset buffer → Q y h (k', log')) :
    safe (chosen (recorded (Connection.answer me)) fun w => Serving (fun _ => True) HonestWrite w.1)
      (fun w => Bounded HonestWrite w.1) (loop .outOfFuel (requestWrite buffer) queueLen ⟨0, 0, newQueue⟩) h Q H
      (k, log) := by
  have short : k.inflight.length ≤ maxReq := by
    rw [quiet]
    decide
  have block : defaultReqLen < 2 ^ 32 := by decide
  rw [queueLen, loop, safe_bind]
  apply requestWrite_safe short
  · intro len log' _ _ _ isLen logged
    have whole : len = buffer.length := by
      rw [← isLen]
      show min (buffer.length - 0) _ = _
      omega
    subst whole
    have offset : (0 + buffer.length) % 2 ^ 32 = buffer.length := by
      rw [Nat.zero_add, Nat.mod_eq_of_lt (by omega)]
    dsimp only
    rw [maxReq, loop, safe_bind, offset]
    apply requestWrite_safe
    · show (k.inflight ++ [_]).length ≤ maxReq
      rw [quiet]
      show 1 ≤ maxReq
      decide
    · intro _ _ never
      exact absurd never (Nat.lt_irrefl _)
    · intro _
      apply next _ _ _ ⟨k.msgId, _⟩ rfl rfl
      · show k.inflight ++ [_] = [_]
        rw [quiet]
        rfl
      · rfl
      · rw [logged, none, writeQuery]
        dsimp only
        rw [Nat.add_zero, Nat.mod_eq_of_lt (by omega), List.drop_zero, List.take_length]
        rfl
  · intro atEnd
    rcases atEnd with all | full
    · have all : buffer.length ≤ 0 := all
      omega
    · cases full

theorem writeRound_one (one : buffer.length ≤ defaultReqLen) (direct : h.offset + buffer.length < 2 ^ 64)
    {fuel : Nat} (inv : OneBlock buffer h (k, log) x (fuel + 1))
    {Q : Step WriteState WriteResult → OpenHandle → Connection × List ConnReq → Prop}
    (next : ∀ y k' log', OneBlock buffer h (k', log') y fuel → Q (.again y) h (k', log'))
    (last : ∀ r h' k' log', WriteDone buffer h r h' log' → k'.inflight.length ≤ maxReq →
      Q (.finish r) h' (k', log')) :
    safe (chosen (recorded (Connection.answer me)) fun w => Serving (fun _ => True) HonestWrite w.1)
      (fun w => Bounded HonestWrite w.1) (writeRound buffer x) h Q H (k, log) := by
  obtain ⟨quiet, state⟩ := inv
  have quiet : k.inflight = [] := quiet
  have short : k.inflight.length ≤ maxReq := by
    rw [quiet]
    decide
  rw [writeRound]
  by_cases goes : x.bytesWritten < buffer.length
  · rw [if_pos goes]
    obtain ⟨rfl, none, room⟩ := state.resolve_right (by
      rintro ⟨all, -, -⟩
      omega)
    apply safe_bind.mpr
    apply requestWrites_one one goes direct quiet none
    intro y k' log' packet zero items inflight query sent
    apply safe_bind.mpr
    apply safe_recorded
    apply safe_recv
    · have single : k'.inflight.length ≤ maxReq := by
        rw [inflight]
        show 1 ≤ maxReq
        decide
      refine ⟨single, 0, .status fxOk, (me, packet), by rw [inflight]; rfl, ?_⟩
      show HonestWrite packet.query _
      rw [query]
      rfl
    · intro place other answer answered honest
      rw [inflight] at answered
      obtain ⟨rfl, rfl⟩ : place = 0 ∧ other = (me, packet) := by
        cases place with
        | zero =>
          cases answered
          exact ⟨rfl, rfl⟩
        | succ place => cases answered
      have gone : (k'.received 0).inflight = [] := by
        show k'.inflight.eraseIdx 0 = []
        rw [inflight]
        rfl
      have stays : stored (log' ++ [.recv]) = placed h.sftpHandle h.offset buffer := (stored_recv log').trans sent
      obtain ⟨i, found, -, -, listed⟩ := RingQueue.find_mem (r := y.queue) (·.id = packet.id)
        (by rw [items]; exact List.mem_singleton_self _) (by simp)
      rw [items] at listed
      have here := List.mem_singleton.mp listed
      obtain rfl := honest.answer
      show safe _ _ (receiveWrite y ⟨packet.id, .status fxOk⟩) h _ _ _
      rw [receiveWrite]
      dsimp only
      rw [if_neg (by simp), found]
      apply next
      refine ⟨gone, Or.inr ⟨?_, stays, by omega⟩⟩
      show y.bytesWritten + (y.queue.slots i).reqLen = buffer.length
      rw [zero, here]
      exact Nat.zero_add _
  · rw [if_neg goes]
    apply safe_bind.mpr
    rw [safe_modify, safe_bind]
    apply safe_recorded
    apply safe_unlock short
    have done : x.bytesWritten = buffer.length ∧ stored log = placed h.sftpHandle h.offset buffer := by
      rcases state with ⟨rfl, nothing, -⟩ | ⟨all, sent, -⟩
      · have none : ¬ 0 < buffer.length := goes
        have empty : buffer = [] := List.length_eq_zero_iff.mp (by omega)
        subst empty
        exact ⟨rfl, nothing⟩
      · exact ⟨all, sent⟩
    refine last _ _ _ _ ⟨by rw [done.1], ?_, (stored_unlock log).trans done.2⟩ short
    rw [done.1, Nat.mod_eq_of_lt direct]

theorem doWrite_safe (me : Nat) {fuel : Nat} (small : buffer.length < 2 ^ 31)
    (direct : h.offset + buffer.length < 2 ^ 64) (numbered : Numbered k buffer) (enough : buffer.length + 1 < fuel)
    (free : k.holder = none) (quiet : k.inflight = []) (bound : k.msgId < 2 ^ 32) :
    safe (chosen (recorded (Connection.answer me)) fun w => Serving (fun _ => True) HonestWrite w.1)
      (fun w => Bounded HonestWrite w.1) (doWrite fuel buffer) h
      (fun r h' w => WriteDone buffer h r h' w.2 ∧ w.1.inflight.length ≤ maxReq) (fun _ _ => False) (k, []) := by
  have nothing : k.inflight.length ≤ maxReq := by
    rw [quiet]
    decide
  rw [doWrite]
  apply safe_bind.mpr
  apply safe_recorded
  apply safe_lock ⟨nothing, free⟩
  intro _
  rcases numbered with one | numbered
  · apply safe_loop (fun fuel y h' w => h' = h ∧ OneBlock buffer h w y fuel)
    · rintro fuel y h' ⟨k', log⟩ ⟨rfl, inv⟩
      apply writeRound_one one direct inv
      · intro z k'' log' after
        exact ⟨rfl, after⟩
      · intro r h'' k'' log' done short
        exact ⟨done, short⟩
    · rintro y h' w ⟨-, -, ⟨-, -, never⟩ | ⟨-, -, never⟩⟩
      · omega
      · omega
    · exact ⟨rfl, quiet, Or.inl ⟨rfl, rfl, by omega⟩⟩
  · apply safe_loop (fun fuel y h' w => h' = h ∧ Writing buffer me h w y ∧ buffer.length < y.bytesWritten + fuel)
    · rintro fuel y h' ⟨k', log⟩ ⟨rfl, writing, room⟩
      apply writeRound_safe (by omega) direct writing
      · intro z k'' log' after more
        exact ⟨rfl, after, by omega⟩
      · intro r h'' k'' log' done short
        exact ⟨done, short⟩
    · rintro y h' ⟨k', log⟩ ⟨-, writing, never⟩
      have total := writing.total
      have requested := writing.requested
      omega
    · refine ⟨rfl, ?_, ?_⟩
      · exact Writing.start (k := { k with holder := some me }) quiet bound numbered _ rfl
      · show buffer.length < 0 + fuel
        omega

/-- Where a run of `do_write` may be: at its end, or at a request that will be answered. -/
def WriteGoes (buffer : Bytes) (me : Nat) (h : OpenHandle) :
    Prog ConnReq.Resp Stop (WriteResult × OpenHandle) → Connection × List ConnReq → Prop
  | .done out, w => WriteDone buffer h out.1 out.2 w.2
  | .stop _, _ => False
  | .ask r next, w => ∃ choice config,
      permits (fun w => Serving (fun _ => True) HonestWrite w.1) (Prog.ask r next, w) choice ∧
        serve (recorded (Connection.answer me)) (Prog.ask r next, w) choice = some config

/-- `do_write` sends each byte of the buffer once, to its place in the file, whatever the order of
the replies, as long as the file does not grow beyond 64 bits and no request of several has the id
of a finished one. -/
theorem doWrite_writes (buffer : Bytes) (h : OpenHandle) (k : Connection) (me fuel : Nat)
    (small : buffer.length < 2 ^ 31) (direct : h.offset + buffer.length < 2 ^ 64) (numbered : Numbered k buffer)
    (enough : buffer.length + 1 < fuel) (free : k.holder = none) (quiet : k.inflight = [])
    (bound : k.msgId < 2 ^ 32) :
    Acc (fun next config => ∃ choice, serve (recorded (Connection.answer me)) config choice = some next)
        (doWrite fuel buffer h, k, []) ∧
      ∀ config, Run (serve (recorded (Connection.answer me)))
          (permits fun w => Serving (fun _ => True) HonestWrite w.1) (doWrite fuel buffer h, k, []) config →
        config.2.1.inflight.length ≤ maxReq ∧ WriteGoes buffer me h config.1 config.2 := by
  refine ⟨serve_finite _ _ _, ?_⟩
  rintro ⟨p, k', log⟩ run
  have safe := safe_run _ _ (doWrite_safe me small direct numbered enough free quiet bound) run
  cases p with
  | done out => exact ⟨safe.2, safe.1⟩
  | stop reason => exact safe.elim
  | ask r next =>
    have bounded : Bounded HonestWrite k' r := safe.1
    refine ⟨bounded.short, ?_⟩
    obtain ⟨choice, given, fits, answered⟩ := bounded_answer (fun _ => True) me bounded fun _ => trivial
    exact ⟨choice, (next given.1, given.2, log ++ [r]), fits, by simp [serve, recorded, answered]⟩

end Writing

section Runs

variable {ids : Nat → Prop} {honest : Query → Answer → Prop} {me : Nat} {h h' : OpenHandle} {k k' : Connection}
  {buffer : Bytes} {x y : WriteState} {i : Fin queueLen} {id : Nat}

theorem requestWrite_reaches (len : Nat) (more : x.currOffset < buffer.length) (free : x.queue.isFull = false)
    (fine : ids k.msgId) (isLen : min (buffer.length - x.currOffset) defaultReqLen = len) :
    Reaches (Connection.answer me) (Serving ids honest) (requestWrite buffer x) h k
      (.again { x with
        currOffset := (x.currOffset + len) % 2 ^ 32
        queue := x.queue.push ⟨k.msgId, len, x.currOffset⟩ }) h
      (k.sending me ⟨k.msgId, writeQuery h buffer ⟨k.msgId, len, x.currOffset⟩⟩) := by
  subst isLen
  rw [requestWrite, if_pos ⟨more, free⟩]
  exact (reaches_getId fine).bind (reaches_get.bind ((reaches_send _).bind reaches_pure))

theorem requestWrite_stops (all : buffer.length ≤ x.currOffset) :
    Reaches (Connection.answer me) (Serving ids honest) (requestWrite buffer x) h k (.finish x) h k := by
  rw [requestWrite, if_neg (by omega)]
  exact reaches_pure

theorem requestWrites_two (size : buffer.length = defaultReqLen + 1) (fine : ids k.msgId)
    (next : ids ((k.msgId + 1) % 2 ^ 32)) :
    Reaches (Connection.answer me) (Serving ids honest)
      (loop Stop.outOfFuel (requestWrite buffer) queueLen ⟨0, 0, newQueue⟩) h k
      ⟨0, defaultReqLen + 1, (newQueue.push ⟨k.msgId, defaultReqLen, 0⟩).push
        ⟨(k.msgId + 1) % 2 ^ 32, 1, defaultReqLen⟩⟩ h
      ((k.sending me ⟨k.msgId, writeQuery h buffer ⟨k.msgId, defaultReqLen, 0⟩⟩).sending me
        ⟨(k.msgId + 1) % 2 ^ 32, writeQuery h buffer ⟨(k.msgId + 1) % 2 ^ 32, 1, defaultReqLen⟩⟩) := by
  have block : 0 < defaultReqLen := by decide
  have first : (0 + defaultReqLen) % 2 ^ 32 = defaultReqLen := by decide
  have second : (defaultReqLen + 1) % 2 ^ 32 = defaultReqLen + 1 := by decide
  apply Reaches.again (requestWrite_reaches defaultReqLen _ rfl fine _)
  · dsimp only
    rw [first]
    apply Reaches.again (requestWrite_reaches 1 _ rfl next _)
    · dsimp only
      rw [second]
      apply Reaches.finish (requestWrite_stops _)
      show buffer.length ≤ defaultReqLen + 1
      omega
    · show defaultReqLen < buffer.length
      omega
    · show min (buffer.length - defaultReqLen) _ = _
      omega
  · show 0 < buffer.length
    omega
  · show min (buffer.length - 0) _ = _
    omega

theorem writeRound_reaches (place : Nat) {r : Step WriteState WriteResult} {k'' : Connection} {sent : Nat × Packet}
    {answer : Answer} (goes : x.bytesWritten < buffer.length)
    (filled : Reaches (Connection.answer me) (Serving ids honest)
      (loop Stop.outOfFuel (requestWrite buffer) queueLen x) h k y h k')
    (found : k'.inflight[place]? = some sent) (fair : honest sent.2.query answer)
    (received : Reaches (Connection.answer me) (Serving ids honest) (receiveWrite y ⟨sent.2.id, answer⟩) h
      (k'.received place) r h' k'') :
    Reaches (Connection.answer me) (Serving ids honest) (writeRound buffer x) h k r h' k'' := by
  rw [writeRound, if_pos goes]
  exact filled.bind ((reaches_recv found fair).bind received)

theorem receiveWrite_found (found : x.queue.find (·.id = id) = some i) :
    Reaches (Connection.answer me) (Serving ids honest) (receiveWrite x ⟨id, .status fxOk⟩) h k
      (.again (x.answered i)) h k := by
  rw [receiveWrite]
  dsimp only
  rw [if_neg (by simp), found]
  exact reaches_pure

theorem receiveWrite_unexpected (unknown : x.queue.find (·.id = id) = none) :
    Reaches (Connection.answer me) (Serving ids honest) (receiveWrite x ⟨id, .status fxOk⟩) h k
      (.finish ⟨.protocolError, x.bytesWritten⟩) h { k with holder := none } := by
  rw [receiveWrite]
  dsimp only
  rw [if_neg (by simp), unknown]
  exact reaches_unlock.bind reaches_pure

theorem writeRound_reaches_end (all : buffer.length ≤ x.bytesWritten) :
    Reaches (Connection.answer me) (Serving ids honest) (writeRound buffer x) h k (.finish ⟨.ok, x.bytesWritten⟩)
      { h with offset := (h.offset + x.bytesWritten) % 2 ^ 64 } { k with holder := none } := by
  rw [writeRound, if_neg (by omega)]
  exact reaches_modify.bind (reaches_unlock.bind reaches_pure)

/-- The reply to the second of two requests comes first. -/
theorem doWrite_reordered (size : buffer.length = defaultReqLen + 1) (fuel : Nat) (h : OpenHandle) :
    ∃ r h' k', Reaches (Connection.answer 0) (Serving (fun _ => True) HonestWrite) (doWrite (fuel + 3) buffer) h
      freshConnection r h' k' := by
  have block : 0 < defaultReqLen := by decide
  refine ⟨_, _, _, (reaches_lock rfl).bind (.again (writeRound_reaches 1 ?_ (requestWrites_two size trivial trivial)
    rfl (honestWrite_ok _ _ _) (receiveWrite_found (i := ⟨1, by decide⟩) rfl)) (.again (writeRound_reaches 0 ?_
      (.finish (requestWrite_stops ?_)) rfl (honestWrite_ok _ _ _) (receiveWrite_found (i := ⟨0, by decide⟩) rfl))
        (.finish (writeRound_reaches_end ?_))))⟩
  · show 0 < buffer.length
    omega
  · show 1 < buffer.length
    omega
  · show buffer.length ≤ defaultReqLen + 1
    omega
  · show buffer.length ≤ 1 + defaultReqLen
    omega

theorem doWrite_writes_reordered : ∃ buffer h' w, buffer.length = defaultReqLen + 1 ∧
    Reaches (recorded (Connection.answer 0)) (fun w => Serving (fun _ => True) HonestWrite w.1)
      (doWrite (defaultReqLen + 3) buffer) (openFile 1) (freshConnection, []) ⟨.ok, buffer.length⟩ h' w ∧
    WriteDone buffer (openFile 1) ⟨.ok, buffer.length⟩ h' w.2 := by
  have size : (List.replicate (defaultReqLen + 1) (0 : UInt8)).length = defaultReqLen + 1 := List.length_replicate
  generalize List.replicate (defaultReqLen + 1) (0 : UInt8) = buffer at size
  obtain ⟨r, h', k', run⟩ := doWrite_reordered size defaultReqLen (openFile 1)
  obtain ⟨log, run⟩ := run_recorded _ _ run []
  have done : WriteDone buffer (openFile 1) r h' log :=
    ((doWrite_writes buffer (openFile 1) freshConnection 0 (defaultReqLen + 3) (by rw [size]; decide)
      (by rw [size]; decide) (Or.inr (by rw [size]; decide)) (by rw [size]; decide) rfl rfl (by decide)).2 _ run).2
  obtain rfl := done.result
  exact ⟨buffer, h', _, size, run, done⟩

/-- A connection whose ids have wrapped around. -/
def wrappedConnection : Connection := ⟨3, 0, 1, 0, none, [], [], 1⟩

/-- The reply to the second of two requests comes first. The first request has the id of a finished
one and is popped with it. -/
theorem doWrite_secondFirst (size : buffer.length = defaultReqLen + 1) (fuel : Nat) (h : OpenHandle) :
    ∃ h' k', Reaches (Connection.answer 0) (Serving (fun _ => True) HonestWrite) (doWrite (fuel + 2) buffer) h
      wrappedConnection ⟨.protocolError, 1⟩ h' k' := by
  have block : 0 < defaultReqLen := by decide
  refine ⟨_, _, (reaches_lock rfl).bind (.again (writeRound_reaches 1 ?_ (requestWrites_two size trivial trivial)
    rfl (honestWrite_ok _ _ _) (receiveWrite_found (i := ⟨1, by decide⟩) rfl)) (.finish (writeRound_reaches 0 ?_
      (.finish (requestWrite_stops ?_)) rfl (honestWrite_ok _ _ _) (receiveWrite_unexpected rfl))))⟩
  · show 0 < buffer.length
    omega
  · show 1 < buffer.length
    omega
  · show buffer.length ≤ defaultReqLen + 1
    omega

/-- When the ids have wrapped around, a request has the id of a finished one, and its reply is
taken for a reply to nothing. -/
theorem doWrite_loses : ¬ ∀ (buffer : Bytes) (h : OpenHandle) (k : Connection), buffer.length < 2 ^ 31 →
    h.offset + buffer.length < 2 ^ 64 → k.msgId < 2 ^ 32 → k.holder = none → k.inflight = [] →
    ∀ r h' w, Reaches (recorded (Connection.answer 0)) (fun w => Serving (fun _ => True) HonestWrite w.1)
      (doWrite (buffer.length + 2) buffer) h (k, []) r h' w → r = ⟨.ok, buffer.length⟩ := by
  intro claim
  have size : (List.replicate (defaultReqLen + 1) (0 : UInt8)).length = defaultReqLen + 1 := List.length_replicate
  obtain ⟨h', k', run⟩ := doWrite_secondFirst size (defaultReqLen + 1) (openFile 0)
  obtain ⟨log, run⟩ := run_recorded _ _ run []
  have done := claim (List.replicate (defaultReqLen + 1) 0) (openFile 0) wrappedConnection
    (by rw [size]; decide) (by rw [size]; decide) (by decide) rfl rfl ⟨.protocolError, 1⟩ h' (k', log)
    (by rw [size]; exact run)
  cases done

end Runs

end GnomeVfs.Sftp
