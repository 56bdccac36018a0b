import GnomeVfs.SftpWrite

/- Writing a file, where the server refuses one of the requests: what has been counted by then, and where the
file is left. -/
namespace GnomeVfs.Sftp

open Interaction Action

abbrev ConnEvent := Event ConnReq.Resp

def replyOf : ConnEvent → Option Reply
  | ⟨.recv, got⟩ => some (show Bool × Reply from got).2
  | _ => none

/-- The replies that a run has read, in this order. -/
def replies (trace : List ConnEvent) : List Reply := trace.filterMap replyOf

/-- The reply carries a status that tells of an error. -/
def Reply.Refuses (reply : Reply) : Prop := ∃ code, reply.answer = .status code ∧ code ≠ fxOk

/-- A byte of the buffer has been sent, and the server has said of that request that it is done. -/
def Acknowledged (buffer : Bytes) (h : OpenHandle) (trace : List ConnEvent) (i : Nat) : Prop :=
  ∃ req : Request, req.start ≤ i ∧ i < req.start + req.reqLen ∧ ⟨.send ⟨req.id, writeQuery h buffer req⟩, ()⟩ ∈ trace ∧
    ⟨req.id, .status fxOk⟩ ∈ replies trace

/-- What a failed write is to report: a beginning of the buffer that the server has, and the place behind it. -/
def ReportsPrefix (buffer : Bytes) (h h' : OpenHandle) (r : WriteResult) (trace : List ConnEvent) : Prop :=
  (∀ i < r.bytesWritten, Acknowledged buffer h trace i) ∧ h'.offset = h.offset + r.bytesWritten

section Counting

variable {buffer : Bytes} {h h' : OpenHandle} {x : WriteState} {m trace : List ConnEvent} {reply : Reply}

theorem replies_record (m : List ConnEvent) (e : ConnEvent) : replies (record m e) = replies m ++ (replyOf e).toList := by
  rw [replies, record, List.filterMap_append, List.filterMap_cons, List.filterMap_nil]
  cases replyOf e <;> rfl

theorem replies_quiet {e : ConnEvent} (quiet : replyOf e = none) : replies (record m e) = replies m := by
  rw [replies_record, quiet]
  exact List.append_nil _

/-- As long as the loop of `do_write` goes on, nothing has been refused, and what has been counted is what has been
acknowledged. -/
structure Counting (h : OpenHandle) (x : WriteState) (s : OpenHandle) (m : List ConnEvent) : Prop where
  still : s = h
  granted : ∀ reply ∈ replies m, ¬ reply.Refuses
  counted : x.bytesWritten = 0 ↔ replies m = []
  positive : ∀ req ∈ x.queue.items, 0 < req.reqLen

/-- How `do_write` ends: with all replies granted, or at the first that refuses. -/
def CountedUp (h : OpenHandle) (r : WriteResult) (s : OpenHandle) (m : List ConnEvent) : Prop :=
  (∀ reply ∈ replies m, ¬ reply.Refuses) ∨
    ∃ front last, replies m = front ++ [last] ∧ (∀ reply ∈ front, ¬ reply.Refuses) ∧ last.Refuses ∧ s = h ∧
      (r.bytesWritten = 0 ↔ front = [])

theorem Counting.quiet {e : ConnEvent} (counting : Counting h x h m) (quiet : replyOf e = none) :
    Counting h x h (record m e) := by
  obtain ⟨-, granted, counted, positive⟩ := counting
  rw [← replies_quiet quiet] at granted counted
  exact ⟨rfl, granted, counted, positive⟩

theorem Counting.push {id len : Nat} (counting : Counting h x h m) (free : x.queue.isFull = false) (some : 0 < len) :
    Counting h { x with
      currOffset := (x.currOffset + len) % 2 ^ 32
      queue := x.queue.push ⟨id, len, x.currOffset⟩ } h m := by
  refine ⟨rfl, counting.granted, counting.counted, fun req member => ?_⟩
  have items := RingQueue.items_push x.queue ⟨id, len, x.currOffset⟩ free
  have member : req ∈ (x.queue.push ⟨id, len, x.currOffset⟩).items := member
  rw [items] at member
  obtain old | new := List.mem_append.mp member
  · exact counting.positive req old
  · rw [List.mem_singleton.mp new]
    exact some

theorem wp_requestWrites (counting : Counting h x h m) :
    wp record (loop .outOfFuel (requestWrite buffer) queueLen x) h (Counting h) (fun _ _ => True) m := by
  refine wp_loop (Counting h) (fun x s m counting => ?_) (fun _ _ _ _ => True.intro) queueLen x counting
  obtain rfl := counting.still
  rw [requestWrite, wp_ite]
  constructor
  · rintro ⟨more, free⟩ id ⟨⟩
    have block : 0 < min (buffer.length - x.currOffset) defaultReqLen :=
      Nat.lt_min.mpr ⟨Nat.sub_pos_of_lt more, by decide⟩
    exact ((counting.push free block).quiet rfl).quiet rfl
  · exact fun _ => counting

theorem Counting.answered {i : Fin queueLen} {id : Nat} {ok : Bool} (counting : Counting h x h m)
    (found : x.queue.find (·.id = id) = some i) :
    Counting h { x with
      queue := (x.queue.set i { x.queue.slots i with id := 0 }).popWhile Request.finished
      bytesWritten := x.bytesWritten + (x.queue.slots i).reqLen } h
      (record m ⟨.recv, (ok, ⟨id, .status fxOk⟩)⟩) := by
  obtain ⟨-, holds⟩ := RingQueue.find_some found
  have waiting : x.queue.slots i ∈ x.queue.items := List.mem_of_getElem? (RingQueue.items_place holds)
  have some := counting.positive _ waiting
  have read : replies (record m ⟨.recv, (ok, ⟨id, .status fxOk⟩)⟩) = replies m ++ [⟨id, .status fxOk⟩] :=
    replies_record m _
  refine ⟨rfl, ?_, ?_, ?_⟩
  · intro reply member
    rw [read] at member
    obtain old | new := List.mem_append.mp member
    · exact counting.granted reply old
    · rw [List.mem_singleton.mp new]
      rintro ⟨code, same, refused⟩
      cases same
      exact refused rfl
  · rw [read]
    have more : x.bytesWritten + (x.queue.slots i).reqLen ≠ 0 := by omega
    have read : replies m ++ [⟨id, .status fxOk⟩] ≠ [] := List.append_ne_nil_of_right_ne_nil _ (List.cons_ne_nil _ _)
    exact ⟨fun none => absurd none more, fun none => absurd none read⟩
  · intro req member
    have member : req ∈ ((x.queue.set i { x.queue.slots i with id := 0 }).popWhile Request.finished).items := member
    rw [RingQueue.items_popWhile, RingQueue.items_set holds] at member
    obtain old | rfl := List.mem_or_eq_of_mem_set ((List.dropWhile_sublist _).subset member)
    · exact counting.positive req old
    · exact some

theorem CountedUp.granted {ok : Bool} {r : WriteResult} (counting : Counting h x h m) (grants : ¬ reply.Refuses) :
    CountedUp h r h (record m ⟨.recv, (ok, reply)⟩) := by
  have read : replies (record m ⟨.recv, (ok, reply)⟩) = replies m ++ [reply] := replies_record m _
  refine Or.inl fun other member => ?_
  rw [read] at member
  obtain old | new := List.mem_append.mp member
  · exact counting.granted other old
  · rwa [List.mem_singleton.mp new]

theorem CountedUp.quiet {e : ConnEvent} {r : WriteResult} {s : OpenHandle} (up : CountedUp h r s m)
    (quiet : replyOf e = none) : CountedUp h r s (record m e) := by
  unfold CountedUp at up ⊢
  rwa [replies_quiet quiet]

/-- How a round of the loop ends. -/
def RoundCounted (h : OpenHandle) : Step WriteState WriteResult → OpenHandle → List ConnEvent → Prop
  | .again x, s, m => Counting h x s m
  | .finish r, s, m => CountedUp h r s m

theorem wp_giveUpWrite {result : VfsResult} (up : CountedUp h ⟨result, x.bytesWritten⟩ h m) :
    wp record (giveUpWrite x result) h (RoundCounted h) (fun _ _ => True) m :=
  fun _ => up.quiet rfl

/-- The status of a reply is looked at before its id. -/
theorem wp_receiveWrite {ok : Bool} (counting : Counting h x h m) :
    wp record (receiveWrite x reply) h (RoundCounted h) (fun _ _ => True) (record m ⟨.recv, (ok, reply)⟩) := by
  obtain ⟨id, answer⟩ := reply
  have other (different : ∀ code, answer ≠ .status code) : ¬ (⟨id, answer⟩ : Reply).Refuses := by
    rintro ⟨code, same, -⟩
    exact different code same
  cases answer with
  | status code =>
    rw [receiveWrite]
    dsimp only
    rw [wp_ite]
    constructor
    · intro refused
      refine wp_giveUpWrite (Or.inr ⟨replies m, ⟨id, .status code⟩, replies_record m _, counting.granted, ?_, rfl,
        counting.counted⟩)
      exact ⟨code, rfl, refused⟩
    · intro granted
      obtain rfl := not_not.mp granted
      have grants : ¬ (⟨id, .status fxOk⟩ : Reply).Refuses := by
        rintro ⟨code, same, refused⟩
        cases same
        exact refused rfl
      cases found : x.queue.find (·.id = id) with
      | none => exact wp_giveUpWrite (.granted counting grants)
      | some i => exact counting.answered found
  | handle _ => exact wp_giveUpWrite (.granted counting (other fun _ => Answer.noConfusion))
  | data _ => exact wp_giveUpWrite (.granted counting (other fun _ => Answer.noConfusion))
  | name _ => exact wp_giveUpWrite (.granted counting (other fun _ => Answer.noConfusion))
  | attrs _ => exact wp_giveUpWrite (.granted counting (other fun _ => Answer.noConfusion))
  | other _ => exact wp_giveUpWrite (.granted counting (other fun _ => Answer.noConfusion))

theorem wp_writeRound (counting : Counting h x h m) :
    wp record (writeRound buffer x) h (RoundCounted h) (fun _ _ => True) m := by
  rw [writeRound, wp_ite]
  constructor
  · intro _
    refine wp_bind.mpr (wp_mono (wp_requestWrites counting) ?_ fun _ _ => id)
    rintro y s m filled ⟨ok, reply⟩
    obtain rfl := filled.still
    exact wp_receiveWrite filled
  · intro _
    -- the events behind the last reply say nothing
    exact fun _ => .quiet (Or.inl counting.granted) rfl

theorem doWrite_counts {fuel : Nat} {r : WriteResult} (run : Runs (doWrite fuel buffer h) trace (.returned (r, h'))) :
    CountedUp h r h' trace := by
  refine wp_trace (Q := fun r s m => CountedUp h r s m) (H := fun _ _ => True) run ?_
  have start : Counting h ⟨0, 0, newQueue⟩ h [⟨.lock, ()⟩] := by
    refine ⟨rfl, ?_, ⟨fun _ => rfl, fun _ => rfl⟩, ?_⟩
    · exact fun _ member => absurd member List.not_mem_nil
    · exact fun _ member => absurd member List.not_mem_nil
  rintro ⟨⟩
  refine wp_loop (Counting h) (fun x s m counting => ?_) (fun _ _ _ _ => True.intro) fuel _ start
  obtain rfl := counting.still
  refine wp_mono (wp_writeRound counting) (fun r s m holds => ?_) fun _ _ => id
  cases r <;> exact holds

/-- A failed write reports a beginning of the buffer where it is nothing: where the first reply refuses. -/
theorem refused_write_reports {fuel : Nat} {r : WriteResult}
    (run : Runs (doWrite fuel buffer h) trace (.returned (r, h'))) (refused : ∃ reply ∈ replies trace, reply.Refuses) :
    ReportsPrefix buffer h h' r trace ↔ ∃ first, (replies trace).head? = some first ∧ first.Refuses := by
  obtain ⟨reply, member, refuses⟩ := refused
  obtain granted | ⟨front, last, read, granted, lastRefuses, rfl, counted⟩ := doWrite_counts run
  · exact absurd refuses (granted reply member)
  constructor
  · rintro ⟨-, moved⟩
    have none : r.bytesWritten = 0 := by omega
    refine ⟨last, ?_, lastRefuses⟩
    rw [read, counted.mp none]
    rfl
  · rintro ⟨first, head, refuses⟩
    have nothing : front = [] := by
      cases front with
      | nil => rfl
      | cons earlier rest =>
        rw [read] at head
        cases head
        exact absurd refuses (granted _ List.mem_cons_self)
    have none : r.bytesWritten = 0 := counted.mpr nothing
    refine ⟨fun i below => ?_, ?_⟩
    · omega
    · rw [none]
      rfl

end Counting

section Gap

variable {buffer : Bytes} {h : OpenHandle} {x y : WriteState} {reply : Reply} {trace : List ConnEvent}

theorem runs_ask (r : ConnReq) (given : r.Resp) : Runs ((Action.ask r : Operation r.Resp) h) [⟨r, given⟩] (.returned (given, h)) :=
  .ask given (.done _)

theorem runs_get : Runs ((get : Operation OpenHandle) h) [] (.returned (h, h)) := .done _

theorem runs_requestWrite (id len : Nat) (more : x.currOffset < buffer.length) (free : x.queue.isFull = false)
    (isLen : min (buffer.length - x.currOffset) defaultReqLen = len) :
    Runs (requestWrite buffer x h) [⟨.getId, id⟩, ⟨.send ⟨id, writeQuery h buffer ⟨id, len, x.currOffset⟩⟩, ()⟩]
      (.returned (.again { x with
        currOffset := (x.currOffset + len) % 2 ^ 32
        queue := x.queue.push ⟨id, len, x.currOffset⟩ }, h)) := by
  subst isLen
  rw [requestWrite, if_pos ⟨more, free⟩]
  exact runs_bind (runs_ask .getId id) (runs_bind runs_get (runs_bind (runs_ask (.send _) ()) (.done _)))

theorem runs_requestWrite_stops (all : buffer.length ≤ x.currOffset) :
    Runs (requestWrite buffer x h) [] (.returned (.finish x, h)) := by
  rw [requestWrite, if_neg (by omega)]
  exact .done _

theorem runs_writeRound {r : Step WriteState WriteResult} {back : List ConnEvent} (goes : x.bytesWritten < buffer.length)
    (filled : Runs (loop Stop.outOfFuel (requestWrite buffer) queueLen x h) trace (.returned (y, h)))
    (received : Runs (receiveWrite y reply h) back (.returned (r, h))) :
    Runs (writeRound buffer x h) (trace ++ ⟨.recv, (true, reply)⟩ :: back) (.returned (r, h)) := by
  rw [writeRound, if_pos goes]
  exact runs_bind filled (runs_bind (runs_ask .recv (true, reply)) received)

theorem runs_receiveWrite_found {id : Nat} {i : Fin queueLen} (found : x.queue.find (·.id = id) = some i) :
    Runs (receiveWrite x ⟨id, .status fxOk⟩ h) [] (.returned (.again (x.answered i), h)) := by
  rw [receiveWrite]
  dsimp only
  rw [if_neg (by simp), found]
  exact .done _

theorem runs_receiveWrite_refused {id code : Nat} (refused : code ≠ fxOk) :
    Runs (receiveWrite x ⟨id, .status code⟩ h) [⟨.unlock, ()⟩]
      (.returned (.finish ⟨sftpStatusToVfsResult code, x.bytesWritten⟩, h)) := by
  rw [receiveWrite]
  dsimp only
  rw [if_pos refused]
  exact runs_bind (runs_ask .unlock ()) (.done _)

/-- The requests for a block and for one byte behind it. -/
def twoRequests (h : OpenHandle) (buffer : Bytes) : List ConnEvent :=
  [⟨.getId, (1 : Nat)⟩, ⟨.send ⟨1, writeQuery h buffer ⟨1, defaultReqLen, 0⟩⟩, ()⟩,
    ⟨.getId, (2 : Nat)⟩, ⟨.send ⟨2, writeQuery h buffer ⟨2, 1, defaultReqLen⟩⟩, ()⟩]

theorem runs_twoRequests (size : buffer.length = defaultReqLen + 1) :
    Runs (loop Stop.outOfFuel (requestWrite buffer) queueLen ⟨0, 0, newQueue⟩ h) (twoRequests h buffer)
      (.returned (⟨0, defaultReqLen + 1, (newQueue.push ⟨1, defaultReqLen, 0⟩).push ⟨2, 1, defaultReqLen⟩⟩, h)) := by
  have block : 0 < defaultReqLen := by decide
  have first : (0 + defaultReqLen) % 2 ^ 32 = defaultReqLen := by decide
  have second : (defaultReqLen + 1) % 2 ^ 32 = defaultReqLen + 1 := by decide
  apply runs_again (runs_requestWrite 1 defaultReqLen _ rfl _)
  · dsimp only
    rw [first]
    apply runs_again (runs_requestWrite 2 1 _ rfl _)
    · dsimp only
      rw [second]
      apply runs_finish (runs_requestWrite_stops _)
      show buffer.length ≤ defaultReqLen + 1
      omega
    · show defaultReqLen < buffer.length
      omega
    · show min (buffer.length - defaultReqLen) _ = _
      omega
  · show 0 < buffer.length
    omega
  · show min (buffer.length - 0) _ = _
    omega

/-- The second request is refused, before the first is answered. -/
def refusedTrace (h : OpenHandle) (buffer : Bytes) : List ConnEvent :=
  ⟨.lock, ()⟩ :: (twoRequests h buffer ++ [⟨.recv, (true, (⟨2, .status 4⟩ : Reply))⟩, ⟨.unlock, ()⟩])

theorem runs_refused (size : buffer.length = defaultReqLen + 1) :
    Runs (doWrite 1 buffer h) (refusedTrace h buffer) (.returned (⟨.generic, 0⟩, h)) := by
  have goes : 0 < buffer.length := by omega
  exact runs_bind (runs_ask .lock ()) (runs_finish (runs_writeRound goes (runs_twoRequests size)
    (runs_receiveWrite_refused (by decide))))

theorem refused_write_reports_nothing : ∃ buffer, buffer.length = defaultReqLen + 1 ∧
    ReportsPrefix buffer (openFile 0) (openFile 0) ⟨.generic, 0⟩ (refusedTrace (openFile 0) buffer) := by
  have size : (List.replicate (defaultReqLen + 1) (0 : UInt8)).length = defaultReqLen + 1 := List.length_replicate
  have refuses : (⟨2, .status 4⟩ : Reply).Refuses := ⟨4, rfl, by decide⟩
  exact ⟨_, size, (refused_write_reports (runs_refused size) ⟨_, List.mem_singleton_self _, refuses⟩).mpr
    ⟨_, rfl, refuses⟩⟩

/-- The second request is done first. Then the first is refused. -/
def gapTrace (h : OpenHandle) (buffer : Bytes) : List ConnEvent :=
  ⟨.lock, ()⟩ :: (twoRequests h buffer ++
    [⟨.recv, (true, (⟨2, .status fxOk⟩ : Reply))⟩, ⟨.recv, (true, (⟨1, .status 4⟩ : Reply))⟩, ⟨.unlock, ()⟩])

theorem runs_gap (size : buffer.length = defaultReqLen + 1) :
    Runs (doWrite 2 buffer h) (gapTrace h buffer) (.returned (⟨.generic, 1⟩, h)) := by
  have block : 0 < defaultReqLen := by decide
  have refused : 4 ≠ fxOk := by decide
  have answered : ((newQueue.push ⟨1, defaultReqLen, 0⟩).push ⟨2, 1, defaultReqLen⟩).find (·.id = 2) =
      some ⟨1, by decide⟩ := rfl
  refine runs_bind (runs_ask .lock ()) (runs_again (runs_writeRound ?_ (runs_twoRequests size)
    (runs_receiveWrite_found answered)) (runs_finish (runs_writeRound ?_ (runs_finish (runs_requestWrite_stops ?_))
      (runs_receiveWrite_refused refused))))
  · show 0 < buffer.length
    omega
  · show 1 < buffer.length
    omega
  · show buffer.length ≤ defaultReqLen + 1
    omega

/-- The first byte is reported as written, which the server has refused, and the offset stays where it was. -/
theorem gap_reported : ∃ buffer trace, Runs (doWrite 2 buffer (openFile 0)) trace (.returned (⟨.generic, 1⟩, openFile 0)) ∧
    (∃ reply ∈ replies trace, reply.Refuses) ∧ ¬ Acknowledged buffer (openFile 0) trace 0 ∧
    ¬ ReportsPrefix buffer (openFile 0) (openFile 0) ⟨.generic, 1⟩ trace := by
  have size : (List.replicate (defaultReqLen + 1) (0 : UInt8)).length = defaultReqLen + 1 := List.length_replicate
  generalize List.replicate (defaultReqLen + 1) (0 : UInt8) = buffer at size
  have first : ¬ Acknowledged buffer (openFile 0) (gapTrace (openFile 0) buffer) 0 := by
    rintro ⟨⟨id, len, start⟩, starts, -, sent, granted⟩
    have second : id = 2 := by
      obtain same | same := List.mem_pair.mp (show _ ∈ [(⟨2, .status fxOk⟩ : Reply), ⟨1, .status 4⟩] from granted)
      · exact congrArg Reply.id same
      · cases congrArg Reply.answer same
    subst second
    have request := List.mem_map_of_mem (f := Event.request) sent
    have place : writeQuery (openFile 0) buffer ⟨2, len, start⟩ = writeQuery (openFile 0) buffer ⟨2, 1, defaultReqLen⟩ := by
      simpa [gapTrace, twoRequests] using request
    obtain rfl : start = 0 := Nat.le_zero.mp starts
    simp only [writeQuery, Query.write.injEq] at place
    exact absurd place.2.1 (by decide)
  refine ⟨buffer, gapTrace (openFile 0) buffer, runs_gap size, ⟨⟨1, .status 4⟩, ?_, 4, rfl, by decide⟩, first, ?_⟩
  · exact List.mem_cons_of_mem _ List.mem_cons_self
  · rintro ⟨acknowledged, -⟩
    exact first (acknowledged 0 Nat.zero_lt_one)

end Gap

end GnomeVfs.Sftp
