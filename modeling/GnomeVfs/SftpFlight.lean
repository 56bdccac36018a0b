import Mathlib.Data.List.Perm.Basic
import Mathlib.Data.List.Nodup
import GnomeVfs.SftpTransfer

/- The requests of the queue that are not finished are the requests in flight. -/
namespace GnomeVfs.Sftp

open Interaction Action

section Live

/-- The requests of the queue that wait for an answer. -/
def live (queue : RingQueue Request queueLen) : List Request := queue.items.filter fun req => !req.finished

variable {queue : RingQueue Request queueLen} {i : Fin queueLen} {req : Request}

theorem mem_live : req ∈ live queue ↔ req ∈ queue.items ∧ req.id ≠ 0 := by
  simp [live, Request.finished]

theorem live_newQueue : live newQueue = [] := rfl

theorem length_live_le (queue : RingQueue Request queueLen) : (live queue).length ≤ maxReq := by
  have short := RingQueue.length_items_lt queue
  have fewer : (live queue).length ≤ queue.items.length := List.length_filter_le _ _
  have slots : queueLen = maxReq + 1 := rfl
  omega

theorem live_push (free : queue.isFull = false) (waits : req.id ≠ 0) : live (queue.push req) = live queue ++ [req] := by
  rw [live, live, RingQueue.items_push queue req free, List.filter_append]
  simp [Request.finished, waits]

theorem live_popWhile (queue : RingQueue Request queueLen) : live (queue.popWhile Request.finished) = live queue := by
  rw [live, live, RingQueue.items_popWhile]
  induction queue.items with
  | nil => rfl
  | cons first rest ih =>
    cases done : first.finished with
    | true => simp [List.dropWhile_cons_of_pos done, done, ih]
    | false => simp [List.dropWhile_cons_of_neg, done]

/-- Only the request of the slot changes. -/
theorem live_set (holds : queue.Holds i) (waits : (queue.slots i).id ≠ 0) :
    ∃ rest, (live queue).Perm (queue.slots i :: rest) ∧
      (∀ done : Request, done.id = 0 → (live (queue.set i done)).Perm rest) ∧
      ∀ next : Request, next.id ≠ 0 → (live (queue.set i next)).Perm (next :: rest) := by
  have found := RingQueue.items_place holds
  obtain ⟨inside, here⟩ := List.getElem?_eq_some_iff.mp found
  have split : queue.items = queue.items.take (queue.place i) ++ queue.slots i ::
      queue.items.drop (queue.place i + 1) := by
    rw [← here, List.getElem_cons_drop, List.take_append_drop]
  have written : ∀ other : Request, live (queue.set i other) =
      (queue.items.take (queue.place i) ++ other :: queue.items.drop (queue.place i + 1)).filter
        fun req => !req.finished := by
    intro other
    rw [live, RingQueue.items_set holds, List.set_eq_take_append_cons_drop, if_pos inside]
  refine ⟨(queue.items.take (queue.place i)).filter (fun req => !req.finished) ++
    (queue.items.drop (queue.place i + 1)).filter fun req => !req.finished, ?_, ?_, ?_⟩
  · rw [live]
    nth_rewrite 1 [split]
    rw [List.filter_append, List.filter_cons_of_pos (by simp [Request.finished, waits])]
    exact List.perm_middle
  · intro done finished
    rw [written, List.filter_append, List.filter_cons_of_neg (by simp [Request.finished, finished])]
  · intro next waits
    rw [written, List.filter_append, List.filter_cons_of_pos (by simp [Request.finished, waits])]
    exact List.perm_middle

/-- The first request of the queue waits for an answer. -/
def Popped (queue : RingQueue Request queueLen) : Prop := ∀ req ∈ queue.items.head?, req.id ≠ 0

theorem Popped.new : Popped newQueue := by
  intro req member
  cases member

theorem Popped.push (popped : Popped queue) (free : queue.isFull = false) (waits : req.id ≠ 0) :
    Popped (queue.push req) := by
  intro first member
  rw [RingQueue.items_push queue req free] at member
  cases shape : queue.items with
  | nil =>
    rw [shape] at member
    cases member
    exact waits
  | cons head rest =>
    rw [shape] at member
    exact popped first (by rw [shape]; exact member)

theorem Popped.popWhile (queue : RingQueue Request queueLen) : Popped (queue.popWhile Request.finished) := by
  intro req member
  rw [RingQueue.items_popWhile] at member
  have waits := List.head?_dropWhile_not Request.finished queue.items
  rw [Option.mem_def.mp member] at waits
  simpa [Request.finished] using waits

theorem Popped.items_nil (popped : Popped queue) (none : live queue = []) : queue.items = [] := by
  cases shape : queue.items with
  | nil => rfl
  | cons req rest =>
    have waits := popped req (by simp [shape])
    have member : req ∈ live queue := mem_live.mpr ⟨by simp [shape], waits⟩
    rw [none] at member
    cases member

theorem Popped.not_full (popped : Popped queue) (none : live queue = []) : queue.isFull ≠ true := by
  rw [Ne, RingQueue.isFull_iff, popped.items_nil none]
  decide

end Live

section Flight

/-- What the operation `me` has in flight: the requests of its queue that wait for an answer. -/
structure Flight (me : Nat) (query : Request → Query) (k : Connection)
    (queue : RingQueue Request queueLen) : Prop where
  sent : k.inflight.Perm ((live queue).map fun req => (me, ⟨req.id, query req⟩))
  distinct : ((live queue).map Request.id).Nodup
  below : k.msgId = 0 ∨ ∀ req ∈ live queue, req.id < k.msgId
  bound : k.msgId < 2 ^ 32

variable {me : Nat} {query : Request → Query} {k : Connection} {queue : RingQueue Request queueLen}
  {i : Fin queueLen}

theorem Flight.length (flight : Flight me query k queue) : k.inflight.length = (live queue).length := by
  rw [flight.sent.length_eq, List.length_map]

theorem Flight.new (empty : k.inflight = []) (bound : k.msgId < 2 ^ 32) : Flight me query k newQueue := by
  refine ⟨?_, ?_, Or.inr ?_, bound⟩
  · rw [empty, live_newQueue]
    rfl
  · simp [live_newQueue]
  · simp [live_newQueue]

theorem Flight.popWhile (flight : Flight me query k queue) :
    Flight me query k (queue.popWhile Request.finished) := by
  refine ⟨?_, ?_, ?_, flight.bound⟩
  · rw [live_popWhile]
    exact flight.sent
  · rw [live_popWhile]
    exact flight.distinct
  · rw [live_popWhile]
    exact flight.below

/-- The connection behind `sftp_connection_get_id` and a request under that id. -/
def Connection.sending (k : Connection) (me : Nat) (packet : Packet) : Connection :=
  { k with msgId := (k.msgId + 1) % 2 ^ 32, inflight := k.inflight ++ [(me, packet)] }

/-- The connection behind a reply. -/
def Connection.received (k : Connection) (place : Nat) : Connection :=
  { k with inflight := k.inflight.eraseIdx place }

theorem Flight.send (flight : Flight me query k queue) {other : RingQueue Request queueLen} {req : Request}
    (numbered : k.msgId ≠ 0) (same : req.id = k.msgId) (more : (live other).Perm (req :: live queue)) :
    Flight me query (k.sending me ⟨k.msgId, query req⟩) other := by
  have below : ∀ before ∈ live queue, before.id < k.msgId := flight.below.resolve_left numbered
  have bound := flight.bound
  refine ⟨?_, ?_, ?_, Nat.mod_lt _ (by decide)⟩
  · have mapped := more.map fun req => (me, (⟨req.id, query req⟩ : Packet))
    rw [List.map_cons, same] at mapped
    refine List.Perm.trans ?_ mapped.symm
    exact (List.perm_append_singleton _ _).trans (flight.sent.cons _)
  · rw [(more.map Request.id).nodup_iff, List.map_cons, List.nodup_cons]
    refine ⟨?_, flight.distinct⟩
    intro member
    obtain ⟨before, inside, equal⟩ := List.mem_map.mp member
    have := below before inside
    omega
  · by_cases last : k.msgId + 1 = 2 ^ 32
    · left
      show (k.msgId + 1) % 2 ^ 32 = 0
      rw [last, Nat.mod_self]
    · right
      intro before member
      show before.id < (k.msgId + 1) % 2 ^ 32
      rw [Nat.mod_eq_of_lt (by omega)]
      rcases List.mem_cons.mp (more.mem_iff.mp member) with rfl | older
      · omega
      · have := below before older
        omega

theorem Flight.found (flight : Flight me query k queue) {place : Nat} {sent : Nat × Packet}
    (answered : k.inflight[place]? = some sent) :
    ∃ i, queue.find (·.id = sent.2.id) = some i ∧ queue.Holds i ∧ (queue.slots i).id ≠ 0 ∧
      queue.slots i ∈ live queue ∧ sent = (me, ⟨(queue.slots i).id, query (queue.slots i)⟩) := by
  have member := flight.sent.mem_iff.mp (List.mem_of_getElem? answered)
  obtain ⟨req, waits, rfl⟩ := List.mem_map.mp member
  obtain ⟨inside, positive⟩ := mem_live.mp waits
  obtain ⟨i, found, holds, fits, listed⟩ := RingQueue.find_mem (·.id = req.id) inside (by simp)
  have same : (queue.slots i).id = req.id := by simpa using fits
  have here : queue.slots i ∈ live queue := mem_live.mpr ⟨listed, by rw [same]; exact positive⟩
  have equal : queue.slots i = req := List.inj_on_of_nodup_map flight.distinct here waits same
  exact ⟨i, found, holds, by rw [same]; exact positive, here, by rw [equal]⟩

theorem Flight.exists_sent (flight : Flight me query k queue) (some : live queue ≠ []) :
    ∃ i, queue.slots i ∈ live queue ∧
      k.inflight[0]? = Option.some (me, ⟨(queue.slots i).id, query (queue.slots i)⟩) := by
  cases shape : k.inflight with
  | nil =>
    have length := flight.length
    rw [shape, List.length_nil] at length
    exact absurd (List.length_eq_zero_iff.mp length.symm) some
  | cons sent rest =>
    have answered : k.inflight[0]? = Option.some sent := by rw [shape, List.getElem?_cons_zero]
    obtain ⟨i, -, -, -, member, rfl⟩ := flight.found answered
    exact ⟨i, member, rfl⟩

theorem Flight.finish (flight : Flight me query k queue) {place : Nat}
    (answered : k.inflight[place]? = some (me, ⟨(queue.slots i).id, query (queue.slots i)⟩))
    {other : RingQueue Request queueLen} (less : (live queue).Perm (queue.slots i :: live other)) :
    Flight me query (k.received place) other := by
  refine ⟨?_, ?_, ?_, flight.bound⟩
  · obtain ⟨inside, here⟩ := List.getElem?_eq_some_iff.mp answered
    have taken := List.getElem_cons_eraseIdx_perm inside
    rw [here] at taken
    have mapped := less.map fun req => (me, (⟨req.id, query req⟩ : Packet))
    rw [List.map_cons] at mapped
    exact (taken.trans (flight.sent.trans mapped)).cons_inv
  · have distinct := flight.distinct
    rw [(less.map Request.id).nodup_iff, List.map_cons, List.nodup_cons] at distinct
    exact distinct.2
  · refine flight.below.imp_right ?_
    intro below req member
    exact below req (less.mem_iff.mpr (List.mem_cons_of_mem _ member))

end Flight

section Rules

/-- A server and an id counter of which something is known: the ids that are given out satisfy
`ids`, the connection does not break, and each request gets an answer that is `honest`. -/
def Serving (ids : Nat → Prop) (honest : Query → Answer → Prop) (k : Connection) (choice : Choice) :
    ConnReq → Prop
  | .getId => ids k.msgId
  | .recv =>
    match choice with
    | .reply place answer => ∀ sent ∈ k.inflight[place]?, honest sent.2.query answer
    | _ => False
  | _ => True

instance {ids : Nat → Prop} {honest : Query → Answer → Prop} [DecidablePred ids]
    [∀ query, DecidablePred (honest query)] (k : Connection) (choice : Choice) :
    DecidablePred (Serving ids honest k choice)
  | .getId => inferInstanceAs (Decidable (ids k.msgId))
  | .recv =>
    match choice with
    | .reply place answer =>
      inferInstanceAs (Decidable (∀ sent ∈ k.inflight[place]?, honest sent.2.query answer))
    | .go | .broken _ | .connected _ | .refused _ => .isFalse id
  | .lock | .unlock | .version | .send _ | .ref | .unref | .expire => .isTrue trivial

/-- There are not too many requests in flight; what is received is the answer to one of them, and
the mutex is free where it is locked. -/
def Bounded (honest : Query → Answer → Prop) (k : Connection) : ConnReq → Prop
  | .recv => k.inflight.length ≤ maxReq ∧
      ∃ (place : Nat) (answer : Answer) (sent : Nat × Packet),
        k.inflight[place]? = some sent ∧ honest sent.2.query answer
  | .lock => k.inflight.length ≤ maxReq ∧ k.holder = none
  | _ => k.inflight.length ≤ maxReq

theorem Bounded.short {honest : Query → Answer → Prop} {k : Connection} {r : ConnReq} (bounded : Bounded honest k r) :
    k.inflight.length ≤ maxReq := by
  cases r with
  | lock => exact bounded.1
  | recv => exact bounded.1
  | _ => exact bounded

theorem Bounded.inflight_ne {honest : Query → Answer → Prop} {k : Connection} (bounded : Bounded honest k .recv) :
    k.inflight ≠ [] := by
  intro none
  obtain ⟨-, place, answer, sent, found, -⟩ := bounded
  rw [none] at found
  cases found

/-- Where the demands are met, the program can go on unless the ids have run out. -/
theorem bounded_answer (ids : Nat → Prop) {honest : Query → Answer → Prop} (me : Nat) {r : ConnReq}
    {k : Connection} (bounded : Bounded honest k r) (numbered : r = .getId → ids k.msgId) :
    ∃ choice given, Serving ids honest k choice r ∧ Connection.answer me k choice r = some given := by
  cases r with
  | lock =>
    refine ⟨.go, ((), { k with holder := some me }), trivial, ?_⟩
    have free : k.holder = none := bounded.2
    simp [Connection.answer, free]
  | recv =>
    obtain ⟨-, place, answer, sent, found, fair⟩ := bounded
    refine ⟨.reply place answer, ((true, ⟨sent.2.id, answer⟩), k.received place), ?_, ?_⟩
    · intro other here
      rw [found] at here
      cases here
      exact fair
    · simp [Connection.answer, found, Connection.received]
  | getId => exact ⟨.go, _, numbered rfl, rfl⟩
  | unlock => exact ⟨.go, _, trivial, rfl⟩
  | version => exact ⟨.go, _, trivial, rfl⟩
  | send packet => exact ⟨.go, _, trivial, rfl⟩
  | ref => exact ⟨.go, _, trivial, rfl⟩
  | unref => exact ⟨.go, _, trivial, rfl⟩
  | expire => exact ⟨.go, _, trivial, rfl⟩

variable {ids : Nat → Prop} {honest : Query → Answer → Prop} {me : Nat} {S : Type} {s : S} {k : Connection}
  {demand : Connection → ConnReq → Prop} {H : Stop → Connection → Prop}

theorem safe_lock {Q : Unit → S → Connection → Prop} (demanded : demand k .lock)
    (next : k.holder = none → Q () s { k with holder := some me }) :
    safe (chosen (Connection.answer me) (Serving ids honest)) demand sftpConnectionLock s Q H k := by
  refine ⟨demanded, ?_⟩
  rintro a k' ⟨choice, -, given⟩
  rw [Connection.answer] at given
  split at given
  · cases given
  · rename_i free
    cases given
    exact next (by simpa using free)

theorem safe_unlock {Q : Unit → S → Connection → Prop} (demanded : demand k .unlock)
    (next : Q () s { k with holder := none }) :
    safe (chosen (Connection.answer me) (Serving ids honest)) demand sftpConnectionUnlock s Q H k := by
  refine ⟨demanded, ?_⟩
  rintro a k' ⟨choice, -, given⟩
  cases given
  exact next

/-- An id is taken and a request is sent under it. -/
theorem safe_getId {Q : Nat → S → Connection → Prop} (demanded : demand k .getId)
    (next : ids k.msgId → Q k.msgId s { k with msgId := (k.msgId + 1) % 2 ^ 32 }) :
    safe (chosen (Connection.answer me) (Serving ids honest)) demand sftpConnectionGetId s Q H k := by
  refine ⟨demanded, ?_⟩
  rintro a k' ⟨choice, fine, given⟩
  cases given
  exact next fine

theorem safe_send {packet : Packet} {Q : Unit → S → Connection → Prop} (demanded : demand k (.send packet))
    (next : Q () s { k with inflight := k.inflight ++ [(me, packet)] }) :
    safe (chosen (Connection.answer me) (Serving ids honest)) demand (bufferSend packet) s Q H k := by
  refine ⟨demanded, ?_⟩
  rintro a k' ⟨choice, -, given⟩
  cases given
  exact next

theorem safe_recv {Q : Bool × Reply → S → Connection → Prop} (demanded : demand k .recv)
    (next : ∀ place sent answer, k.inflight[place]? = some sent → honest sent.2.query answer →
      Q (true, ⟨sent.2.id, answer⟩) s (k.received place)) :
    safe (chosen (Connection.answer me) (Serving ids honest)) demand bufferRecv s Q H k := by
  refine ⟨demanded, ?_⟩
  rintro a k' ⟨choice, fine, given⟩
  cases choice with
  | go => exact fine.elim
  | broken garbage => exact fine.elim
  | connected version => exact fine.elim
  | refused result => exact fine.elim
  | reply place answer =>
    rw [Connection.answer] at given
    obtain ⟨sent, found, same⟩ := Option.map_eq_some_iff.mp given
    cases same
    exact next place sent answer found (fine sent found)

theorem reaches_lock (free : k.holder = none) :
    Reaches (Connection.answer me) (Serving ids honest) sftpConnectionLock s k () s { k with holder := some me } :=
  reaches_ask .go trivial (by simp [Connection.answer, free])

theorem reaches_unlock :
    Reaches (Connection.answer me) (Serving ids honest) sftpConnectionUnlock s k () s { k with holder := none } :=
  reaches_ask .go trivial rfl

theorem reaches_getId (fine : ids k.msgId) :
    Reaches (Connection.answer me) (Serving ids honest) sftpConnectionGetId s k k.msgId s
      { k with msgId := (k.msgId + 1) % 2 ^ 32 } :=
  reaches_ask .go fine rfl

theorem reaches_send (packet : Packet) :
    Reaches (Connection.answer me) (Serving ids honest) (bufferSend packet) s k () s
      { k with inflight := k.inflight ++ [(me, packet)] } :=
  reaches_ask .go trivial rfl

theorem reaches_recv {place : Nat} {sent : Nat × Packet} {answer : Answer} (found : k.inflight[place]? = some sent)
    (fair : honest sent.2.query answer) :
    Reaches (Connection.answer me) (Serving ids honest) bufferRecv s k (true, ⟨sent.2.id, answer⟩) s
      (k.received place) := by
  refine reaches_ask (.reply place answer) ?_ ?_
  · intro other here
    rw [found] at here
    cases here
    exact fair
  · simp [Connection.answer, found, Connection.received]

end Rules

end GnomeVfs.Sftp
