import GnomeVfs.SftpBuffer
import GnomeVfs.SftpFlight
import GnomeVfs.Transition

/- What a server can make `do_read` store, whatever it answers. A pointer into the buffer is its distance
from the start of the buffer. What is asked of the server is not kept, because it need not be heeded. -/
namespace GnomeVfs.Sftp.Wire

open Interaction Transition

/-- `SSH2_FXP_STATUS`. -/
def fxpStatus : UInt8 := 101

/-- `SSH2_FXP_DATA`. -/
def fxpData : UInt8 := 103

/-- The variables of `do_read` and the `msg_id` of the connection. Of the replies there is kept what has been copied
into the buffer, with the place it has been copied to, and the places that the end of the file has been told of. -/
structure Reading where
  msgId : Nat
  numBytes : Nat
  bytesRead : Nat
  curr : Nat
  queue : RingQueue Request queueLen
  outstanding : Nat
  gotEof : Bool
  stored : List (Nat × Bytes)
  ends : List Nat

/-- What `buffer_recv` gives: nothing, or a message, with what is in the variables that it is read to:
the type, the id, and the word behind them. -/
structure Message where
  bytes : Bytes
  staleType : Nat → UInt8
  staleId : Nat → UInt8
  staleWord : Nat → UInt8

abbrev Incoming := Option Message

/-- How a round ends: with another round, or with a result. -/
abbrev Round := Step Reading (VfsResult × Reading)

/-- The loop that requests blocks. There is room for so many. -/
def requestBlocks : Nat → Reading → Reading
  | 0, x => x
  | fuel + 1, x =>
    if x.curr < x.numBytes ∧ x.queue.isFull = false then
      let reqLen := min (x.numBytes - x.curr) defaultReqLen
      requestBlocks fuel { x with
        msgId := (x.msgId + 1) % 2 ^ 32
        queue := x.queue.push ⟨x.msgId, reqLen, x.curr⟩
        outstanding := (x.outstanding + 1) % 2 ^ 32
        curr := x.curr + reqLen }
    else x

/-- The request in a slot is replaced, and finished requests are popped from the tail. -/
def Reading.answered (x : Reading) (i : Fin queueLen) (req : Request) : Reading :=
  { x with queue := (x.queue.set i req).popWhile Request.finished }

/-- A status that is `SSH2_FX_EOF`. -/
def receiveEndOfFile (x : Reading) (i : Fin queueLen) : Reading :=
  let req := x.queue.slots i
  let x := { x with
    gotEof := x.gotEof || req.start = 0
    numBytes := min x.numBytes req.start
    ends := x.ends ++ [req.start] }
  x.answered i { req with id := 0 }

/-- `len` bytes are said to be there, and `data` is copied. -/
def storeData (x : Reading) (i : Fin queueLen) (len : Nat) (data : Bytes) : Reading :=
  let req := x.queue.slots i
  let x := { x with stored := x.stored ++ [(req.start, data)], bytesRead := (x.bytesRead + len) % 2 ^ 64 }
  if len < req.reqLen then
    let x' := { x with msgId := (x.msgId + 1) % 2 ^ 32, outstanding := (x.outstanding + 1) % 2 ^ 32 }
    x'.answered i ⟨x.msgId, req.reqLen - len, req.start + len⟩
  else x.answered i { req with id := 0 }

/-- A message in its parts: the type, the id, and what is behind it. -/
def Message.type (m : Message) : UInt8 × Buffer := bufferReadGchar m.staleType (messageOf m.bytes)

def Message.id (m : Message) : UInt32 × Buffer := bufferReadGint32 m.staleId m.type.2

def Message.word (m : Message) : UInt32 × Buffer := bufferReadGint32 m.staleWord m.id.2

/-- The bytes of a `SSH2_FXP_DATA` message that `buffer_read` copies. -/
def Message.data (m : Message) : Bytes := (bufferRead m.word.2 m.word.1.toNat).1

def receiveMessage (x : Reading) (m : Message) : Round :=
  match x.queue.find (·.id = m.id.1.toNat) with
  | none => .finish (.protocolError, x)
  | some i =>
    if m.type.1 = fxpStatus then
      if m.word.1.toNat ≠ fxEof then .finish (sftpStatusToVfsResult m.word.1.toNat, x)
      else .again (receiveEndOfFile x i)
    else if m.type.1 = fxpData then .again (storeData x i m.word.1.toNat m.data)
    else .finish (.protocolError, x)

/-- Whether there is another round. -/
def Reading.goesOn (x : Reading) : Prop := x.bytesRead < x.numBytes ∨ x.outstanding > 0

instance (x : Reading) : Decidable x.goesOn := inferInstanceAs (Decidable (_ ∨ _))

/-- `outstanding--`, of a `guint`. -/
def Reading.received (x : Reading) : Reading := { x with
  outstanding := if x.outstanding = 0 then 2 ^ 32 - 1 else x.outstanding - 1 }

/-- A round up to `buffer_recv`. -/
def Reading.asked (x : Reading) : Reading := (requestBlocks queueLen x).received

/-- One round of the loop of `do_read`. -/
def incomingRound (x : Reading) (incoming : Incoming) : Round :=
  match incoming with
  | none => .finish (.io, x.asked)
  | some m => receiveMessage x.asked m

/-- The state at the head of the loop, with the next message. -/
def Reading.step (x : Reading) (incoming : Incoming) : Option Reading :=
  if x.goesOn then
    match incomingRound x incoming with
    | .again y => some y
    | .finish _ => none
  else none

/-- `do_read` has been called to read `num_bytes` bytes. -/
def Reading.start (msgId numBytes : Nat) : Reading := ⟨msgId, numBytes, 0, 0, newQueue, 0, false, [], []⟩

/-- What `do_read` returns when this message comes next, and what it has done till then. -/
def Reading.returns (x : Reading) (incoming : Incoming) : Option (VfsResult × Reading) :=
  if x.goesOn then
    match incomingRound x incoming with
    | .again _ => none
    | .finish r => some r
  else some (if x.gotEof then .eof else .ok, x)

section Places

/-- The places that a request waits for. -/
def placesFor (req : Request) : List Nat := List.range' req.start req.reqLen

/-- The places that have been written. -/
def placesOf (stored : List (Nat × Bytes)) : List Nat := stored.flatMap fun store => List.range' store.1 store.2.length

/-- Every byte that has been stored lies in a buffer of `n` bytes. -/
def Reading.Inside (x : Reading) (n : Nat) : Prop := ∀ p ∈ placesOf x.stored, p < n

/-- The bytes that are said to have been read have been stored, and are not more than `n`. -/
def Reading.Honest (x : Reading) (n : Nat) : Prop := x.bytesRead ≤ n ∧ ∀ p < x.bytesRead, p ∈ placesOf x.stored

/-- The replies with data are for places in front of those that the end of the file was told of, and of those that no
reply has come for. -/
def Reading.InOrder (x : Reading) : Prop := ∀ store ∈ x.stored, store.2 ≠ [] →
  (∀ gap ∈ x.ends, store.1 < gap) ∧ ∀ req ∈ live x.queue, store.1 < req.start

instance (x : Reading) : Decidable x.InOrder := inferInstanceAs (Decidable (∀ _ ∈ _, _))

/-- No request of the round gets the id of a finished one. A message answers no request that is finished, and one with data
is for no more bytes than the request and has the bytes it is said to have; and the request for what it leaves gets no such
id either. -/
def Reading.Sincere (x : Reading) (incoming : Incoming) : Prop :=
  (∀ req ∈ x.asked.queue.items.drop x.queue.items.length, req.id ≠ 0) ∧
    ∀ m ∈ incoming, ∀ i ∈ x.asked.queue.find (·.id = m.id.1.toNat), (x.asked.queue.slots i).id ≠ 0 ∧
      (m.type.1 = fxpData → m.word.1.toNat ≤ (x.asked.queue.slots i).reqLen ∧ m.data.length = m.word.1.toNat ∧
        (m.word.1.toNat < (x.asked.queue.slots i).reqLen → x.asked.msgId ≠ 0))

instance (x : Reading) (incoming : Incoming) : Decidable (x.Sincere incoming) := inferInstanceAs (Decidable (_ ∧ _))

/-- Where the bytes are that have been requested: each has been stored once, is waited for by one request,
or is behind the end of the file. -/
structure Tiled (n : Nat) (x : Reading) (lost : List Nat) : Prop where
  tiles : (placesOf x.stored ++ (live x.queue).flatMap placesFor ++ lost).Perm (List.range' 0 x.curr)
  ends : ∀ gap ∈ x.ends, gap ∈ lost
  behind : ∀ p ∈ lost, ∃ gap ∈ x.ends, gap ≤ p
  requested : x.curr ≤ n
  upper : x.numBytes ≤ n
  count : x.bytesRead = (placesOf x.stored).length
  waits : ∀ req ∈ live x.queue, 0 < req.reqLen

variable {n : Nat} {x y : Reading} {lost : List Nat} {req : Request}

theorem Tiled.start (msgId n : Nat) : Tiled n (.start msgId n) [] :=
  ⟨List.Perm.nil, fun _ never => absurd never List.not_mem_nil, fun _ never => absurd never List.not_mem_nil, Nat.zero_le n,
    Nat.le_refl n, rfl, fun _ never => absurd never List.not_mem_nil⟩

/-- Only what is stored, what is waited for and how far requests have gone matter. -/
theorem Tiled.congr (tiled : Tiled n x lost) (stored : y.stored = x.stored) (queue : (live y.queue).Perm (live x.queue))
    (curr : y.curr = x.curr) (numBytes : y.numBytes = x.numBytes) (bytesRead : y.bytesRead = x.bytesRead)
    (ends : y.ends = x.ends) : Tiled n y lost := by
  refine ⟨?_, ?_, ?_, ?_, ?_, ?_, ?_⟩
  · rw [stored, curr]
    exact (((queue.flatMap_right placesFor).append_left _).append_right _).trans tiled.tiles
  · rw [ends]
    exact tiled.ends
  · rw [ends]
    exact tiled.behind
  · rw [curr]
    exact tiled.requested
  · rw [numBytes]
    exact tiled.upper
  · rw [bytesRead, stored]
    exact tiled.count
  · exact fun req member => tiled.waits req (queue.mem_iff.mp member)

theorem Tiled.few (tiled : Tiled n x lost) : x.bytesRead ≤ x.curr := by
  have length := tiled.tiles.length_eq
  rw [List.length_append, List.length_append, List.length_range', ← tiled.count] at length
  omega

/-- One more block is requested. -/
theorem Tiled.request (tiled : Tiled n x lost) (more : x.curr < x.numBytes) (free : x.queue.isFull = false)
    (id : x.msgId ≠ 0) (msgId outstanding : Nat) :
    Tiled n { x with
      msgId := msgId
      queue := x.queue.push ⟨x.msgId, min (x.numBytes - x.curr) defaultReqLen, x.curr⟩
      outstanding := outstanding
      curr := x.curr + min (x.numBytes - x.curr) defaultReqLen } lost := by
  have upper := tiled.upper
  have block : 0 < defaultReqLen := by decide
  have live_ : live (x.queue.push ⟨x.msgId, min (x.numBytes - x.curr) defaultReqLen, x.curr⟩) =
      live x.queue ++ [⟨x.msgId, min (x.numBytes - x.curr) defaultReqLen, x.curr⟩] := live_push free id
  refine ⟨?_, tiled.ends, tiled.behind, ?_, upper, tiled.count, ?_⟩
  · dsimp only
    have further : List.range' 0 (x.curr + min (x.numBytes - x.curr) defaultReqLen) =
        List.range' 0 x.curr ++ List.range' x.curr (min (x.numBytes - x.curr) defaultReqLen) := by
      rw [← List.range'_append_1, Nat.zero_add]
    rw [live_, List.flatMap_append, further, ← List.append_assoc, List.append_assoc _ _ lost]
    refine List.Perm.trans (List.perm_append_comm.append_left _) ?_
    rw [← List.append_assoc, List.flatMap_singleton]
    exact tiled.tiles.append_right _
  · show x.curr + _ ≤ n
    omega
  · intro req member
    dsimp only at member
    rw [live_] at member
    rcases List.mem_append.mp member with older | new
    · exact tiled.waits req older
    · rw [List.mem_singleton.mp new]
      show 0 < min _ _
      omega

theorem requestBlocks_items : ∀ (fuel : Nat) (x : Reading), x.queue.items <+: (requestBlocks fuel x).queue.items := by
  intro fuel
  induction fuel with
  | zero => exact fun x => List.prefix_refl _
  | succ fuel ih =>
    intro x
    rw [requestBlocks]
    split
    · rename_i more
      refine List.IsPrefix.trans ?_ (ih _)
      dsimp only
      rw [RingQueue.items_push _ _ more.2]
      exact List.prefix_append _ _
    · exact List.prefix_refl _

theorem requestBlocks_tiled : ∀ (fuel : Nat) {x : Reading}, Tiled n x lost →
    (∀ req ∈ (requestBlocks fuel x).queue.items.drop x.queue.items.length, req.id ≠ 0) →
    Tiled n (requestBlocks fuel x) lost := by
  intro fuel
  induction fuel with
  | zero => exact fun tiled _ => tiled
  | succ fuel ih =>
    intro x tiled fresh
    rw [requestBlocks] at fresh ⊢
    split
    · rename_i more
      rw [if_pos more] at fresh
      dsimp only at fresh
      obtain ⟨new, split⟩ := requestBlocks_items fuel { x with
        msgId := (x.msgId + 1) % 2 ^ 32
        queue := x.queue.push ⟨x.msgId, min (x.numBytes - x.curr) defaultReqLen, x.curr⟩
        outstanding := (x.outstanding + 1) % 2 ^ 32
        curr := x.curr + min (x.numBytes - x.curr) defaultReqLen }
      have pushed := RingQueue.items_push x.queue ⟨x.msgId, min (x.numBytes - x.curr) defaultReqLen, x.curr⟩ more.2
      dsimp only at split
      rw [pushed] at split
      rw [← split, List.append_assoc, List.drop_left] at fresh
      refine ih (tiled.request more.1 more.2 (fresh _ (List.mem_append_left _ (List.mem_singleton.mpr rfl))) _ _) ?_
      dsimp only
      rw [pushed, ← split, List.drop_left]
      exact fun req member => fresh req (List.mem_append_right _ member)
    · exact tiled

variable {i : Fin queueLen} {len : Nat} {data : Bytes}

/-- The first places of a request, and those behind them. -/
theorem places_split (few : len ≤ req.reqLen) (id : Nat) :
    placesFor req = List.range' req.start len ++ placesFor ⟨id, req.reqLen - len, req.start + len⟩ := by
  rw [placesFor, placesFor, List.range'_append_1, Nat.add_sub_cancel' few]

theorem live_answered (x : Reading) (i : Fin queueLen) (req : Request) :
    live (x.answered i req).queue = live (x.queue.set i req) := live_popWhile _

theorem waited_cons {requests rest : List Request} (there : requests.Perm (req :: rest)) :
    (requests.flatMap placesFor).Perm (placesFor req ++ rest.flatMap placesFor) := by
  rw [← List.flatMap_cons]
  exact there.flatMap_right placesFor

/-- The first bytes of what a request waits for are stored. -/
theorem Tiled.store (tiled : Tiled n x lost) (holds : x.queue.Holds i) (waits : (x.queue.slots i).id ≠ 0)
    (few : len ≤ (x.queue.slots i).reqLen) (whole : data.length = len) (small : n < 2 ^ 64)
    (id : len < (x.queue.slots i).reqLen → x.msgId ≠ 0) :
    Tiled n (storeData x i len data) lost := by
  obtain ⟨rest, before, done, next⟩ := live_set holds waits
  have requested := tiled.requested
  have member : x.queue.slots i ∈ live x.queue := before.mem_iff.mpr List.mem_cons_self
  have stored : placesOf (x.stored ++ [((x.queue.slots i).start, data)]) =
      placesOf x.stored ++ List.range' (x.queue.slots i).start len := by
    rw [placesOf, List.flatMap_append, List.flatMap_singleton, whole]
    rfl
  have tiles := (((waited_cons before).append_left (placesOf x.stored)).append_right lost).symm.trans tiled.tiles
  rw [places_split few x.msgId, List.append_assoc (List.range' _ _), ← List.append_assoc (placesOf x.stored)] at tiles
  have count : (x.bytesRead + len) % 2 ^ 64 = (placesOf x.stored ++ List.range' (x.queue.slots i).start len).length := by
    have length := tiles.length_eq
    rw [List.length_append, List.length_append, List.length_append, List.length_range', List.length_range',
      ← tiled.count] at length
    rw [List.length_append, List.length_range', ← tiled.count, Nat.mod_eq_of_lt (by omega)]
  rw [storeData]
  dsimp only
  split
  · rename_i more
    have after := next ⟨x.msgId, (x.queue.slots i).reqLen - len, (x.queue.slots i).start + len⟩ (id more)
    refine ⟨?_, tiled.ends, tiled.behind, requested, tiled.upper, ?_, ?_⟩
    · rw [live_answered]
      show (placesOf (x.stored ++ [((x.queue.slots i).start, data)]) ++ _ ++ lost).Perm _
      rw [stored]
      exact (((waited_cons after).append_left _).append_right lost).trans tiles
    · show (x.bytesRead + len) % 2 ^ 64 = (placesOf (x.stored ++ [((x.queue.slots i).start, data)])).length
      rw [stored, count]
    · intro req there
      rw [live_answered] at there
      rcases List.mem_cons.mp (after.mem_iff.mp there) with rfl | older
      · show 0 < (x.queue.slots i).reqLen - len
        omega
      · exact tiled.waits req (before.mem_iff.mpr (List.mem_cons_of_mem _ older))
  · rename_i all
    have after := done { x.queue.slots i with id := 0 } rfl
    have none : placesFor ⟨x.msgId, (x.queue.slots i).reqLen - len, (x.queue.slots i).start + len⟩ = [] := by
      rw [placesFor, Nat.sub_eq_zero_of_le (by omega)]
      rfl
    rw [none, List.nil_append] at tiles
    refine ⟨?_, tiled.ends, tiled.behind, requested, tiled.upper, ?_, ?_⟩
    · rw [live_answered]
      show (placesOf (x.stored ++ [((x.queue.slots i).start, data)]) ++ _ ++ lost).Perm _
      rw [stored]
      exact (((after.flatMap_right placesFor).append_left _).append_right lost).trans tiles
    · show (x.bytesRead + len) % 2 ^ 64 = (placesOf (x.stored ++ [((x.queue.slots i).start, data)])).length
      rw [stored, count]
    · intro req there
      rw [live_answered] at there
      exact tiled.waits req (before.mem_iff.mpr (List.mem_cons_of_mem _ (after.mem_iff.mp there)))

/-- A request is answered with the end of the file. -/
theorem Tiled.endOfFile (tiled : Tiled n x lost) (holds : x.queue.Holds i) (waits : (x.queue.slots i).id ≠ 0) :
    Tiled n (receiveEndOfFile x i) (lost ++ placesFor (x.queue.slots i)) := by
  obtain ⟨rest, before, done, -⟩ := live_set holds waits
  have after := done { x.queue.slots i with id := 0 } rfl
  have member : x.queue.slots i ∈ live x.queue := before.mem_iff.mpr List.mem_cons_self
  have positive := tiled.waits _ member
  refine ⟨?_, ?_, ?_, tiled.requested, ?_, tiled.count, ?_⟩
  · show (placesOf x.stored ++ (live (Reading.answered _ i _).queue).flatMap placesFor ++ _).Perm _
    rw [live_answered, ← List.append_assoc]
    have tiles := (((waited_cons before).append_left (placesOf x.stored)).append_right lost).symm.trans tiled.tiles
    refine List.Perm.trans ?_ tiles
    have order : (placesOf x.stored ++ rest.flatMap placesFor ++ lost ++ placesFor (x.queue.slots i)).Perm
        (placesOf x.stored ++ (placesFor (x.queue.slots i) ++ rest.flatMap placesFor) ++ lost) := by
      rw [List.append_assoc, List.append_assoc, List.append_assoc (placesOf x.stored)]
      refine List.Perm.append_left _ ((List.perm_append_comm.append_left _).trans ?_)
      rw [← List.append_assoc]
      exact List.perm_append_comm.append_right lost
    exact ((((after.flatMap_right placesFor).append_left _).append_right lost).append_right _).trans order
  · intro gap there
    rcases List.mem_append.mp there with old | new
    · exact List.mem_append_left _ (tiled.ends gap old)
    · rw [List.mem_singleton.mp new]
      exact List.mem_append_right _ (List.mem_range'_1.mpr ⟨Nat.le_refl _, by omega⟩)
  · intro p there
    rcases List.mem_append.mp there with old | new
    · obtain ⟨gap, told, front⟩ := tiled.behind p old
      exact ⟨gap, List.mem_append_left _ told, front⟩
    · exact ⟨_, List.mem_append_right _ (List.mem_singleton.mpr rfl), (List.mem_range'_1.mp new).1⟩
  · have upper := tiled.upper
    show min x.numBytes _ ≤ n
    omega
  · intro req there
    have there : req ∈ live (Reading.answered _ i _).queue := there
    rw [live_answered] at there
    exact tiled.waits req (before.mem_iff.mpr (List.mem_cons_of_mem _ (after.mem_iff.mp there)))

end Places

section Runs

variable {n : Nat} {x y : Reading} {lost : List Nat} {incoming : Incoming} {result : VfsResult}

theorem Tiled.received (tiled : Tiled n x lost) : Tiled n x.received lost := by
  apply tiled.congr <;> simp only [Reading.received, List.Perm.refl]

theorem Tiled.asked (tiled : Tiled n x lost)
    (fresh : ∀ req ∈ x.asked.queue.items.drop x.queue.items.length, req.id ≠ 0) : Tiled n x.asked lost :=
  (requestBlocks_tiled queueLen tiled fresh).received

/-- What is done with a message: the reading breaks off, with nothing stored, or goes on as it should. -/
theorem Tiled.receive {m : Message} (tiled : Tiled n x lost) (small : n < 2 ^ 64)
    (fits : ∀ i ∈ x.queue.find (·.id = m.id.1.toNat), (x.queue.slots i).id ≠ 0 ∧
      (m.type.1 = fxpData → m.word.1.toNat ≤ (x.queue.slots i).reqLen ∧ m.data.length = m.word.1.toNat ∧
        (m.word.1.toNat < (x.queue.slots i).reqLen → x.msgId ≠ 0))) :
    (∃ y lost, receiveMessage x m = .again y ∧ Tiled n y lost) ∨ ∃ result, receiveMessage x m = .finish (result, x) := by
  rw [receiveMessage]
  cases found : x.queue.find (·.id = m.id.1.toNat) with
  | none => exact .inr ⟨.protocolError, rfl⟩
  | some i =>
    obtain ⟨waits, whole⟩ := fits i found
    have holds := (RingQueue.find_some found).2
    dsimp only
    split
    · split
      · exact .inr ⟨_, rfl⟩
      · exact .inl ⟨_, _, rfl, tiled.endOfFile holds waits⟩
    · split
      · rename_i data
        obtain ⟨few, bytes, fresh⟩ := whole data
        exact .inl ⟨_, _, rfl, tiled.store holds waits few bytes small fresh⟩
      · exact .inr ⟨_, rfl⟩

theorem Tiled.round (tiled : Tiled n x lost) (small : n < 2 ^ 64) (sincere : x.Sincere incoming) :
    (∃ y lost, incomingRound x incoming = .again y ∧ Tiled n y lost) ∨
      ∃ result, incomingRound x incoming = .finish (result, x.asked) := by
  obtain ⟨fresh, fits⟩ := sincere
  have asked := tiled.asked fresh
  cases incoming with
  | none => exact .inr ⟨.io, by rw [incomingRound]⟩
  | some m =>
    rw [incomingRound]
    exact asked.receive small (fits m rfl)

theorem Tiled.apart (tiled : Tiled n x lost) :
    (placesOf x.stored ++ (live x.queue).flatMap placesFor ++ lost).Nodup :=
  tiled.tiles.nodup_iff.mpr (List.nodup_range' ..)

/-- What has been requested lies in front of the next request. -/
theorem Tiled.below (tiled : Tiled n x lost) {p : Nat} :
    p < x.curr ↔ p ∈ placesOf x.stored ∨ (∃ req ∈ live x.queue, p ∈ placesFor req) ∨ p ∈ lost := by
  have same := tiled.tiles.mem_iff (a := p)
  rw [List.mem_append, List.mem_append, List.mem_flatMap, List.mem_range'_1, or_assoc] at same
  rw [same]
  omega

theorem Tiled.inside (tiled : Tiled n x lost) : x.Inside n := by
  intro p member
  have requested := tiled.requested
  have here := tiled.below.mpr (.inl member)
  omega

/-- The bytes that are said to have been read are there just when the replies are in order. -/
theorem Tiled.honest_iff (tiled : Tiled n x lost) : x.Honest n ↔ x.InOrder := by
  have few := tiled.few
  have requested := tiled.requested
  obtain ⟨apartLive, -, apart⟩ := List.nodup_append.mp tiled.apart
  obtain ⟨once, -, apartStored⟩ := List.nodup_append.mp apartLive
  have size : (placesOf x.stored).length = (List.range x.bytesRead).length := by
    rw [List.length_range, tiled.count]
  constructor
  · rintro ⟨-, all⟩ store member some_data
    -- as many places are stored as are in front
    have front : (List.range x.bytesRead).Perm (placesOf x.stored) :=
      (List.subperm_of_subset List.nodup_range fun p small => all p (List.mem_range.mp small)).perm_of_length_le
        (Nat.le_of_eq size)
    have length := List.length_pos_of_ne_nil some_data
    have first : store.1 ∈ placesOf x.stored :=
      List.mem_flatMap.mpr ⟨store, member, List.mem_range'_1.mpr ⟨Nat.le_refl _, by omega⟩⟩
    have before := List.mem_range.mp (front.mem_iff.mpr first)
    constructor
    · intro gap told
      by_contra late
      exact apart _ (List.mem_append_left _ (all gap (by omega))) _ (tiled.ends gap told) rfl
    · intro req waiting
      by_contra late
      have positive := tiled.waits req waiting
      have there : req.start ∈ placesFor req := List.mem_range'_1.mpr ⟨Nat.le_refl _, by omega⟩
      exact apartStored _ (all req.start (by omega)) _ (List.mem_flatMap.mpr ⟨req, waiting, there⟩) rfl
  · intro order
    refine ⟨by omega, fun p small => ?_⟩
    by_contra missing
    -- a place is missing, so that another one behind all these is stored
    obtain ⟨q, stored, far⟩ : ∃ q ∈ placesOf x.stored, x.bytesRead ≤ q := by
      by_contra none
      have inside : placesOf x.stored ⊆ List.range x.bytesRead := fun q stored => by
        rw [List.mem_range]
        by_contra far
        exact none ⟨q, stored, by omega⟩
      have same := (List.subperm_of_subset once inside).perm_of_length_le (Nat.le_of_eq size.symm)
      exact missing (same.mem_iff.mpr (List.mem_range.mpr small))
    obtain ⟨store, member, within⟩ := List.mem_flatMap.mp stored
    have within := List.mem_range'_1.mp within
    obtain ⟨gaps, waiting⟩ := order store member (by
      intro empty
      rw [empty, List.length_nil] at within
      omega)
    have reaches : store.1 < p → p ∈ placesOf x.stored := fun behind =>
      List.mem_flatMap.mpr ⟨store, member, List.mem_range'_1.mpr ⟨by omega, by omega⟩⟩
    rcases tiled.below.mp (show p < x.curr by omega) with here | ⟨req, live_, waits⟩ | gone
    · exact missing here
    · have before := waiting req live_
      have after := (List.mem_range'_1.mp waits).1
      exact missing (reaches (by omega))
    · obtain ⟨gap, told, after⟩ := tiled.behind p gone
      have before := gaps gap told
      exact missing (reaches (by omega))

/-- In every run of `do_read` in which every message answers a request that is not finished, with no more
data than was asked for and as much as it says: nothing is stored outside the buffer, and when `do_read`
returns, the bytes that it says it has read have been stored exactly if the replies with data were for places in front
of all that is missing. -/
theorem doRead_stores {msgId n : Nat} (small : n < 2 ^ 64) {x : Reading}
    (run : Run Reading.step Reading.Sincere (.start msgId n) x) :
    x.Inside n ∧ ∀ incoming result y, (x.goesOn → x.Sincere incoming) → x.returns incoming = some (result, y) →
      y.Inside n ∧ (y.Honest n ↔ y.InOrder) := by
  obtain ⟨lost, tiled⟩ : ∃ lost, Tiled n x lost := by
    apply run.keeps (P := fun x => ∃ lost, Tiled n x lost) ⟨[], .start msgId n⟩
    rintro x incoming y ⟨lost, tiled⟩ sincere stepped
    rw [Reading.step] at stepped
    split at stepped
    · rcases tiled.round small sincere with ⟨z, lost', again, after⟩ | ⟨result, finished⟩
      · rw [again] at stepped
        cases stepped
        exact ⟨lost', after⟩
      · rw [finished] at stepped
        cases stepped
    · cases stepped
  refine ⟨tiled.inside, ?_⟩
  intro incoming result y sincere returned
  rw [Reading.returns] at returned
  split at returned
  · rename_i goesOn
    have asked := tiled.asked (sincere goesOn).1
    rcases tiled.round small (sincere goesOn) with ⟨z, lost', again, -⟩ | ⟨reason, finished⟩
    · rw [again] at returned
      cases returned
    · rw [finished] at returned
      cases returned
      exact ⟨asked.inside, asked.honest_iff⟩
  · cases returned
    exact ⟨tiled.inside, tiled.honest_iff⟩

/-- The answer to a request, with this length and data. -/
def dataMessage (id : UInt8) (len : Nat) (data : Bytes) : Incoming :=
  some ⟨[fxpData, 0, 0, 0, id] ++ (BigEndian.encode 4 len ++ data), fun _ => 0, fun _ => 0, fun _ => 0⟩

def endMessage (id : UInt8) : Incoming :=
  some ⟨[fxpStatus, 0, 0, 0, id, 0, 0, 0, 1], fun _ => 0, fun _ => 0, fun _ => 0⟩

/-- Two blocks are asked for. The end of the file is told of the second first; of the first comes one byte, and then the end
of the file. -/
theorem doRead_stores_early : ∃ x, Run Reading.step Reading.Sincere (.start 1 32770) x ∧ x.Inside 32770 ∧
    x.returns none = some (.ok, x) ∧ x.InOrder ∧ x.Honest 32770 := by
  have run : Run Reading.step Reading.Sincere (.start 1 32770) _ :=
    .next (endMessage 3) (.next (dataMessage 1 1 [7]) (.next (endMessage 2) .refl (by decide +kernel) rfl)
      (by decide +kernel) rfl) (by decide +kernel) rfl
  obtain ⟨inside, returns⟩ := doRead_stores (by decide) run
  have order := (returns none .ok _ (fun never => absurd never (by decide)) rfl).2
  exact ⟨_, run, inside, rfl, by decide +kernel, order.mpr (by decide +kernel)⟩

/-- The two bytes of the second come first, and of the first the end of the file is told: two bytes are counted, but not the
first two are there. -/
example : ∃ x, Run Reading.step Reading.Sincere (.start 1 32770) x ∧
    x.returns none = some (.eof, x) ∧ x.bytesRead = 2 ∧ ¬ x.Honest 32770 := by
  have run : Run Reading.step Reading.Sincere (.start 1 32770) _ :=
    .next (endMessage 1) (.next (dataMessage 2 2 [8, 9]) .refl (by decide +kernel) rfl) (by decide +kernel) rfl
  refine ⟨_, run, rfl, rfl, fun honest => ?_⟩
  exact absurd (honest.2 0 (by decide)) (by decide +kernel)

/-- Four bytes are asked for, and five come: the fifth is stored behind the buffer, and all are counted. -/
theorem doRead_overflows : ∃ x, (Reading.start 1 4).step (dataMessage 1 5 [1, 2, 3, 4, 5]) = some x ∧ ¬ x.Inside 4 ∧
    x.returns none = some (.ok, x) ∧ x.bytesRead = 5 := by
  refine ⟨_, rfl, ?_, rfl, rfl⟩
  intro inside
  exact absurd (inside 4 (by decide)) (by decide)

end Runs

end GnomeVfs.Sftp.Wire
