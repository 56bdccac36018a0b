import GnomeVfs.Decompress

/- Reads of what is compressed: each ends, and what has been produced is delivered, unless a fault is met in the middle
of a call. -/
namespace GnomeVfs.Decompress

open Interaction Action

section Invariant

variable {R : Type} (codec : Codec R)

/-- Nothing more is to be got: from the parent, or from the decompressor. -/
def Spent (h : Handle R) (w : World R) : Prop := w.stream = [] ∧ h.input = [] ∨ w.dead.isSome

/-- What a read can still take in; a byte of the parent is first read and then consumed. -/
def pending (h : Handle R) (w : World R) : Nat := 2 * w.stream.length + h.input.length

/-- A fault that has been met is remembered, or it will be met again. -/
structure Settled (h : Handle R) (w : World R) : Prop where
  known : w.faults ≠ [] → h.lastResult ≠ codec.ok ∨ h.lastVfsResult ≠ .ok ∨ Spent h w
  last : h.lastResult ≠ codec.ok → ∃ fault ∈ w.faults, codec.told h.lastResult = some fault.2
  lastVfs : h.lastVfsResult ≠ .ok → ∃ fault ∈ w.faults, h.lastVfsResult = fault.2
  within : ∀ fault ∈ w.faults, fault.1 ≤ w.calls ∧ fault.2 ≠ .ok
  dead : ∀ e, w.dead = some e → codec.fails e = true

/-- The loop of a call that has begun in `w₀`. -/
structure Going (w₀ : World R) (limit : Nat) (x : Out) (h : Handle R) (w : World R) : Prop where
  settled : Settled codec h w
  size : w.size = w₀.size
  calls : w.calls = w₀.calls
  room : x.availOut + x.output.length = w₀.size
  produced : w.produced = w₀.produced ++ x.output
  new : ∃ news, w.faults = w₀.faults ++ news ∧ ∀ fault ∈ news, fault.1 = w₀.calls
  last : h.lastResult ≠ codec.ok → x.availOut = 0
  earlier : w₀.faults ≠ [] → x.output = [] ∧ Spent h w
  less : pending h w ≤ limit

/-- The end of a call that has begun in `w₀`. -/
structure Ended (w₀ : World R) (limit : Nat) (r : VfsResult × Bytes) (h : Handle R) (w : World R) : Prop where
  settled : Settled codec h w
  calls : w.calls = w₀.calls
  produced : w.produced = w₀.produced ++ r.2
  new : ∃ news, w.faults = w₀.faults ++ news ∧ ∀ fault ∈ news, fault.1 = w₀.calls
  outcome : r.1 = .ok ∧ w₀.faults = [] ∨ r.2 = [] ∧ ∃ fault ∈ w.faults, r.1 = fault.2
  less : pending h w ≤ limit

variable {codec} {w₀ w : World R} {limit : Nat} {x : Out} {h : Handle R} {fault : VfsResult}
  {kind : World R → Bytes → Nat → Decoded R → Prop} {H : Stop → World R → Prop} {decoded : Decoded R}

theorem Settled.meets {h' : Handle R} {w' : World R} (settled : Settled codec h w) (failed : fault ≠ .ok)
    (faults : w'.faults = w.faults ++ [(w.calls, fault)]) (calls : w'.calls = w.calls)
    (known : h'.lastResult ≠ codec.ok ∨ h'.lastVfsResult ≠ .ok ∨ Spent h' w')
    (last : h'.lastResult ≠ codec.ok → h'.lastResult = h.lastResult ∨ codec.told h'.lastResult = some fault)
    (lastVfs : h'.lastVfsResult ≠ .ok → h'.lastVfsResult = h.lastVfsResult ∨ h'.lastVfsResult = fault)
    (dead : ∀ e, w'.dead = some e → codec.fails e = true) : Settled codec h' w' := by
  have here : (w.calls, fault) ∈ w'.faults := by
    rw [faults]
    exact List.mem_append_right _ (List.mem_singleton_self _)
  have old : w.faults ⊆ w'.faults := by
    rw [faults]
    exact List.subset_append_left _ _
  refine ⟨fun _ => known, fun set => ?_, fun set => ?_, fun other member => ?_, dead⟩
  · obtain same | told := last set
    · rw [same] at set ⊢
      obtain ⟨other, member, told⟩ := settled.last set
      exact ⟨other, old member, told⟩
    · exact ⟨_, here, told⟩
  · obtain same | told := lastVfs set
    · rw [same] at set ⊢
      obtain ⟨other, member, told⟩ := settled.lastVfs set
      exact ⟨other, old member, told⟩
    · exact ⟨_, here, told⟩
  · rw [faults] at member
    rw [calls]
    obtain before | new := List.mem_append.mp member
    · exact settled.within other before
    · rw [List.mem_singleton.mp new]
      exact ⟨Nat.le_refl _, failed⟩

theorem Going.new_meets {w' : World R} (going : Going codec w₀ limit x h w)
    (faults : w'.faults = w.faults ++ [(w.calls, fault)]) :
    ∃ news, w'.faults = w₀.faults ++ news ∧ ∀ fault ∈ news, fault.1 = w₀.calls := by
  obtain ⟨news, split, numbered⟩ := going.new
  refine ⟨news ++ [(w.calls, fault)], by rw [faults, split, List.append_assoc], fun other member => ?_⟩
  obtain before | new := List.mem_append.mp member
  · exact numbered other before
  · rw [List.mem_singleton.mp new]
    exact going.calls

theorem Going.failed (going : Going codec w₀ limit x h w) (stream : w.stream = []) (input : h.input = [])
    (empty : x.availOut = w₀.size) : Ended codec w₀ limit (w.fault.1, []) h (w.meets w.fault.1) := by
  have none : x.output = [] := List.length_eq_zero_iff.mp (by have := going.room; omega)
  refine ⟨?_, going.calls, ?_, going.new_meets rfl,
    Or.inr ⟨rfl, (w.calls, w.fault.1), ?_, rfl⟩, going.less⟩
  · exact going.settled.meets w.fault.2 rfl rfl (Or.inr (Or.inr (Or.inl ⟨stream, input⟩))) (fun _ => Or.inl rfl)
      (fun _ => Or.inl rfl) going.settled.dead
  · rw [List.append_nil]
    exact going.produced.trans (by rw [none, List.append_nil])
  · exact List.mem_append_right _ (List.mem_singleton_self _)

/-- The parent has failed behind bytes that have been produced. -/
theorem Going.failed_later (going : Going codec w₀ limit x h w) (stream : w.stream = []) (input : h.input = [])
    (some : x.availOut ≠ w₀.size) :
    Going codec w₀ limit x { h with lastVfsResult := w.fault.1 } (w.meets w.fault.1) ∧ w₀.faults = [] := by
  have fresh : w₀.faults = [] := by
    by_contra earlier
    have none := congrArg List.length (going.earlier earlier).1
    have := going.room
    rw [List.length_nil] at none
    omega
  refine ⟨⟨?_, going.size, going.calls, going.room, going.produced, going.new_meets rfl, going.last,
    fun earlier => absurd fresh earlier, going.less⟩, fresh⟩
  exact going.settled.meets w.fault.2 rfl rfl (Or.inr (Or.inr (Or.inl ⟨stream, input⟩))) (fun _ => Or.inl rfl)
    (fun _ => Or.inr rfl) going.settled.dead

theorem Going.given {bytes rest : Bytes} (going : Going codec w₀ limit x h w)
    (some : 0 < bytes.length) (split : w.stream = bytes ++ rest) :
    Going codec w₀ limit x { h with input := bytes } { w with stream := rest } ∧ (w₀.faults ≠ [] → w.dead.isSome) ∧
      pending { h with input := bytes } { w with stream := rest } ≤ pending h w := by
  have length : w.stream.length = bytes.length + rest.length := by rw [split, List.length_append]
  have less : pending { h with input := bytes } { w with stream := rest } ≤ pending h w := by
    show 2 * rest.length + bytes.length ≤ 2 * w.stream.length + h.input.length
    omega
  have dead (spent : Spent h w) : w.dead.isSome := by
    refine spent.resolve_left ?_
    rintro ⟨none, -⟩
    rw [none, List.length_nil] at length
    omega
  obtain ⟨known, last, lastVfs, within, fails⟩ := going.settled
  refine ⟨⟨⟨fun met => ?_, last, lastVfs, within, fails⟩, going.size, going.calls, going.room, going.produced,
    going.new, going.last, fun earlier => ⟨(going.earlier earlier).1, Or.inr (dead (going.earlier earlier).2)⟩,
    Nat.le_trans less going.less⟩, fun earlier => dead (going.earlier earlier).2, less⟩
  exact (known met).imp_right fun rest => rest.imp_right fun spent => Or.inr (dead spent)

theorem safe_request {r : Req} {Q : r.Resp R → Handle R → World R → Prop} :
    safe (codec.env kind) (fun _ _ => True) (request r) h Q H w ↔ ∀ a w', codec.env kind w r a w' → Q a h w' :=
  ⟨fun holds => holds.2, fun holds => ⟨trivial, holds⟩⟩

/-- Where there is room, there are bytes to be decoded behind `fill_buffer`, or the call ends, or the parent has failed
behind bytes that have been produced. -/
theorem safe_fillBuffer (bufsize : Nat) (going : Going codec w₀ limit x h w) :
    safe (codec.env kind) (fun _ _ => True) (fillBuffer bufsize w₀.size x.availOut) h
      (fun r h' w' => (r = .ok → Going codec w₀ limit x h' w' ∧ (w₀.faults ≠ [] → w'.dead.isSome) ∧
          pending h' w' ≤ pending h w) ∧
        (r ≠ .ok → Ended codec w₀ limit (r, []) h' w')) H w := by
  rw [fillBuffer]
  apply safe_bind.mpr
  rw [safe_get, safe_ite]
  constructor
  · intro filled
    refine ⟨fun _ => ⟨going, fun earlier => ?_, Nat.le_refl _⟩, fun never => absurd rfl never⟩
    exact (going.earlier earlier).2.resolve_left fun none => filled none.2
  · intro empty
    have input : h.input = [] := not_not.mp empty
    rw [safe_bind, safe_request]
    rintro ⟨result, bytes⟩ w' given
    dsimp only
    rw [safe_ite]
    obtain ⟨rfl, some, -, rest, split, rfl⟩ | ⟨stream, rfl, rfl, rfl⟩ := given
    · exact ⟨fun never => absurd rfl never, fun _ => ⟨fun _ => going.given some split, fun never => absurd rfl never⟩⟩
    · refine ⟨fun _ => ?_, fun never => absurd w.fault.2 never⟩
      rw [safe_ite]
      constructor
      · exact fun none => ⟨fun never => absurd never w.fault.2, fun _ => going.failed stream input none⟩
      · intro some
        obtain ⟨after, fresh⟩ := going.failed_later stream input some
        exact ⟨fun _ => ⟨after, fun earlier => absurd fresh earlier, Nat.le_refl _⟩, fun never => absurd rfl never⟩

theorem safe_decode {Q : R × Out → Handle R → World R → Prop}
    (answered : ∀ decoded, codec.Answers w h.input x.availOut decoded → kind w h.input x.availOut decoded →
      Q (decoded.result, x.put decoded.output) (h.consume decoded.consumed) (codec.decoded w decoded)) :
    safe (codec.env kind) (fun _ _ => True) (decode x) h Q H w := by
  rw [decode, safe_bind, safe_get, safe_bind, safe_request]
  rintro decoded w' ⟨answers, ofKind, rfl⟩
  exact answered decoded answers ofKind

/-- A decompressor that has met an error gives nothing but that error. -/
theorem Going.alive (going : Going codec w₀ limit x h w) (answers : codec.Answers w h.input x.availOut decoded)
    (fine : codec.fails decoded.result = false) : w.dead = none := by
  cases dead : w.dead with
  | none => rfl
  | some e =>
    have fails := going.settled.dead e dead
    rw [answers.dead e dead] at fine
    rw [fine] at fails
    cases fails

theorem Going.put_room (going : Going codec w₀ limit x h w) (answers : codec.Answers w h.input x.availOut decoded) :
    (x.put decoded.output).availOut + (x.put decoded.output).output.length = w₀.size := by
  have room := going.room
  have output := answers.output
  show x.availOut - decoded.output.length + (x.output ++ decoded.output).length = w₀.size
  rw [List.length_append]
  omega

theorem Going.put_produced (going : Going codec w₀ limit x h w) :
    (codec.decoded w decoded).produced = w₀.produced ++ (x.put decoded.output).output := by
  show w.produced ++ decoded.output = w₀.produced ++ (x.output ++ decoded.output)
  rw [going.produced, List.append_assoc]

theorem pending_consume : pending (h.consume decoded.consumed) (codec.decoded w decoded) ≤ pending h w := by
  show 2 * w.stream.length + (h.input.drop decoded.consumed).length ≤ 2 * w.stream.length + h.input.length
  rw [List.length_drop]
  omega

theorem told_faults (told : codec.told decoded.result = some fault) :
    (codec.decoded w decoded).faults = w.faults ++ [(w.calls, fault)] := by
  rw [Codec.decoded, told]
  rfl

theorem Going.progress (going : Going codec w₀ limit x h w) (fresh : w₀.faults ≠ [] → w.dead.isSome)
    (answers : codec.Answers w h.input x.availOut decoded) (fine : codec.fails decoded.result = false)
    (quiet : codec.told decoded.result = none) (some : 0 < decoded.consumed + decoded.output.length) :
    Going codec w₀ limit (x.put decoded.output) (h.consume decoded.consumed) (codec.decoded w decoded) ∧
      pending (h.consume decoded.consumed) (codec.decoded w decoded) + (x.put decoded.output).availOut <
        pending h w + x.availOut := by
  have alive := going.alive answers fine
  have faults : (codec.decoded w decoded).faults = w.faults := by
    rw [Codec.decoded, quiet]
    exact List.append_nil _
  have dead : (codec.decoded w decoded).dead = none := by
    rw [Codec.decoded, fine]
    exact alive
  have spent (spent : Spent h w) : Spent (h.consume decoded.consumed) (codec.decoded w decoded) := by
    obtain ⟨stream, input⟩ | never := spent
    · refine Or.inl ⟨stream, ?_⟩
      show h.input.drop decoded.consumed = []
      rw [input, List.drop_nil]
    · rw [alive] at never
      cases never
  obtain ⟨known, last, lastVfs, within, fails⟩ := going.settled
  refine ⟨⟨⟨?_, ?_, ?_, ?_, ?_⟩, going.size, going.calls, going.put_room answers, going.put_produced, ?_, fun set => ?_,
    fun earlier => ?_, Nat.le_trans pending_consume going.less⟩, ?_⟩
  · rw [faults]
    exact fun met => (known met).imp_right fun rest => rest.imp_right spent
  · rw [faults]
    exact last
  · rw [faults]
    exact lastVfs
  · rw [faults]
    exact within
  · intro e failed
    rw [dead] at failed
    cases failed
  · rw [faults]
    exact going.new
  · have none := going.last set
    show x.availOut - decoded.output.length = 0
    omega
  · have never := fresh earlier
    rw [alive] at never
    cases never
  · have consumed := answers.consumed
    have output := answers.output
    show 2 * w.stream.length + (h.input.drop decoded.consumed).length + (x.availOut - decoded.output.length) <
      2 * w.stream.length + h.input.length + x.availOut
    rw [List.length_drop]
    omega

/-- The end of the stream. -/
theorem Going.stops (going : Going codec w₀ limit x h w) (fresh : w₀.faults ≠ [] → w.dead.isSome)
    (answers : codec.Answers w h.input x.availOut decoded) (fine : codec.fails decoded.result = false)
    (told : codec.told decoded.result = some fault) (notOk : decoded.result ≠ codec.ok) :
    Ended codec w₀ limit (.ok, (x.put decoded.output).output) { h.consume decoded.consumed with lastResult := decoded.result }
      (codec.decoded w decoded) := by
  have alive := going.alive answers fine
  have first : w₀.faults = [] := by
    by_contra earlier
    have never := fresh earlier
    rw [alive] at never
    cases never
  have dead : (codec.decoded w decoded).dead = none := by
    rw [Codec.decoded, fine]
    exact alive
  have failed : fault ≠ .ok := by
    rintro rfl
    exact codec.told_ne_ok _ told
  refine ⟨?_, going.calls, going.put_produced, going.new_meets (told_faults told), Or.inl ⟨rfl, first⟩,
    Nat.le_trans pending_consume going.less⟩
  refine going.settled.meets failed (told_faults told) rfl (Or.inl notOk) (fun _ => Or.inr told) (fun _ => Or.inl rfl)
    fun e failed => ?_
  rw [dead] at failed
  cases failed

theorem decoded_dead (fails : codec.fails decoded.result = true) :
    (codec.decoded w decoded).dead = some decoded.result := by
  rw [Codec.decoded, fails]
  rfl

theorem Going.settled_fails {h' : Handle R} (going : Going codec w₀ limit x h w) (fails : codec.fails decoded.result = true)
    (told : codec.told decoded.result = some fault)
    (last : h'.lastResult = h.lastResult ∨ h'.lastResult = decoded.result) (lastVfs : h'.lastVfsResult = h.lastVfsResult) :
    Settled codec h' (codec.decoded w decoded) := by
  have failed : fault ≠ .ok := by
    rintro rfl
    exact codec.told_ne_ok _ told
  have spent : Spent h' (codec.decoded w decoded) := Or.inr (by rw [decoded_dead fails]; rfl)
  refine going.settled.meets failed (told_faults told) rfl (Or.inr (Or.inr spent)) (fun _ => ?_) (fun _ => Or.inl lastVfs)
    fun e dead => ?_
  · exact last.imp_right fun same => by rw [same, told]
  · rw [decoded_dead fails] at dead
    cases dead
    exact fails

/-- An error that comes before anything has been produced. -/
theorem Going.fails_first (decoded : Decoded R) (going : Going codec w₀ limit x h w) (fails : codec.fails decoded.result = true)
    (told : codec.told decoded.result = some fault) (start : x.availOut = w₀.size) (nothing : decoded.output = []) :
    Ended codec w₀ limit (fault, []) { h.consume decoded.consumed with lastResult := decoded.result }
      (codec.decoded w decoded) := by
  have empty : x.output = [] := List.length_eq_zero_iff.mp (by have := going.room; omega)
  refine ⟨going.settled_fails fails told (Or.inr rfl) rfl, going.calls, ?_, going.new_meets (told_faults told),
    Or.inr ⟨rfl, (w.calls, fault), ?_, rfl⟩, Nat.le_trans pending_consume going.less⟩
  · rw [going.put_produced]
    show w₀.produced ++ (x.output ++ decoded.output) = _
    rw [empty, nothing, List.nil_append]
  · rw [told_faults told]
    exact List.mem_append_right _ (List.mem_singleton_self _)

/-- An error that comes when the buffer is full. -/
theorem Going.fails_full (h' : Handle R) (going : Going codec w₀ limit x h w) (fresh : w₀.faults ≠ [] → w.dead.isSome)
    (answers : codec.Answers w h.input x.availOut decoded) (fails : codec.fails decoded.result = true)
    (told : codec.told decoded.result = some fault) (full : decoded.output.length = x.availOut) (room : x.availOut ≠ 0)
    (input : h'.input = h.input.drop decoded.consumed)
    (last : h'.lastResult = h.lastResult ∨ h'.lastResult = decoded.result) (lastVfs : h'.lastVfsResult = h.lastVfsResult) :
    Going codec w₀ limit (x.put decoded.output) h' (codec.decoded w decoded) ∧
      pending h' (codec.decoded w decoded) + (x.put decoded.output).availOut < pending h w + x.availOut := by
  have zero : (x.put decoded.output).availOut = 0 := by
    show x.availOut - decoded.output.length = 0
    omega
  have less : pending h' (codec.decoded w decoded) ≤ pending h w := by
    show 2 * w.stream.length + h'.input.length ≤ 2 * w.stream.length + h.input.length
    rw [input, List.length_drop]
    omega
  have alive : w.dead = none := by
    cases dead : w.dead with
    | none => rfl
    | some e =>
      rw [answers.dead e dead] at full
      exact absurd full.symm room
  refine ⟨⟨going.settled_fails fails told last lastVfs, going.size, going.calls, going.put_room answers, going.put_produced,
    going.new_meets (told_faults told), fun _ => zero, fun earlier => ?_, Nat.le_trans less going.less⟩, by omega⟩
  have never := fresh earlier
  rw [alive] at never
  cases never

theorem Going.full (going : Going codec w₀ limit x h w) (full : x.availOut = 0) (some : 0 < w₀.size) :
    Ended codec w₀ limit (.ok, x.output) h w := by
  have first : w₀.faults = [] := by
    by_contra earlier
    have empty := congrArg List.length (going.earlier earlier).1
    have room := going.room
    rw [List.length_nil] at empty
    omega
  exact ⟨going.settled, going.calls, going.produced, going.new, Or.inl ⟨rfl, first⟩, going.less⟩

theorem Settled.again {r : VfsResult} (settled : Settled codec h w) (known : ∃ fault ∈ w.faults, r = fault.2) :
    Ended codec w (pending h w) (r, []) h w :=
  ⟨settled, rfl, (List.append_nil _).symm, ⟨[], (List.append_nil _).symm, fun _ never => absurd never List.not_mem_nil⟩,
    Or.inr ⟨rfl, known⟩, Nat.le_refl _⟩

theorem Settled.begin (settled : Settled codec h w) (unset : h.lastResult = codec.ok) (fine : h.lastVfsResult = .ok) :
    Going codec w (pending h w) ⟨w.size, []⟩ h w := by
  refine ⟨settled, rfl, rfl, rfl, (List.append_nil _).symm,
    ⟨[], (List.append_nil _).symm, fun _ never => absurd never List.not_mem_nil⟩, fun set => absurd unset set,
    fun earlier => ⟨rfl, ?_⟩, Nat.le_refl _⟩
  obtain set | set | spent := settled.known earlier
  · exact absurd unset set
  · exact absurd fine set
  · exact spent

/-- What a round of the loop leads to, with so much fuel left. -/
def Round (codec : Codec R) (w₀ : World R) (limit fuel : Nat) :
    Step Out (VfsResult × Bytes) → Handle R → World R → Prop
  | .again x, h, w => Going codec w₀ limit x h w ∧ pending h w + x.availOut < fuel
  | .finish r, h, w => Ended codec w₀ limit r h w

theorem loop_safe {round : Out → Reading R (Step Out (VfsResult × Bytes))} {fuel : Nat} (settled : Settled codec h w)
    (unset : h.lastResult = codec.ok) (fine : h.lastVfsResult = .ok) (small : w.size < 2 ^ 32)
    (enough : pending h w + w.size < fuel)
    (each : ∀ fuel x h' w', Going codec w (pending h w) x h' w' → pending h' w' + x.availOut < fuel + 1 →
      safe (codec.env kind) (fun _ _ => True) (round x) h' (Round codec w (pending h w) fuel) (fun _ _ => False) w') :
    safe (codec.env kind) (fun _ _ => True) (loop .outOfFuel round fuel (.start w.size)) h
      (fun r h' w' => Ended codec w (pending h w) r h' w') (fun _ _ => False) w := by
  rw [Out.start, Nat.mod_eq_of_lt small]
  refine safe_loop (fun fuel x h' w' => Going codec w (pending h w) x h' w' ∧ pending h' w' + x.availOut < fuel)
    ?_ (fun _ _ _ never => absurd never.2 (Nat.not_lt_zero _)) fuel _ ⟨settled.begin unset fine, enough⟩
  rintro fuel x h' w' ⟨going, enough⟩
  refine safe_mono (each fuel x h' w' going enough) ?_ fun _ _ => id
  rintro (x | r) h'' w'' holds
  · exact holds
  · exact holds

/-- What a call does, where it has so much to take in. -/
def CallSafe (codec : Codec R) (kind : World R → Bytes → Nat → Decoded R → Prop) (fuel : Nat)
    (doRead : Nat → Reading R (VfsResult × Bytes)) : Prop :=
  ∀ h w, Settled codec h w → 0 < w.size → w.size < 2 ^ 32 → pending h w + w.size < fuel →
    safe (codec.env kind) (fun _ _ => True) (doRead w.size) h (fun r h' w' => Ended codec w (pending h w) r h' w')
      (fun _ _ => False) w

theorem Settled.called (settled : Settled codec h w) (numBytes : Nat) : Settled codec h (w.called numBytes) := by
  obtain ⟨known, last, lastVfs, within, dead⟩ := settled
  exact ⟨known, last, lastVfs, fun fault member => ⟨Nat.le_succ_of_le (within fault member).1, (within fault member).2⟩, dead⟩

theorem Delivered.snoc {prev : List (VfsResult × Bytes)} {r : VfsResult × Bytes} {numBytes : Nat} {h' : Handle R}
    {w' : World R} (delivered : Delivered prev w) (calls : w.calls = prev.length)
    (ended : Ended codec (w.called numBytes) limit r h' w') : Delivered (prev ++ [r]) w' := by
  obtain ⟨news, split, numbered⟩ := ended.new
  have split : w'.faults = w.faults ++ news := split
  have counted : w'.calls = prev.length + 1 := by
    rw [ended.calls, ← calls]
    rfl
  have late : ∀ fault ∈ news, fault.1 = prev.length + 1 := by
    intro fault member
    rw [numbered fault member, ← calls]
    rfl
  refine ⟨?_, fun fault member => (ended.settled.within fault member).2, fun i result found => ?_⟩
  · rw [List.flatMap_append, List.flatMap_singleton, delivered.bytes, ended.produced]
    rfl
  · obtain before | rfl | after := Nat.lt_trichotomy i prev.length
    · rw [List.getElem?_append_left before] at found
      obtain ⟨ok, clear⟩ | ⟨none, fault, member, number, told⟩ := delivered.each i result found
      · refine Or.inl ⟨ok, fun fault member => ?_⟩
        rw [split] at member
        obtain old | new := List.mem_append.mp member
        · exact clear fault old
        · have := late fault new
          omega
      · refine Or.inr ⟨none, fault, ?_, number, told⟩
        rw [split]
        exact List.mem_append_left _ member
    · rw [List.getElem?_concat_length] at found
      cases found
      obtain ⟨ok, first⟩ | ⟨none, fault, member, told⟩ := ended.outcome
      · have first : w.faults = [] := first
        refine Or.inl ⟨ok, fun fault member => ?_⟩
        rw [split, first, List.nil_append] at member
        have := late fault member
        omega
      · refine Or.inr ⟨none, fault, member, ?_, told⟩
        rw [← counted]
        exact (ended.settled.within fault member).1
    · rw [List.getElem?_eq_none (by rw [List.length_append, List.length_singleton]; omega)] at found
      cases found

/-- The calls of a sequence end, one behind the other. -/
theorem readAll_safe {fuel : Nat} {doRead : Nat → Reading R (VfsResult × Bytes)} (each : CallSafe codec kind fuel doRead) :
    ∀ (sizes : List Nat) (prev : List (VfsResult × Bytes)) (h : Handle R) (w : World R),
      (∀ n ∈ sizes, 0 < n ∧ n < 2 ^ 32 ∧ pending h w + n < fuel) → Settled codec h w → w.calls = prev.length → Delivered prev w →
      safe (codec.env kind) (fun _ _ => True) (readAll doRead sizes) h (fun log _ w' => Delivered (prev ++ log) w')
        (fun _ _ => False) w := by
  intro sizes
  induction sizes with
  | nil =>
    intro prev h w _ _ _ delivered
    show Delivered (prev ++ []) w
    rwa [List.append_nil]
  | cons n sizes ih =>
    intro prev h w fits settled calls delivered
    obtain ⟨some, small, enough⟩ := fits n List.mem_cons_self
    rw [readAll, safe_bind, safe_request]
    rintro ⟨⟩ w' rfl
    rw [safe_bind]
    refine safe_mono (each h (w.called n) (settled.called n) some small enough) ?_ fun _ _ => id
    intro r h' w' ended
    have less : pending h' w' ≤ pending h w := ended.less
    rw [safe_bind]
    refine safe_mono (ih (prev ++ [r]) h' w' (fun m member => ?_) ended.settled ?_ (delivered.snoc calls ended)) ?_
      fun _ _ => id
    · obtain ⟨positive, short, room⟩ := fits m (List.mem_cons_of_mem _ member)
      exact ⟨positive, short, by omega⟩
    · rw [ended.calls, List.length_append, List.length_singleton, ← calls]
      rfl
    · intro log _ w'' all
      show Delivered (prev ++ r :: log) w''
      rwa [List.append_assoc] at all

end Invariant

section Gzip

/-- `inflate`. -/
def gzipCodec : Codec ZResult where
  ok := .ok
  fails zResult := zResult = .dataError || zResult = .other
  told
    | .ok | .bufError => none
    | .streamEnd => some .eof
    | .dataError => some (resultFromZResult .dataError)
    | .other => some (resultFromZResult .other)
  goes input decoded := match decoded.result with
    | .ok => 0 < decoded.consumed + decoded.output.length
    | .bufError => input = [] ∧ decoded.consumed = 0 ∧ decoded.output = []
    | .streamEnd | .dataError | .other => True
  told_ne_ok := by
    intro zResult
    cases zResult <;> decide
  told_of_fails := by
    intro zResult
    cases zResult <;> decide

/-- An error comes before anything has been produced in a call, or when the buffer is full; and the decompressor does
not stop for want of input. -/
def gzipFair (w : World ZResult) (_ : Bytes) (availOut : Nat) (decoded : Decoded ZResult) : Prop :=
  match decoded.result with
  | .ok | .streamEnd => True
  | .bufError => False
  | .dataError | .other => decoded.output.length = availOut ∨ availOut = w.size ∧ decoded.output = []

variable {w₀ w : World ZResult} {limit fuel : Nat} {x : Out} {h : Handle ZResult} {H : Stop → World ZResult → Prop}

/-- An error is recorded. -/
theorem gzipRound_fails {consumed : Nat} {output : Bytes} {zResult : ZResult} {fault : VfsResult}
    (going : Going gzipCodec w₀ limit x h w) (fresh : w₀.faults ≠ [] → w.dead.isSome) (room : x.availOut ≠ 0)
    (answers : gzipCodec.Answers w h.input x.availOut ⟨zResult, consumed, output⟩)
    (fair : output.length = x.availOut ∨ x.availOut = w.size ∧ output = [])
    (fails : gzipCodec.fails zResult = true) (told : gzipCodec.told zResult = some fault)
    (same : resultFromZResult zResult = fault) (enough : pending h w + x.availOut < fuel + 1) :
    safe (gzipCodec.env gzipFair) (fun _ _ => True) (do
        let handle ← get
        if handle.lastResult ≠ .ok ∧ (x.put output).availOut = w₀.size then
          return .finish (resultFromZResult handle.lastResult, [])
        return .again (x.put output) : Reading ZResult (Step Out (VfsResult × Bytes)))
      { h.consume consumed with lastResult := zResult } (Round gzipCodec w₀ limit fuel) H
      (gzipCodec.decoded w ⟨zResult, consumed, output⟩) := by
  have notOk : zResult ≠ .ok := by
    rintro rfl
    cases fails
  have going_room := going.room
  rw [safe_bind, safe_get, safe_ite]
  constructor
  · rintro ⟨-, start⟩
    have start : x.availOut - output.length = w₀.size := start
    have nothing : output = [] := List.length_eq_zero_iff.mp (by omega)
    have ended : Ended gzipCodec w₀ limit (fault, []) { h.consume consumed with lastResult := zResult }
        (gzipCodec.decoded w ⟨zResult, consumed, output⟩) :=
      Going.fails_first ⟨zResult, consumed, output⟩ going fails told (by rw [nothing, List.length_nil] at start; omega) nothing
    rw [← same] at ended
    exact ended
  · intro begun
    obtain full | ⟨start, nothing⟩ := fair
    · obtain ⟨after, shorter⟩ := going.fails_full { h.consume consumed with lastResult := zResult } fresh answers
        fails told full room rfl (Or.inr rfl) rfl
      exact ⟨after, Nat.lt_of_lt_of_le shorter (Nat.le_of_lt_succ enough)⟩
    · refine absurd ⟨notOk, ?_⟩ begun
      show x.availOut - output.length = w₀.size
      rw [nothing, start, going.size]
      rfl

theorem gzipRound_safe (some : 0 < w₀.size) (going : Going gzipCodec w₀ limit x h w)
    (enough : pending h w + x.availOut < fuel + 1) :
    safe (gzipCodec.env gzipFair) (fun _ _ => True) (gzipRound w₀.size x) h (Round gzipCodec w₀ limit fuel) H w := by
  rw [gzipRound, safe_ite]
  refine ⟨fun full => going.full full some, fun room => ?_⟩
  rw [safe_bind]
  refine safe_mono (safe_fillBuffer zBufsize going) ?_ fun _ _ => id
  rintro result h w ⟨filled, failed⟩
  rw [safe_ite]
  refine ⟨fun bad => failed bad, fun fine => ?_⟩
  obtain ⟨going, fresh, less⟩ := filled (not_not.mp fine)
  rw [safe_bind]
  apply safe_decode
  rintro ⟨zResult, consumed, output⟩ answers fair
  have unset : h.lastResult = .ok := by
    by_contra set
    exact room (going.last set)
  have enough : pending h w + x.availOut < fuel + 1 := by omega
  cases zResult with
  | ok =>
    obtain ⟨after, shorter⟩ := going.progress fresh answers rfl rfl answers.goes
    dsimp only
    rw [if_neg (by decide), if_neg (by decide), safe_bind, safe_get, safe_ite]
    exact ⟨fun never => absurd unset never.1, fun _ => ⟨after, Nat.lt_of_lt_of_le shorter (Nat.le_of_lt_succ enough)⟩⟩
  | streamEnd =>
    dsimp only
    rw [if_pos rfl]
    exact going.stops fresh answers rfl rfl (show ZResult.streamEnd ≠ .ok by decide)
  | bufError => exact fair.elim
  | dataError =>
    dsimp only
    rw [if_neg (by decide), if_pos (by decide)]
    exact gzipRound_fails going fresh room answers fair rfl rfl rfl enough
  | other =>
    dsimp only
    rw [if_neg (by decide), if_pos (by decide)]
    exact gzipRound_fails going fresh room answers fair rfl rfl rfl enough

theorem gzipTold {zResult : ZResult} {fault : VfsResult} (told : gzipCodec.told zResult = some fault) :
    (if zResult = .streamEnd then .eof else resultFromZResult zResult) = fault := by
  cases zResult <;> cases told <;> rfl

theorem gzipRead_safe (fuel : Nat) : CallSafe gzipCodec gzipFair fuel (gzipRead fuel) := by
  intro h w settled some small enough
  rw [gzipRead, safe_bind, safe_get, safe_ite]
  constructor
  · intro set
    obtain ⟨fault, member, told⟩ := settled.last set
    exact settled.again ⟨fault, member, gzipTold told⟩
  · intro unset
    rw [safe_ite]
    exact ⟨fun set => settled.again (settled.lastVfs set), fun fine => loop_safe settled (not_not.mp unset) (not_not.mp fine)
      small enough fun _ _ _ _ going room => gzipRound_safe some going room⟩

end Gzip

section Bzip2

/-- `BZ2_bzDecompress`. -/
def bzip2Codec : Codec BzResult where
  ok := .ok
  fails bzResult := bzResult ≠ .ok && bzResult ≠ .streamEnd
  told bzResult :=
    if bzResult = .ok then none else some (if bzResult = .streamEnd then .eof else resultFromBzResult bzResult)
  goes input decoded := match decoded.result with
    | .ok => 0 < decoded.consumed + decoded.output.length ∨ input = [] ∧ decoded.consumed = 0 ∧ decoded.output = []
    | _ => True
  told_ne_ok := by
    intro bzResult
    cases bzResult <;> decide
  told_of_fails := by
    intro bzResult
    cases bzResult <;> decide

/-- An error comes when the buffer is full; and the decompressor does not stop for want of input. -/
def bzip2Fair (_ : World BzResult) (_ : Bytes) (availOut : Nat) (decoded : Decoded BzResult) : Prop :=
  match decoded.result with
  | .ok => 0 < decoded.consumed + decoded.output.length
  | .streamEnd => True
  | _ => decoded.output.length = availOut

variable {w₀ w : World BzResult} {limit fuel : Nat} {x : Out} {h : Handle BzResult} {H : Stop → World BzResult → Prop}

theorem bzip2Fair_fails {input : Bytes} {availOut : Nat} {decoded : Decoded BzResult}
    (fair : bzip2Fair w input availOut decoded) (fails : bzip2Codec.fails decoded.result = true) :
    decoded.output.length = availOut := by
  obtain ⟨bzResult, consumed, output⟩ := decoded
  cases bzResult <;> first | exact fair | cases fails

theorem bzip2Round_safe (some : 0 < w₀.size) (going : Going bzip2Codec w₀ limit x h w)
    (enough : pending h w + x.availOut < fuel + 1) :
    safe (bzip2Codec.env bzip2Fair) (fun _ _ => True) (bzip2Round w₀.size x) h (Round bzip2Codec w₀ limit fuel) H w := by
  rw [bzip2Round, safe_ite]
  refine ⟨fun full => going.full full some, fun room => ?_⟩
  rw [safe_bind]
  refine safe_mono (safe_fillBuffer bzBufsize going) ?_ fun _ _ => id
  rintro result h w ⟨filled, failed⟩
  rw [safe_ite]
  refine ⟨fun bad => failed bad, fun fine => ?_⟩
  obtain ⟨going, fresh, less⟩ := filled (not_not.mp fine)
  rw [safe_bind]
  apply safe_decode
  intro decoded answers fair
  dsimp only
  have unset : (h.consume decoded.consumed).lastResult = .ok := by
    by_contra set
    exact room (going.last set)
  have enough : pending h w + x.availOut < fuel + 1 := by omega
  rw [safe_bind, safe_get, safe_ite]
  refine ⟨fun never => absurd unset never.1, fun _ => ?_⟩
  rw [safe_ite]
  constructor
  · intro atEnd
    have told : bzip2Codec.told decoded.result = Option.some .eof := by
      rw [atEnd]
      rfl
    exact going.stops fresh answers (by rw [atEnd]; rfl) told (by rw [atEnd]; decide)
  · intro further
    by_cases ok : decoded.result = .ok
    · have some : 0 < decoded.consumed + decoded.output.length := by
        rw [bzip2Fair, ok] at fair
        exact fair
      obtain ⟨after, shorter⟩ := going.progress fresh answers (by rw [ok]; rfl) (by rw [ok]; rfl) some
      exact ⟨after, Nat.lt_of_lt_of_le shorter (Nat.le_of_lt_succ enough)⟩
    · have fails : bzip2Codec.fails decoded.result = true := by
        simp [bzip2Codec, ok, further]
      have told : bzip2Codec.told decoded.result = Option.some (resultFromBzResult decoded.result) := by
        simp [bzip2Codec, ok, further]
      obtain ⟨after, shorter⟩ := going.fails_full (h.consume decoded.consumed) fresh answers fails told
        (bzip2Fair_fails fair fails) room rfl (Or.inl rfl) rfl
      exact ⟨after, Nat.lt_of_lt_of_le shorter (Nat.le_of_lt_succ enough)⟩

theorem bzip2Told {bzResult : BzResult} {fault : VfsResult} (told : bzip2Codec.told bzResult = some fault) :
    (if bzResult = .streamEnd then .eof else resultFromBzResult bzResult) = fault := by
  cases bzResult <;> cases told <;> rfl

theorem bzip2Read_safe (fuel : Nat) : CallSafe bzip2Codec bzip2Fair fuel (bzip2Read fuel) := by
  intro h w settled some small enough
  rw [bzip2Read, safe_bind, safe_get, safe_ite]
  constructor
  · intro set
    obtain ⟨fault, member, told⟩ := settled.last set
    exact settled.again ⟨fault, member, bzip2Told told⟩
  · intro unset
    rw [safe_ite]
    exact ⟨fun set => settled.again (settled.lastVfs set), fun fine => loop_safe settled (not_not.mp unset) (not_not.mp fine)
      small enough fun _ _ _ _ going room => bzip2Round_safe some going room⟩

end Bzip2

/-- A handle that has just been opened. -/
def Handle.new {R : Type} (codec : Codec R) : Handle R := ⟨[], codec.ok, .ok⟩

def World.start {R : Type} (stream : Bytes) (fault : { result : VfsResult // result ≠ .ok }) : World R :=
  ⟨stream, fault, none, 0, 0, [], []⟩

theorem settled_start {R : Type} (codec : Codec R) (stream : Bytes) (fault : { result : VfsResult // result ≠ .ok }) :
    Settled codec (.new codec) (.start stream fault) :=
  ⟨fun never => absurd rfl never, fun never => absurd rfl never, fun never => absurd rfl never,
    fun _ never => absurd never List.not_mem_nil, fun _ never => by cases never⟩

/-- Every read ends, what has been produced is delivered, and behind a fault the reader gets that fault, as long as the
answers of the decompressor are fair and each read asks for fewer than 2^32 bytes. -/
theorem reads_deliver (stream : Bytes) (fault : { result : VfsResult // result ≠ .ok }) (sizes : List Nat) (fuel : Nat)
    (fits : ∀ n ∈ sizes, 0 < n ∧ n < 2 ^ 32 ∧ 2 * stream.length + n < fuel) :
    safe (gzipCodec.env gzipFair) (fun _ _ => True) (readAll (gzipRead fuel) sizes) (.new gzipCodec)
        (fun log _ w => Delivered log w) (fun _ _ => False) (.start stream fault) ∧
      safe (bzip2Codec.env bzip2Fair) (fun _ _ => True) (readAll (bzip2Read fuel) sizes) (.new bzip2Codec)
        (fun log _ w => Delivered log w) (fun _ _ => False) (.start stream fault) := by
  have nothing {R : Type} : Delivered [] (.start stream fault : World R) :=
    ⟨rfl, fun _ never => absurd never List.not_mem_nil, fun _ _ never => by cases never⟩
  exact ⟨readAll_safe (gzipRead_safe fuel) sizes [] _ _ fits (settled_start _ _ _) rfl nothing,
    readAll_safe (bzip2Read_safe fuel) sizes [] _ _ fits (settled_start _ _ _) rfl nothing⟩

theorem reads_deliver_two :
    safe (gzipCodec.env gzipFair) (fun _ _ => True) (readAll (gzipRead 7) [2, 1]) (.new gzipCodec)
        (fun log _ w => Delivered log w) (fun _ _ => False) (.start [31, 139] ⟨.eof, by decide⟩) ∧
      safe (bzip2Codec.env bzip2Fair) (fun _ _ => True) (readAll (bzip2Read 7) [2, 1]) (.new bzip2Codec)
        (fun log _ w => Delivered log w) (fun _ _ => False) (.start [31, 139] ⟨.eof, by decide⟩) :=
  reads_deliver [31, 139] ⟨.eof, by decide⟩ [2, 1] 7 (by decide)

/-- Any answers that keep to the contract. -/
def anyAnswer {R : Type} (_ : World R) (_ : Bytes) (_ : Nat) (_ : Decoded R) : Prop := True

section Hangs

variable {R : Type} {codec : Codec R} {h : Handle R} {w : World R} {x : Out} {H : Stop → World R → Prop}

theorem decode_answers {Q : R × Out → Handle R → World R → Prop}
    (holds : safe (codec.env anyAnswer) (fun _ _ => True) (decode x) h Q H w) (decoded : Decoded R)
    (answers : codec.Answers w h.input x.availOut decoded) :
    Q (decoded.result, x.put decoded.output) (h.consume decoded.consumed) (codec.decoded w decoded) := by
  rw [decode, safe_bind, safe_get, safe_bind, safe_request] at holds
  exact holds decoded _ ⟨answers, trivial, rfl⟩

theorem fillBuffer_filled {Q : VfsResult → Handle R → World R → Prop} {bufsize numBytes availOut : Nat}
    (holds : safe (codec.env anyAnswer) (fun _ _ => True) (fillBuffer bufsize numBytes availOut) h Q H w)
    (filled : h.input ≠ []) : Q .ok h w := by
  rw [fillBuffer, safe_bind, safe_get, safe_ite] at holds
  exact holds.1 filled

theorem fillBuffer_reads {Q : VfsResult → Handle R → World R → Prop} {bufsize numBytes availOut : Nat} {bytes rest : Bytes}
    (holds : safe (codec.env anyAnswer) (fun _ _ => True) (fillBuffer bufsize numBytes availOut) h Q H w)
    (input : h.input = []) (stream : w.stream = bytes ++ rest) (some : 0 < bytes.length) (few : bytes.length ≤ bufsize) :
    Q .ok { h with input := bytes } { w with stream := rest } := by
  rw [fillBuffer, safe_bind, safe_get, safe_ite] at holds
  have holds := holds.2 (not_not.mpr input)
  rw [safe_bind, safe_request] at holds
  have holds := holds (.ok, bytes) { w with stream := rest } (Or.inl ⟨rfl, some, few, rest, stream, rfl⟩)
  dsimp only at holds
  rw [if_neg (not_not.mpr rfl)] at holds
  exact holds

theorem fillBuffer_fails {Q : VfsResult → Handle R → World R → Prop} {bufsize numBytes availOut : Nat}
    (holds : safe (codec.env anyAnswer) (fun _ _ => True) (fillBuffer bufsize numBytes availOut) h Q H w)
    (input : h.input = []) (stream : w.stream = []) (produced : availOut ≠ numBytes) :
    Q .ok { h with lastVfsResult := w.fault.1 } (w.meets w.fault.1) := by
  rw [fillBuffer, safe_bind, safe_get, safe_ite] at holds
  have holds := holds.2 (not_not.mpr input)
  rw [safe_bind, safe_request] at holds
  have holds := holds (w.fault.1, []) (w.meets w.fault.1) (Or.inr ⟨stream, rfl, rfl, rfl⟩)
  dsimp only at holds
  rw [if_pos w.fault.2, if_neg produced] at holds
  exact holds

end Hangs

/-- One of two bytes has been produced, and the parent has failed. -/
theorem gzipLoop_hangs (fuel : Nat) : ∀ (h : Handle ZResult) (w : World ZResult), h.input = [] → w.stream = [] →
    w.dead = none → ¬ safe (gzipCodec.env anyAnswer) (fun _ _ => True) (loop .outOfFuel (gzipRound 2) fuel ⟨1, [7]⟩) h
      (fun _ _ _ => True) (fun _ _ => False) w := by
  induction fuel with
  | zero => exact fun _ _ _ _ _ never => never
  | succ fuel ih =>
    intro h w input stream dead holds
    rw [loop, safe_bind, gzipRound, safe_ite] at holds
    have holds := holds.2 (by decide)
    rw [safe_bind] at holds
    have holds := fillBuffer_fails holds input stream (by decide)
    rw [safe_ite] at holds
    have holds := holds.2 (not_not.mpr rfl)
    rw [safe_bind] at holds
    have holds := decode_answers holds ⟨.bufError, 0, []⟩
      ⟨Nat.zero_le _, Nat.zero_le _, ⟨input, rfl, rfl⟩, fun e never => by
        rw [World.meets, dead] at never
        cases never⟩
    refine ih { (h.consume 0) with lastVfsResult := w.fault.1, lastResult := .bufError }
      (gzipCodec.decoded (w.meets w.fault.1) ⟨.bufError, 0, []⟩) ?_ stream dead holds
    show h.input.drop 0 = []
    rw [input, List.drop_nil]

theorem bzip2Loop_hangs (fuel : Nat) : ∀ (h : Handle BzResult) (w : World BzResult), h.input ≠ [] → h.lastResult = .ok →
    (w.dead = none ∨ w.dead = some .dataError) → ¬ safe (bzip2Codec.env anyAnswer) (fun _ _ => True)
      (loop .outOfFuel (bzip2Round 1) fuel ⟨1, []⟩) h (fun _ _ _ => True) (fun _ _ => False) w := by
  induction fuel with
  | zero => exact fun _ _ _ _ _ never => never
  | succ fuel ih =>
    intro h w input unset dead holds
    rw [loop, safe_bind, bzip2Round, safe_ite] at holds
    have holds := holds.2 (by decide)
    rw [safe_bind] at holds
    have holds := fillBuffer_filled holds input
    rw [safe_ite] at holds
    have holds := holds.2 (not_not.mpr rfl)
    rw [safe_bind] at holds
    have holds := decode_answers holds ⟨.dataError, 0, []⟩
      ⟨Nat.zero_le _, Nat.zero_le _, trivial, fun e already => by
        rcases dead with dead | dead <;> rw [dead] at already <;> cases already
        rfl⟩
    dsimp only at holds
    rw [safe_bind, safe_get, safe_ite] at holds
    have holds := holds.2 fun never => never.1 unset
    exact ih _ _ input unset (Or.inr rfl) holds

/-- A stream of one byte that breaks off behind the first byte of output, and one whose first byte is wrong. -/
theorem reads_hang :
    (∀ fuel, ¬ safe (gzipCodec.env anyAnswer) (fun _ _ => True) (readAll (gzipRead fuel) [2]) (.new gzipCodec)
      (fun _ _ _ => True) (fun _ _ => False) (.start [0] ⟨.eof, by decide⟩)) ∧
    ∀ fuel, ¬ safe (bzip2Codec.env anyAnswer) (fun _ _ => True) (readAll (bzip2Read fuel) [1]) (.new bzip2Codec)
      (fun _ _ _ => True) (fun _ _ => False) (.start [0] ⟨.eof, by decide⟩) := by
  constructor
  · intro fuel holds
    rw [readAll, safe_bind, safe_request] at holds
    have holds := holds () _ rfl
    rw [safe_bind, gzipRead, safe_bind, safe_get, safe_ite] at holds
    have holds := holds.2 (not_not.mpr rfl)
    rw [safe_ite] at holds
    have holds := holds.2 (not_not.mpr rfl)
    cases fuel with
    | zero => exact holds
    | succ fuel =>
      rw [loop, safe_bind, gzipRound, safe_ite] at holds
      have holds := holds.2 (by decide)
      rw [safe_bind] at holds
      have given : (World.start [0] ⟨.eof, by decide⟩ : World ZResult).stream = [0] ++ [] := rfl
      have holds := fillBuffer_reads holds rfl given (by decide) (by decide)
      rw [safe_ite] at holds
      have holds := holds.2 (not_not.mpr rfl)
      rw [safe_bind] at holds
      have holds := decode_answers holds ⟨.ok, 1, [7]⟩
        ⟨by decide, by decide, (by decide : 0 < 1 + 1), fun e never => by cases never⟩
      exact gzipLoop_hangs fuel _ _ rfl rfl rfl holds
  · intro fuel holds
    rw [readAll, safe_bind, safe_request] at holds
    have holds := holds () _ rfl
    rw [safe_bind, bzip2Read, safe_bind, safe_get, safe_ite] at holds
    have holds := holds.2 (not_not.mpr rfl)
    rw [safe_ite] at holds
    have holds := holds.2 (not_not.mpr rfl)
    cases fuel with
    | zero => exact holds
    | succ fuel =>
      rw [loop, safe_bind, bzip2Round, safe_ite] at holds
      have holds := holds.2 (by decide)
      rw [safe_bind] at holds
      have given : (World.start [0] ⟨.eof, by decide⟩ : World BzResult).stream = [0] ++ [] := rfl
      have holds := fillBuffer_reads holds rfl given (by decide) (by decide)
      rw [safe_ite] at holds
      have holds := holds.2 (not_not.mpr rfl)
      rw [safe_bind] at holds
      have holds := decode_answers holds ⟨.dataError, 0, []⟩
        ⟨by decide, by decide, trivial, fun e never => by cases never⟩
      dsimp only at holds
      rw [safe_bind, safe_get, safe_ite] at holds
      have holds := holds.2 fun never => never.1 rfl
      exact bzip2Loop_hangs fuel _ _ (List.cons_ne_nil 0 []) rfl (Or.inr rfl) holds

end GnomeVfs.Decompress
