import GnomeVfs.XferRemove

/- The calls of a visit's callback, and what the visit makes of an answer to stop. -/
namespace GnomeVfs.Xfer

open Interaction

/-- A call of a `GnomeVFSDirectoryVisitFunc` with its arguments, and whether it returned `TRUE`. -/
structure VisitCall where
  relPath : Bytes
  info : FileInfo
  willLoop : Bool
  go : Bool
  deriving DecidableEq

variable {U D : Type} {cfg : Config U} {infoOptions : InfoOptions} {visitOptions : VisitOptions}

/-- The callback with a list of its calls behind its data. -/
def logged (callback : VisitFunc U D) : VisitFunc U (D × List VisitCall) := fun relPath info willLoop (data, calls) => do
  let (go, recurse, data) ← callback relPath info willLoop data
  return (go, recurse, data, calls ++ [⟨relPath, info, willLoop, go⟩])

abbrev forget (r : VfsResult × D × List VisitCall) : VfsResult × D := (r.1, r.2.1)

theorem map_visitEntry {callback : VisitFunc U D}
    {visitLogged : U → Bytes → List (UInt64 × UInt64) → D × List VisitCall → XferM U (VfsResult × D × List VisitCall)}
    {visit : U → Bytes → List (UInt64 × UInt64) → D → XferM U (VfsResult × D)}
    (same : ∀ uri above ancestors x, forget <$> visitLogged uri above ancestors x = visit uri above ancestors x.1)
    (uri : U) (above : Bytes) (ancestors : List (UInt64 × UInt64)) (handle : Handle) (x : D × List VisitCall) :
    Step.map Prod.fst forget <$> visitEntry cfg visitOptions (logged callback) visitLogged uri above ancestors handle x =
      visitEntry cfg visitOptions callback visit uri above ancestors handle x.1 := by
  have := @Prog.lawful (Op U) Op.Reply Stop
  simp only [visitEntry, logged, map_bind, bind_assoc, pure_bind, apply_ite (Functor.map _), map_pure]
  refine bind_congr fun r => ?_
  split
  · rfl
  split
  · rfl
  refine bind_congr fun a => ?_
  split
  · rfl
  split
  · rw [← same _ _ _ (a.2.2, x.2 ++ [⟨above ++ r.2.name, r.2, recursingWillLoop visitOptions ancestors r.2, a.1⟩]),
      bind_map_left]
    refine bind_congr fun b => ?_
    split <;> rfl
  · rfl

theorem map_visitDirectory {callback : VisitFunc U D} : ∀ (fuel : Nat) (uri : U) (above : Bytes)
    (ancestors : List (UInt64 × UInt64)) (x : D × List VisitCall),
    forget <$> visitDirectory cfg infoOptions visitOptions (logged callback) fuel uri above ancestors x =
      visitDirectory cfg infoOptions visitOptions callback fuel uri above ancestors x.1
  | 0, _, _, _, _ => rfl
  | fuel + 1, uri, above, ancestors, x => by
    have := @Prog.lawful (Op U) Op.Reply Stop
    simp only [visitDirectory, map_bind, apply_ite (Functor.map _), map_pure]
    refine bind_congr fun r => ?_
    split
    · rfl
    · have rounds : forget <$> loop (visitEntry cfg visitOptions (logged callback)
            (visitDirectory cfg infoOptions visitOptions (logged callback) fuel) uri above ancestors r.2) fuel x =
          loop (visitEntry cfg visitOptions callback
            (visitDirectory cfg infoOptions visitOptions callback fuel) uri above ancestors r.2) fuel x.1 :=
        Action.map_loop Prod.fst forget (map_visitEntry (map_visitDirectory fuel) uri above ancestors r.2) fuel x
      rw [← rounds, bind_map_left]

theorem map_directoryVisitUri (callback : VisitFunc U D) (fuel : Nat) (uri : U) (x : D × List VisitCall) :
    forget <$> directoryVisitUri cfg infoOptions visitOptions (logged callback) fuel uri x =
      directoryVisitUri cfg infoOptions visitOptions callback fuel uri x.1 := by
  have := @Prog.lawful (Op U) Op.Reply Stop
  simp only [directoryVisitUri, map_bind, apply_ite (Functor.map _), map_pure, map_visitDirectory]

variable {deeper : Bytes}
  {visit : U → Bytes → List (UInt64 × UInt64) → D × List VisitCall → XferM U (VfsResult × D × List VisitCall)}

section Stopping

/-- The callback says to stop and is not called again, and the visit is interrupted. -/
def Stops (calls : List VisitCall) (result : VfsResult) : Prop :=
  ∀ front call back, calls = front ++ call :: back → call.go = false → back = [] ∧ result = .interrupted

/-- No `FALSE` is lost on the way back from a subdirectory, whose errors the visit may ignore. -/
def Heard (visitOptions : VisitOptions) (calls : List VisitCall) : Prop :=
  visitOptions.ignoreRecurseError = false ∨ ∀ call ∈ calls, call.go = false → call.relPath = call.info.name

/-- What a part of a visit below the prefix `above` has called and returned. -/
structure Visited (visitOptions : VisitOptions) (above : Bytes) (new : List VisitCall) (result : VfsResult) : Prop where
  below : above ≠ [] → ∀ call ∈ new, call.relPath ≠ call.info.name
  heeds : Heard visitOptions new → (∀ call ∈ new, call.go = true) ∨
    result = .interrupted ∧ ∃ front call, new = front ++ [call] ∧ ∀ call ∈ front, call.go = true

/-- The same between two rounds of the loop. -/
structure Visiting (visitOptions : VisitOptions) (above : Bytes) (new : List VisitCall) : Prop where
  below : above ≠ [] → ∀ call ∈ new, call.relPath ≠ call.info.name
  heeds : Heard visitOptions new → ∀ call ∈ new, call.go = true

variable {above : Bytes} {new more : List VisitCall} {call : VisitCall} {result : VfsResult}

theorem Heard.front (heard : Heard visitOptions (new ++ more)) : Heard visitOptions new :=
  heard.imp_right fun all call member => all call (List.mem_append_left more member)

theorem Heard.back (heard : Heard visitOptions (new ++ more)) : Heard visitOptions more :=
  heard.imp_right fun all call member => all call (List.mem_append_right new member)

theorem visiting_nil : Visiting visitOptions above [] :=
  ⟨fun _ => List.forall_mem_nil _, fun _ => List.forall_mem_nil _⟩

theorem Visiting.visited (visiting : Visiting visitOptions above new) : Visited visitOptions above new result :=
  ⟨visiting.below, fun heard => Or.inl (visiting.heeds heard)⟩

theorem Visited.closed (visited : Visited visitOptions above new result) :
    Visited visitOptions above new (eofToOk result) := by
  refine ⟨visited.below, fun heard => (visited.heeds heard).imp_right ?_⟩
  rintro ⟨stopped, last⟩
  rw [stopped, eofToOk, if_neg nofun]
  exact ⟨rfl, last⟩

/-- A call of this entry's is not for a subdirectory exactly where the prefix is empty. -/
theorem relPath_ne_name (name : Bytes) (nested : above ≠ []) : above ++ name ≠ name :=
  fun same => nested (List.append_left_eq_self.mp same)

theorem Visiting.called (visiting : Visiting visitOptions above new) (path : call.relPath = above ++ call.info.name) :
    above ≠ [] → ∀ c ∈ new ++ [call], c.relPath ≠ c.info.name := by
  intro nested c member
  rcases List.mem_append.mp member with old | last
  · exact visiting.below nested c old
  · rw [List.mem_singleton.mp last, path]
    exact relPath_ne_name _ nested

theorem Visiting.goes (visiting : Visiting visitOptions above new) (path : call.relPath = above ++ call.info.name)
    (go : call.go = true) : Visiting visitOptions above (new ++ [call]) := by
  refine ⟨visiting.called path, fun heard c member => ?_⟩
  rcases List.mem_append.mp member with old | last
  · exact visiting.heeds heard.front c old
  · rw [List.mem_singleton.mp last, go]

theorem Visiting.stopped (visiting : Visiting visitOptions above new) (path : call.relPath = above ++ call.info.name) :
    Visited visitOptions above (new ++ [call]) .interrupted :=
  ⟨visiting.called path, fun heard => Or.inr ⟨rfl, new, call, rfl, visiting.heeds heard.front⟩⟩

/-- The calls of a subdirectory come behind those made so far. -/
theorem Visiting.below_append (visiting : Visiting visitOptions above new) (nested : deeper ≠ [])
    (visited : Visited visitOptions deeper more result) :
    above ≠ [] → ∀ c ∈ new ++ more, c.relPath ≠ c.info.name := by
  intro inside c member
  rcases List.mem_append.mp member with old | last
  · exact visiting.below inside c old
  · exact visited.below nested c last

theorem Visiting.fails (visiting : Visiting visitOptions above new) (nested : deeper ≠ [])
    (visited : Visited visitOptions deeper more result) : Visited visitOptions above (new ++ more) result := by
  refine ⟨visiting.below_append nested visited, fun heard => ?_⟩
  have before := visiting.heeds heard.front
  rcases visited.heeds heard.back with all | ⟨stopped, front, call, rfl, all⟩
  · exact Or.inl fun c member => (List.mem_append.mp member).elim (before c) (all c)
  · exact Or.inr ⟨stopped, new ++ front, call, (List.append_assoc _ _ _).symm,
      fun c member => (List.mem_append.mp member).elim (before c) (all c)⟩

theorem Visiting.returns (visiting : Visiting visitOptions above new) (nested : deeper ≠ [])
    (visited : Visited visitOptions deeper more result)
    (goesOn : ¬ (result ≠ .ok ∧ visitOptions.ignoreRecurseError = false)) :
    Visiting visitOptions above (new ++ more) := by
  refine ⟨visiting.below_append nested visited, fun heard c member => ?_⟩
  rcases List.mem_append.mp member with old | last
  · exact visiting.heeds heard.front c old
  · rcases visited.heeds heard.back with all | ⟨rfl, front, call, rfl, all⟩
    · exact all c last
    · -- a `FALSE` in the subdirectory, which is ignored, is not heard
      have ignores : visitOptions.ignoreRecurseError ≠ false := fun unset => goesOn ⟨nofun, unset⟩
      have own := heard.back.resolve_left ignores
      by_contra stop
      exact visited.below nested c last (own c last (by simpa using stop))

variable {callback : VisitFunc U D} {uri : U} {ancestors : List (UInt64 × UInt64)} {data : D} {calls : List VisitCall}
  {handle : Handle} {fuel : Nat} {s : State} {m : Trace U}

theorem wp_logged {relPath : Bytes} {info : FileInfo} {willLoop : Bool}
    {Q : Bool × Bool × D × List VisitCall → State → Trace U → Prop}
    (holds : ∀ go recurse data s m, Q (go, recurse, data, calls ++ [⟨relPath, info, willLoop, go⟩]) s m) :
    Action.wp record (logged callback relPath info willLoop (data, calls)) s Q (fun _ _ => True) m := by
  rw [logged, Action.wp_bind]
  refine Action.wp_mono Action.wp_record ?_ fun _ _ => id
  rintro ⟨go, recurse, data⟩ s m -
  exact holds go recurse data s m

abbrev Extends (visitOptions : VisitOptions) (above : Bytes) (calls : List VisitCall)
    (r : VfsResult × D × List VisitCall) : Prop :=
  ∃ new, r.2.2 = calls ++ new ∧ Visited visitOptions above new r.1

theorem wp_visitEntry
    (visits : ∀ uri above ancestors data calls s m, Action.wp record (visit uri above ancestors (data, calls)) s
    (fun r _ _ => Extends visitOptions above calls r) (fun _ _ => True) m)
    (visiting : Visiting visitOptions above new):
    Action.wp record (visitEntry cfg visitOptions (logged callback) visit uri above ancestors handle (data, calls ++ new)) s
      (fun r _ _ => match r with
        | .again x => ∃ new, x.2 = calls ++ new ∧ Visiting visitOptions above new
        | .finish r => Extends visitOptions above calls r) (fun _ _ => True) m := by
  rw [visitEntry, Action.wp_bind, wp_ask]
  rintro ⟨read, info⟩
  rw [Action.wp_ite]
  refine ⟨fun _ => ⟨new, rfl, visiting.visited⟩, fun _ => ?_⟩
  rw [Action.wp_ite]
  refine ⟨fun _ => ⟨new, rfl, visiting⟩, fun _ => ?_⟩
  rw [Action.wp_bind]
  apply wp_logged
  intro go recurse data s m
  rw [Action.wp_ite]
  refine ⟨fun stop => ⟨_, List.append_assoc _ _ _, visiting.stopped rfl⟩, fun goes => ?_⟩
  have onward : Visiting visitOptions above
      (new ++ [⟨above ++ info.name, info, recursingWillLoop visitOptions ancestors info, go⟩]) :=
    visiting.goes rfl (by simpa using goes)
  rw [Action.wp_ite]
  refine ⟨fun _ => ?_, fun _ => ⟨_, List.append_assoc _ _ _, onward⟩⟩
  rw [Action.wp_bind]
  refine Action.wp_mono (visits _ _ _ data _ s m) ?_ fun _ _ => id
  rintro ⟨result, data, _⟩ s m ⟨more, rfl, visited⟩
  have nested : above ++ info.name ++ [chrSlash] ≠ [] := by simp
  rw [Action.wp_ite]
  refine ⟨fun _ => ⟨_, by simp, onward.fails nested visited⟩, fun goesOn => ⟨_, ?_, onward.returns nested visited ?_⟩⟩
  · simp
  · simpa using goesOn

theorem wp_visitDirectory : ∀ (fuel : Nat) (uri : U) (above : Bytes) (ancestors : List (UInt64 × UInt64)) (data : D)
    (calls : List VisitCall) (s : State) (m : Trace U),
    Action.wp record (visitDirectory cfg infoOptions visitOptions (logged callback) fuel uri above ancestors (data, calls)) s
      (fun r _ _ => Extends visitOptions above calls r) (fun _ _ => True) m
  | 0, _, _, _, _, _, _, _ => trivial
  | fuel + 1, uri, above, ancestors, data, calls, s, m => by
    rw [visitDirectory, Action.wp_bind, wp_ask]
    rintro ⟨opened, handle⟩
    rw [Action.wp_ite]
    refine ⟨fun _ => ⟨[], (List.append_nil _).symm, visiting_nil.visited⟩, fun _ => ?_⟩
    rw [Action.wp_bind]
    apply Action.wp_loop (fun x _ _ => ∃ new, x.2 = calls ++ new ∧ Visiting visitOptions above new)
    · rintro ⟨data, _⟩ s m ⟨new, rfl, visiting⟩
      refine Action.wp_mono (wp_visitEntry (wp_visitDirectory fuel) visiting) (fun r s m after => ?_) fun _ _ => id
      cases r with
      | again x => exact after
      | finish r =>
        obtain ⟨new, added, visited⟩ := after
        exact fun _ => ⟨new, added, visited.closed⟩
    · exact fun _ _ _ _ => trivial
    · exact ⟨[], (List.append_nil _).symm, visiting_nil⟩

theorem Visited.stops (visited : Visited visitOptions above new result) (heard : Heard visitOptions new) :
    Stops new result := by
  intro front call back split stop
  have lost : ∀ calls : List VisitCall, call ∈ calls → ¬ ∀ call ∈ calls, call.go = true := fun calls member all => by
    rw [all call member] at stop
    cases stop
  have member : call ∈ new := by simp [split]
  obtain all | ⟨interrupted, before, final, same, all⟩ := visited.heeds heard
  · exact absurd all (lost new member)
  · refine ⟨?_, interrupted⟩
    rcases List.eq_nil_or_concat back with rfl | ⟨back, later, rfl⟩
    · rfl
    · have longer : front ++ call :: back ++ [later] = before ++ [final] := by simp [← same, split]
      have earlier : front ++ call :: back = before := (List.append_inj' longer rfl).1
      exact absurd all (lost before (by simp [← earlier]))

/-- A visit that hears every `FALSE` stops at the first. -/
theorem wp_directoryVisitUri : Action.wp record (directoryVisitUri cfg infoOptions visitOptions (logged callback) fuel uri (data, [])) s
    (fun r _ _ => Heard visitOptions r.2.2 → Stops r.2.2 r.1) (fun _ _ => True) m := by
  rw [directoryVisitUri, Action.wp_bind, wp_ask]
  rintro ⟨found, info⟩
  rw [Action.wp_ite]
  have none : Visiting visitOptions [] [] := visiting_nil
  refine ⟨fun _ => none.visited.stops, fun _ => ?_⟩
  rw [Action.wp_ite]
  refine ⟨fun _ => none.visited.stops, fun _ => ?_⟩
  refine Action.wp_mono (wp_visitDirectory fuel uri [] _ data [] s _) ?_ fun _ _ => id
  rintro ⟨result, data, _⟩ s m ⟨new, rfl, visited⟩
  exact visited.stops

end Stopping

variable {trace : Trace U}

section Losing

variable {callback : VisitFunc U D} {uri : U} {ancestors : List (UInt64 × UInt64)} {handle : Handle} {fuel : Nat}
  {s s' : State} {m : Trace U} {x y : D × List VisitCall}

theorem runs_ask_bind {α : Type} {op : Op U} {f : op.Reply → XferM U α} {out : Outcome Stop (α × State)} :
    Runs ((ask op >>= f) s) trace out ↔ ∃ a back, trace = ⟨op, a⟩ :: back ∧ Runs (f a s) back out := by
  constructor
  · intro run
    change Runs (Prog.ask op fun a => f a s) trace out at run
    cases run with
    | ask a run => exact ⟨a, _, rfl, run⟩
  · rintro ⟨a, back, rfl, run⟩
    exact .ask a run

/-- The last call is for an entry of the visited directory itself. -/
def EndsAbove (calls : List VisitCall) : Prop := ∃ front call, calls = front ++ [call] ∧ call.relPath = call.info.name

theorem wp_visitEntry_interrupted (ignores : visitOptions.ignoreRecurseError = true) :
    Action.wp record (visitEntry cfg visitOptions (logged callback) visit uri [] ancestors handle x) s
      (fun r s' m' => match r with
        | .again _ => True
        | .finish r => r.1 = .interrupted →
            (∃ info, m' = m ++ [⟨.readNext handle, (.interrupted, info)⟩] ∧ r.2 = x ∧ s' = s) ∨ EndsAbove r.2.2)
      (fun _ _ => True) m := by
  obtain ⟨data, calls⟩ := x
  rw [visitEntry, Action.wp_bind, wp_ask]
  rintro ⟨read, info⟩
  rw [Action.wp_ite]
  refine ⟨?_, fun _ => Action.wp_ite.mpr ⟨fun _ => trivial, fun _ => ?_⟩⟩
  · rintro - rfl
    exact Or.inl ⟨info, rfl, rfl, rfl⟩
  · rw [Action.wp_bind]
    apply wp_logged
    intro go recurse data s m
    rw [Action.wp_ite]
    refine ⟨fun _ _ => Or.inr ⟨_, _, rfl, rfl⟩, fun _ => Action.wp_ite.mpr ⟨fun _ => ?_, fun _ => trivial⟩⟩
    rw [Action.wp_bind]
    refine Action.wp_mono Action.wp_record ?_ fun _ _ => id
    rintro ⟨result, data⟩ s m -
    rw [Action.wp_ite]
    refine ⟨fun failed => ?_, fun _ => trivial⟩
    simp [ignores] at failed

/-- Where the loop ends in a read that is interrupted, the read could have found the end instead. -/
theorem loop_reads_on (ignores : visitOptions.ignoreRecurseError = true) :
    ∀ {fuel : Nat} {x : D × List VisitCall} {s : State}
      {trace : Trace U},
      Runs (loop (visitEntry cfg visitOptions (logged callback) visit uri [] ancestors handle) fuel x s) trace
        (.returned ((.interrupted, y), s')) → ¬ EndsAbove y.2 → ∃ trace',
      Runs (loop (visitEntry cfg visitOptions (logged callback) visit uri [] ancestors handle) fuel x s) trace'
        (.returned ((.eof, y), s'))
  | 0, _, _, _, run, _ => nomatch run
  | fuel + 1, x, s, trace, run, deeper => by
    rcases Runs.bind_cases run with ⟨front, back, ⟨r, s₁⟩, rfl, first, second⟩ | ⟨_, _, same⟩
    · have ended := Action.wp_trace first (wp_visitEntry_interrupted ignores)
      cases r with
      | again x =>
        obtain ⟨back', rest⟩ := loop_reads_on ignores second deeper
        exact ⟨front ++ back', Action.runs_bind first rest⟩
      | finish r =>
        cases second
        obtain ⟨info, -, rfl, rfl⟩ := (ended rfl).resolve_right deeper
        have read : Runs (visitEntry cfg visitOptions (logged callback) visit uri [] ancestors handle y s')
            [⟨.readNext handle, (.eof, info)⟩] (.returned (.finish (.eof, y), s')) := by
          exact runs_ask_bind.mpr ⟨(.eof, info), [], rfl, .done _⟩
        exact ⟨_, Action.runs_bind read (.done _)⟩
    · cases same

theorem runs_pure {α : Type} {a b : α} (run : Runs ((pure a : XferM U α) s) trace (.returned (b, s'))) :
    trace = [] ∧ (a, s) = (b, s') := by
  have done : ∀ {out : Outcome Stop (α × State)}, Runs (Prog.done (a, s) : Prog Op.Reply Stop (α × State)) trace out →
      trace = [] ∧ .returned (a, s) = out := by
    rintro _ ⟨⟩
    exact ⟨rfl, rfl⟩
  exact (done run).imp_right Outcome.returned.inj

theorem visitDirectory_reads_on (ignores : visitOptions.ignoreRecurseError = true)
    (run : Runs (visitDirectory cfg infoOptions visitOptions (logged callback) fuel uri [] ancestors x s) trace
    (.returned ((.interrupted, y), s'))) (called : y.2 ≠ x.2) (deeper : ¬ EndsAbove y.2):
    ∃ trace', Runs (visitDirectory cfg infoOptions visitOptions (logged callback) fuel uri [] ancestors x s) trace'
      (.returned ((.ok, y), s')) := by
  cases fuel with
  | zero => nomatch run
  | succ fuel =>
    rw [visitDirectory] at run ⊢
    obtain ⟨⟨opened, handle⟩, back, rfl, walk⟩ := runs_ask_bind.mp run
    dsimp only at walk
    split at walk
    · cases walk
      exact absurd rfl called
    · rename_i usable
      rcases Runs.bind_cases walk with ⟨front, close, ⟨⟨result, z⟩, s₁⟩, rfl, rounds, closing⟩ | ⟨_, _, same⟩
      · obtain ⟨a, _, rfl, closed⟩ := runs_ask_bind.mp closing
        obtain ⟨rfl, same⟩ := runs_pure closed
        obtain ⟨⟨ended, rfl⟩, rfl⟩ : (eofToOk result = .interrupted ∧ z = y) ∧ s₁ = s' := by simpa using same
        obtain rfl : result = .interrupted := by
          unfold eofToOk at ended
          split at ended
          · cases ended
          · exact ended
        obtain ⟨trace', rounds'⟩ := loop_reads_on ignores rounds deeper
        refine ⟨_, runs_ask_bind.mpr ⟨(opened, handle), trace' ++ [⟨.closeDirectory handle, a⟩], rfl, ?_⟩⟩
        dsimp only
        rw [if_neg usable]
        exact Action.runs_bind rounds' (runs_ask_bind.mpr ⟨a, [], rfl, .done _⟩)
      · cases same

theorem directoryVisitUri_reads_on (ignores : visitOptions.ignoreRecurseError = true)
    (run : Runs (directoryVisitUri cfg infoOptions visitOptions (logged callback) fuel uri x s) trace
    (.returned ((.interrupted, y), s'))) (called : y.2 ≠ x.2) (deeper : ¬ EndsAbove y.2):
    ∃ trace', Runs (directoryVisitUri cfg infoOptions visitOptions (logged callback) fuel uri x s) trace'
      (.returned ((.ok, y), s')) := by
  rw [directoryVisitUri] at run ⊢
  obtain ⟨⟨found, info⟩, back, rfl, walk⟩ := runs_ask_bind.mp run
  dsimp only at walk
  split at walk
  · cases walk
    exact absurd rfl called
  split at walk
  · cases walk
  · rename_i found' directory
    obtain ⟨trace', walk'⟩ := visitDirectory_reads_on ignores walk called deeper
    refine ⟨_, runs_ask_bind.mpr ⟨(found, info), trace', rfl, ?_⟩⟩
    dsimp only
    rwa [if_neg found', if_neg directory]

/-- A visit in which the callback is called so stops at its first `FALSE`, whatever the file system replies,
exactly where no `FALSE` is for an entry of a subdirectory whose errors are ignored. -/
theorem directoryVisitUri_stops_iff (cfg : Config U) (infoOptions : InfoOptions) (visitOptions : VisitOptions)
    (callback : VisitFunc U D) (fuel : Nat) (uri : U) (data data' : D) (calls : List VisitCall) (result : VfsResult)
    (s s' : State) (trace : Trace U)
    (run : Runs (directoryVisitUri cfg infoOptions visitOptions (logged callback) fuel uri (data, []) s) trace
    (.returned ((result, data', calls), s'))):
    (∀ trace result data' s', Runs (directoryVisitUri cfg infoOptions visitOptions (logged callback) fuel uri (data, []) s)
        trace (.returned ((result, data', calls), s')) → Stops calls result) ↔
      visitOptions.ignoreRecurseError = false ∨ ∀ call ∈ calls, call.go = false → call.relPath = call.info.name := by
  constructor
  · intro stops
    by_contra lost
    obtain ⟨ignores, call, member, stop, deeper⟩ : visitOptions.ignoreRecurseError = true ∧
        ∃ call ∈ calls, call.go = false ∧ call.relPath ≠ call.info.name := by
      simpa [not_or] using lost
    obtain ⟨front, back, rfl⟩ := List.append_of_mem member
    obtain ⟨rfl, rfl⟩ := stops _ _ _ _ run front call back rfl stop
    have last : ¬ EndsAbove (front ++ [call]) := by
      rintro ⟨front', call', same, own⟩
      rw [List.singleton_inj.mp (List.append_inj' same rfl).2] at deeper
      exact deeper own
    obtain ⟨trace', other⟩ := directoryVisitUri_reads_on ignores run (by simp) last
    cases (stops _ _ _ _ other front call [] rfl stop).2
  · intro heard trace result data' s' run
    exact Action.wp_trace run wp_directoryVisitUri heard

/-- A directory with a subdirectory and a file. The callback says to stop inside the subdirectory. -/
def nestedReply : Nat → (op : Op Bytes) → op.Reply × Nat
  | reads, .getFileInfo u _ => ((.ok, { name := u, type := .directory }), reads)
  | 0, .readNext _ => ((.ok, { name := ascii "d", type := .directory }), 1)
  | 1, .readNext _ => ((.ok, { name := ascii "x", type := .regular }), 2)
  | 2, .readNext _ => ((.ok, { name := ascii "f", type := .regular }), 3)
  | reads, op => (calmReply op, reads)

def stopInside : VisitFunc Bytes Unit := fun relPath _ _ data => pure (relPath ≠ ascii "d/x", true, data)

def nestedVisit (visitOptions : VisitOptions) : XferM Bytes (VfsResult × Unit × List VisitCall) :=
  directoryVisitUri (plainConfig {}) {} visitOptions (logged stopInside) 5 (ascii "/r") ((), [])

def nestedRun (visitOptions : VisitOptions) : Trace Bytes × Outcome Stop ((VfsResult × Unit × List VisitCall) × State) :=
  Prog.exec nestedReply (nestedVisit visitOptions { overwriteMode := .abort }) 0

def nestedCalls : List VisitCall :=
  [⟨ascii "d", { name := ascii "d", type := .directory }, false, true⟩,
    ⟨ascii "d/x", { name := ascii "x", type := .regular }, false, false⟩,
    ⟨ascii "f", { name := ascii "f", type := .regular }, false, true⟩]

theorem nestedRun_returned :
    ∃ s, (nestedRun { ignoreRecurseError := true }).2 = .returned ((.ok, (), nestedCalls), s) := ⟨_, rfl⟩

theorem nestedVisit_runs : ∃ s, Runs (nestedVisit { ignoreRecurseError := true } { overwriteMode := .abort })
    (nestedRun { ignoreRecurseError := true }).1 (.returned ((.ok, (), nestedCalls), s)) := by
  obtain ⟨s, returned⟩ := nestedRun_returned
  exact ⟨s, returned ▸ Prog.exec_runs nestedReply _ _⟩

theorem directoryVisitUri_stops_iff_nested :
    (∀ trace result data' s', Runs (nestedVisit { ignoreRecurseError := true } { overwriteMode := .abort }) trace
        (.returned ((result, data', nestedCalls), s')) → Stops nestedCalls result) ↔
      true = false ∨ ∀ call ∈ nestedCalls, call.go = false → call.relPath = call.info.name := by
  obtain ⟨s, run⟩ := nestedVisit_runs
  exact directoryVisitUri_stops_iff (plainConfig {}) {} { ignoreRecurseError := true } stopInside 5 (ascii "/r") () ()
    nestedCalls .ok _ s _ run

/-- The callback returns `FALSE`, is called again, and the visit returns `OK`. -/
theorem directoryVisitUri_goes_on : ∃ trace s,
    Runs (nestedVisit { ignoreRecurseError := true } { overwriteMode := .abort }) trace
      (.returned ((.ok, (), nestedCalls), s)) ∧ ¬ Stops nestedCalls .ok := by
  obtain ⟨s, run⟩ := nestedVisit_runs
  exact ⟨_, s, run, fun stops => List.cons_ne_nil _ _ (stops (nestedCalls.take 1) _ (nestedCalls.drop 2) rfl rfl).1⟩

end Losing

end GnomeVfs.Xfer
