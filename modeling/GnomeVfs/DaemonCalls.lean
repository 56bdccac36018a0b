import GnomeVfs.DaemonCancel

/- What becomes of a call of `gnome_vfs_cancellation_cancel` for an operation of the daemon. -/
namespace GnomeVfs.DaemonCancel

open Transition

variable {n : Nat}

section Serving

variable {s t : State} {r q : Request}

/-- What the daemon's connections know of a request. -/
def Request.served (r : Request) : Phase × Nat × Nat × Option Nat × Option Bool :=
  (r.phase, r.connection, r.id, r.context, r.daemonContext)

/-- What the daemon keeps: a request is in one place, and `cancellations` has those that are running. -/
structure State.Serves (s : State) : Prop where
  queued : ∀ k, ∀ n ∈ s.incoming k, (s.requests n).phase = .queued ∧ (s.requests n).connection = k
  nodup : ∀ k, (s.incoming k).Nodup
  serving : ∀ k n, s.serving k = some n →
    ((s.requests n).phase ≠ .prepared ∧ (s.requests n).phase ≠ .queued) ∧ (s.requests n).connection = k
  listed : ∀ h ∈ s.registered, (s.requests h.request).phase = .running ∧ (s.requests h.request).id = h.id ∧
    (s.requests h.request).connection = h.connId ∧ (s.requests h.request).context ≠ none
  running : ∀ n, (s.requests n).phase = .running → ∃ h ∈ s.registered, h.request = n
  early : ∀ n, (s.requests n).phase ≠ .running → (s.requests n).phase ≠ .finished → (s.requests n).daemonContext = none

theorem State.Serves.new : State.new.Serves where
  queued _ _ never := by cases never
  nodup _ := List.nodup_nil
  serving _ _ never := by cases never
  listed _ never := by cases never
  running _ never := by cases never
  early _ _ _ := rfl

theorem State.Serves.frame (serves : s.Serves) (incoming : t.incoming = s.incoming)
    (serving : t.serving = s.serving) (registered : t.registered = s.registered)
    (served : ∀ n, (t.requests n).served = (s.requests n).served) : t.Serves := by
  have phase : ∀ n, (t.requests n).phase = (s.requests n).phase := fun n => congrArg (·.1) (served n)
  have connection : ∀ n, (t.requests n).connection = (s.requests n).connection := fun n => congrArg (·.2.1) (served n)
  have id : ∀ n, (t.requests n).id = (s.requests n).id := fun n => congrArg (·.2.2.1) (served n)
  have context : ∀ n, (t.requests n).context = (s.requests n).context := fun n => congrArg (·.2.2.2.1) (served n)
  have daemon : ∀ n, (t.requests n).daemonContext = (s.requests n).daemonContext := fun n => congrArg (·.2.2.2.2) (served n)
  constructor <;> simp only [incoming, serving, registered, phase, connection, id, context, daemon]
  · exact serves.queued
  · exact serves.nodup
  · exact serves.serving
  · exact serves.listed
  · exact serves.running
  · exact serves.early

theorem State.Serves.send (serves : s.Serves) (prepared : (s.requests n).phase = .prepared) :
    (s.sendRequest n).Serves := by
  have requests : ∀ m, (s.sendRequest n).requests m =
      if m = n then { s.requests n with phase := .queued } else s.requests m := fun m => Function.update_apply _ _ _ _
  have incoming : ∀ k, (s.sendRequest n).incoming k =
      if k = (s.requests n).connection then s.incoming (s.requests n).connection ++ [n] else s.incoming k :=
    fun k => Function.update_apply _ _ _ _
  have busy : (s.sendRequest n).serving = s.serving := rfl
  have registered : (s.sendRequest n).registered = s.registered := rfl
  have nowhere : ∀ k, n ∉ s.incoming k := by
    intro k queued
    rw [(serves.queued k n queued).1] at prepared
    cases prepared
  obtain ⟨queued, nodup, serving, listed, running, early⟩ := serves
  constructor
  · simp only [requests, incoming]
    grind
  · intro k
    rw [incoming]
    split
    · refine List.nodup_append.mpr ⟨nodup _, List.pairwise_singleton _ n, ?_⟩
      intro m member other last same
      rw [List.mem_singleton.mp last] at same
      exact nowhere _ (same ▸ member)
    · exact nodup k
  · simp only [requests, busy]
    grind
  · simp only [requests, registered]
    grind
  · simp only [requests, registered]
    grind
  · simp only [requests]
    grind

theorem State.Serves.leave (serves : s.Serves) {k n : Nat} {rest : List Nat} {phase : Phase}
    (here : s.incoming k = n :: rest) (taken : phase = .taken ∨ phase = .lost) :
    (s.leaveQueue k n rest phase).Serves := by
  have requests : ∀ m, (s.leaveQueue k n rest phase).requests m =
      if m = n then { s.requests n with phase := phase } else s.requests m := fun m => Function.update_apply _ _ _ _
  have incoming : ∀ j, (s.leaveQueue k n rest phase).incoming j = if j = k then rest else s.incoming j :=
    fun j => Function.update_apply _ _ _ _
  have busy : ∀ j, (s.leaveQueue k n rest phase).serving j =
      if phase = .taken ∧ j = k then some n else s.serving j := by
    intro j
    show (if phase = .taken then Function.update s.serving k (some n) else s.serving) j = _
    rw [ite_apply, Function.update_apply]
    grind
  have registered : (s.leaveQueue k n rest phase).registered = s.registered := rfl
  have first := serves.queued k n (by simp [here])
  have once := serves.nodup k
  rw [here] at once
  obtain ⟨queued, nodup, serving, listed, running, early⟩ := serves
  constructor
  · simp only [requests, incoming]
    grind
  · intro j
    rw [incoming]
    grind
  · simp only [requests, busy]
    grind
  · simp only [requests, registered]
    grind
  · simp only [requests, registered]
    grind
  · simp only [requests]
    grind

theorem State.Serves.add (serves : s.Serves) (clients : s.Clients) (taken : (s.requests n).phase = .taken)
    (named : (s.requests n).id ≠ noId) : (s.addCancellation n).Serves := by
  have requests : ∀ m, (s.addCancellation n).requests m =
      if m = n then { s.requests n with phase := .running, daemonContext := some false } else s.requests m :=
    fun m => Function.update_apply _ _ _ _
  have context : (s.requests n).context ≠ none := fun none => named (clients.anonymous n none)
  have registered : ∀ h, h ∈ (s.addCancellation n).registered ↔ h = ⟨(s.requests n).id, (s.requests n).connection, n⟩ ∨
      h ∈ s.registered ∧ ¬(h.id = (s.requests n).id ∧ h.connId = (s.requests n).connection) := by
    intro h
    show h ∈ _ :: List.filter _ _ ↔ _
    rw [List.mem_cons, List.mem_filter]
    grind
  have incoming : (s.addCancellation n).incoming = s.incoming := rfl
  have busy : (s.addCancellation n).serving = s.serving := rfl
  have distinct := clients.distinct
  obtain ⟨queued, nodup, serving, listed, running, early⟩ := serves
  constructor
  · simp only [requests, incoming]
    grind
  · exact nodup
  · simp only [requests, busy]
    grind
  · simp only [requests, registered]
    grind
  · simp only [requests, registered]
    intro m runs
    by_cases this : m = n
    · exact ⟨_, Or.inl rfl, this.symm⟩
    · rw [if_neg this] at runs
      obtain ⟨h, member, rfl⟩ := running m runs
      refine ⟨h, Or.inr ⟨member, ?_⟩, rfl⟩
      intro same
      obtain ⟨-, id, connection, other⟩ := listed h member
      exact this (distinct _ _ other context (connection.trans same.2) (id.trans same.1))
  · simp only [requests]
    grind

theorem State.Serves.finish (serves : s.Serves) (clients : s.Clients) {k n : Nat} (here : s.serving k = some n) :
    (s.finishRequest k n).Serves := by
  have requests : ∀ m, (s.finishRequest k n).requests m =
      if m = n then { s.requests n with phase := .finished } else s.requests m := by
    intro m
    unfold State.finishRequest
    dsimp only
    split
    · exact Function.update_apply _ _ _ _
    · exact Function.update_apply _ _ _ _
  have incoming : (s.finishRequest k n).incoming = s.incoming := by
    unfold State.finishRequest
    dsimp only
    split
    · rfl
    · rfl
  have busy : ∀ j, (s.finishRequest k n).serving j = if j = k then none else s.serving j := by
    intro j
    unfold State.finishRequest
    dsimp only
    split
    · exact Function.update_apply _ _ _ _
    · exact Function.update_apply _ _ _ _
  have registered : ∀ h, h ∈ (s.finishRequest k n).registered ↔ h ∈ s.registered ∧ ((s.requests n).phase = .running →
      ¬(h.id = (s.requests n).id ∧ h.connId = (s.requests n).connection)) := by
    intro h
    unfold State.finishRequest
    dsimp only
    split
    · rename_i runs
      show h ∈ List.filter _ _ ↔ _
      rw [List.mem_filter]
      grind
    · rename_i other
      exact ⟨fun member => ⟨member, fun runs => absurd runs other⟩, fun both => both.1⟩
  have away := (serves.serving k n here).1
  have distinct := clients.distinct
  obtain ⟨queued, nodup, serving, listed, running, early⟩ := serves
  constructor
  · simp only [requests, incoming]
    grind
  · simp only [incoming]
    exact nodup
  · simp only [requests, busy]
    grind
  · simp only [requests, registered]
    intro h member
    obtain ⟨runs, id, connection, context⟩ := listed h member.1
    by_cases this : h.request = n
    · rw [this] at runs id connection
      exact absurd ⟨id.symm, connection.symm⟩ (member.2 runs)
    · rw [if_neg this]
      exact ⟨runs, id, connection, context⟩
  · simp only [requests, registered]
    intro m runs
    by_cases this : m = n
    · rw [if_pos this] at runs
      cases runs
    · rw [if_neg this] at runs
      obtain ⟨h, member, rfl⟩ := running m runs
      refine ⟨h, ⟨member, ?_⟩, rfl⟩
      intro also same
      obtain ⟨-, id, connection, other⟩ := listed h member
      obtain ⟨g, there, rfl⟩ := running n also
      exact this (distinct _ _ other (listed g there).2.2.2 (connection.trans same.2) (id.trans same.1))
  · simp only [requests]
    grind

theorem State.Serves.fail (serves : s.Serves) (prepared : (s.requests n).phase = .prepared) :
    (s.setRequest n { s.requests n with phase := .lost }).Serves := by
  have requests : ∀ m, (s.setRequest n { s.requests n with phase := .lost }).requests m =
      if m = n then { s.requests n with phase := .lost } else s.requests m := fun m => Function.update_apply _ _ _ _
  have incoming : (s.setRequest n { s.requests n with phase := .lost }).incoming = s.incoming := rfl
  have busy : (s.setRequest n { s.requests n with phase := .lost }).serving = s.serving := rfl
  have registered : (s.setRequest n { s.requests n with phase := .lost }).registered = s.registered := rfl
  obtain ⟨queued, nodup, serving, listed, running, early⟩ := serves
  constructor
  · simp only [requests, incoming]
    grind
  · exact nodup
  · simp only [requests, busy]
    grind
  · simp only [requests, registered]
    grind
  · simp only [requests, registered]
    grind
  · simp only [requests]
    grind

/-- A request that is beyond its start has been made. -/
theorem State.used {phase : Phase} (is : (s.requests n).phase = phase) (later : phase ≠ .prepared) :
    s.requests n ≠ .blank := by
  intro blank
  rw [blank] at is
  exact later is.symm

/-- A new request is nowhere yet. -/
theorem State.Serves.begin (serves : s.Serves) (clients : s.Clients) (thread : Nat) (connection : LocalConnection)
    (context : Option Nat) (method : Method) : (s.executeOperation thread connection context method).Serves := by
  have blank := clients.unmade s.created (Nat.le_refl _)
  have prepared : (s.requests s.created).phase = .prepared := by
    rw [blank]
    rfl
  have requests : ∃ r, r.phase = .prepared ∧ r.daemonContext = none ∧
      ∀ n, (s.executeOperation thread connection context method).requests n = if n = s.created then r else s.requests n := by
    cases context with
    | none => exact ⟨_, rfl, rfl, fun n => Function.update_apply _ _ _ _⟩
    | some c => exact ⟨_, rfl, rfl, fun n => Function.update_apply _ _ _ _⟩
  have others : (s.executeOperation thread connection context method).incoming = s.incoming ∧
      (s.executeOperation thread connection context method).serving = s.serving ∧
      (s.executeOperation thread connection context method).registered = s.registered := by
    cases context with
    | none => exact ⟨rfl, rfl, rfl⟩
    | some c => exact ⟨rfl, rfl, rfl⟩
  obtain ⟨r, phase, daemon, requests⟩ := requests
  obtain ⟨incoming, busy, registered⟩ := others
  obtain ⟨queued, nodup, serving, listed, running, early⟩ := serves
  constructor
  · simp only [requests, incoming]
    grind
  · rw [incoming]
    exact nodup
  · simp only [requests, busy]
    grind
  · simp only [requests, registered]
    grind
  · simp only [requests, registered]
    grind
  · simp only [requests]
    grind

end Serving

variable {main : Nat} {m : CancelMessage} {rest : List CancelMessage}

section Calls

variable {s t : State} {r q : Request}

/-- What becomes of a request's context. -/
def Request.called (r : Request) : Option Nat × Nat × Nat × Bool × Option Phase × Option Bool × List (Option Nat) :=
  (r.context, r.id, r.connection, r.asked, r.met, r.daemonContext, r.cancelledBy)

/-- A message has the id of a request that was to be cancelled. Such a request has a message on its way, or
has met it; if it was running then it is cancelled, and if it was not there it has had no context since. -/
structure State.Calls (s : State) : Prop where
  named : ∀ main, ∀ m ∈ s.mains main, ∃ n, m.request = some n ∧ (s.requests n).context ≠ none ∧
    m.id = (s.requests n).id ∧ m.connection = (s.requests n).connection ∧ (s.requests n).asked = true
  reached : ∀ n, (s.requests n).asked = true → s.inFlight n ∨ (s.requests n).met ≠ none
  met : ∀ n phase, (s.requests n).met = some phase →
    (phase = .running → (s.requests n).daemonContext = some true) ∧
    (phase ≠ .running → phase ≠ .finished → (s.requests n).daemonContext = none)
  caused : ∀ n, (s.requests n).daemonContext = some true → (s.requests n).asked = true
  own : ∀ n, ∀ caller ∈ (s.requests n).cancelledBy, caller = some n

theorem State.Calls.new : State.new.Calls where
  named _ _ never := by cases never
  reached _ never := by cases never
  met _ _ never := by cases never
  caused _ never := by cases never
  own _ _ never := by cases never

/-- With a message met before the daemon had a context, the request has none at all. -/
theorem State.Calls.right (calls : s.Calls) : s.CancelsRight := by
  intro n
  refine ⟨?_, calls.caused n, calls.own n⟩
  intro asked
  rcases calls.reached n asked with flying | met
  · exact Or.inl flying
  · obtain ⟨phase, met⟩ := Option.ne_none_iff_exists'.mp met
    obtain ⟨cancelled, none⟩ := calls.met n phase met
    by_cases running : phase = .running
    · exact Or.inr (Or.inr (Or.inl (cancelled running)))
    · by_cases finished : phase = .finished
      · rw [finished] at met
        exact Or.inr (Or.inr (Or.inr met))
      · exact Or.inr (Or.inl (none running finished))

theorem State.Calls.frame (calls : s.Calls) (mains : t.mains = s.mains)
    (called : ∀ n, (t.requests n).called = (s.requests n).called) : t.Calls := by
  have context : ∀ n, (t.requests n).context = (s.requests n).context := fun n => congrArg (·.1) (called n)
  have id : ∀ n, (t.requests n).id = (s.requests n).id := fun n => congrArg (·.2.1) (called n)
  have connection : ∀ n, (t.requests n).connection = (s.requests n).connection := fun n => congrArg (·.2.2.1) (called n)
  have asked : ∀ n, (t.requests n).asked = (s.requests n).asked := fun n => congrArg (·.2.2.2.1) (called n)
  have met : ∀ n, (t.requests n).met = (s.requests n).met := fun n => congrArg (·.2.2.2.2.1) (called n)
  have daemon : ∀ n, (t.requests n).daemonContext = (s.requests n).daemonContext := fun n => congrArg (·.2.2.2.2.2.1) (called n)
  have own : ∀ n, (t.requests n).cancelledBy = (s.requests n).cancelledBy := fun n => congrArg (·.2.2.2.2.2.2) (called n)
  constructor <;> simp only [State.inFlight, mains, context, id, connection, asked, met, daemon, own]
  · exact calls.named
  · exact calls.reached
  · exact calls.met
  · exact calls.caused
  · exact calls.own

theorem State.Calls.setRequest (calls : s.Calls) (mains : t.mains = s.mains)
    (requests : ∀ m, t.requests m = if m = n then q else s.requests m) (same : q.called = (s.requests n).called) :
    t.Calls := by
  apply calls.frame mains
  intro m
  rw [requests]
  split
  · rename_i this
    rw [same, this]
  · rfl

theorem State.Calls.begin (calls : s.Calls) (clients : s.Clients) (thread : Nat) (connection : LocalConnection)
    (context : Option Nat) (method : Method) : (s.executeOperation thread connection context method).Calls := by
  have blank := clients.unmade s.created (Nat.le_refl _)
  have requests : ∃ r, r.asked = false ∧ r.met = none ∧ r.daemonContext = none ∧ r.cancelledBy = [] ∧
      ∀ n, (s.executeOperation thread connection context method).requests n = if n = s.created then r else s.requests n := by
    cases context with
    | none => exact ⟨_, rfl, rfl, rfl, rfl, fun n => Function.update_apply _ _ _ _⟩
    | some c => exact ⟨_, rfl, rfl, rfl, rfl, fun n => Function.update_apply _ _ _ _⟩
  have mains : (s.executeOperation thread connection context method).mains = s.mains := by
    cases context with
    | none => rfl
    | some c => rfl
  obtain ⟨r, unasked, unmet, daemon, nobody, requests⟩ := requests
  obtain ⟨named, reached, met, caused, own⟩ := calls
  constructor
  · intro main m
    rw [mains]
    intro flying
    obtain ⟨n, about, context, rest⟩ := named main m flying
    have this : n ≠ s.created := by
      intro this
      rw [this, blank] at context
      exact context rfl
    refine ⟨n, about, ?_⟩
    rw [requests, if_neg this]
    exact ⟨context, rest⟩
  · simp only [requests, State.inFlight, mains]
    intro n asked
    by_cases this : n = s.created
    · rw [if_pos this, unasked] at asked
      cases asked
    · rw [if_neg this] at asked ⊢
      exact reached n asked
  · simp only [requests]
    grind
  · simp only [requests]
    grind
  · simp only [requests]
    grind

theorem State.Calls.again (calls : s.Calls) (clients : s.Clients) {c : Nat}
    (old : ∀ n < s.created, (s.requests n).executing = true → (s.requests n).context = some c → (s.requests n).asked = true) :
    (s.ask c).Calls := by
  refine calls.frame (t := s.ask c) rfl ?_
  intro n
  have asked : ((s.requests n).asked || ((s.requests n).executing && (s.requests n).context = some c)) = (s.requests n).asked := by
    by_cases made : n < s.created
    · grind
    · rw [clients.unmade n (by omega)]
      rfl
  show (_, _, _, _ || _, _) = _
  rw [asked]
  rfl

theorem State.Clients.requestOf (clients : s.Clients) {c n : Nat} (executing : (s.requests n).executing = true)
    (context : (s.requests n).context = some c) : s.requestOf c = some n := by
  have made : n < s.created := by
    by_contra unmade
    rw [clients.unmade n (by omega)] at executing
    cases executing
  cases found : s.requestOf c with
  | none =>
    have all := List.find?_eq_none.mp found n (List.mem_range.mpr made)
    simp [executing, context] at all
  | some m =>
    have fits := List.find?_some found
    simp only [Bool.and_eq_true, decide_eq_true_eq] at fits
    rw [clients.single m n c fits.1 fits.2 executing context]

/-- A call for a request puts a message on its way. -/
theorem State.Calls.call (calls : s.Calls) (about : m.request = some n) (context : (s.requests n).context ≠ none)
    (id : m.id = (s.requests n).id) (connection : m.connection = (s.requests n).connection)
    (requests : ∀ k, t.requests k = { s.requests k with asked := (s.requests k).asked || decide (k = n) })
    (mains : ∀ j, t.mains j = if j = main then s.mains main ++ [m] else s.mains j) : t.Calls := by
  have flying : ∀ k, s.inFlight k ∨ k = n → t.inFlight k := by
    intro k before
    rcases before with ⟨j, message, member, same⟩ | rfl
    · refine ⟨j, message, ?_, same⟩
      rw [mains]
      split
      · rename_i this
        rw [this] at member
        exact List.mem_append_left _ member
      · exact member
    · refine ⟨main, m, ?_, about⟩
      rw [mains, if_pos rfl]
      exact List.mem_append_right _ (List.mem_singleton_self m)
  obtain ⟨named, reached, met, caused, own⟩ := calls
  constructor
  · intro j message
    rw [mains]
    simp only [requests]
    intro member
    by_cases new : message = m
    · rw [new]
      exact ⟨n, about, context, id, connection, by simp⟩
    · have before : message ∈ s.mains j := by grind
      obtain ⟨k, other, rest, key, toward, asked⟩ := named j message before
      exact ⟨k, other, rest, key, toward, by rw [asked]; rfl⟩
  · simp only [requests]
    intro k asked
    by_cases this : k = n
    · exact Or.inl (flying k (Or.inr this))
    · have before : (s.requests k).asked = true := by simpa [this] using asked
      rcases reached k before with way | done
      · exact Or.inl (flying k (Or.inl way))
      · exact Or.inr done
  · simp only [requests]
    exact met
  · simp only [requests]
    grind
  · simp only [requests]
    exact own

theorem State.Calls.cancel (calls : s.Calls) (clients : s.Clients) (main c : Nat)
    (old : (s.cancellations c).cancelled = true →
      ∀ n < s.created, (s.requests n).executing = true → (s.requests n).context = some c → (s.requests n).asked = true):
    (s.cancellationCancel main c).Calls := by
  unfold State.cancellationCancel
  dsimp only
  split
  · rename_i cancelled
    exact calls.again clients (old cancelled)
  · by_cases used : ∃ n, (s.requests n).executing = true ∧ (s.requests n).context = some c
    · obtain ⟨n, executing, context⟩ := used
      obtain ⟨id, connection⟩ := clients.handles n c executing context
      have there : (s.requests n).context ≠ none := by
        rw [context]
        exact Option.some_ne_none c
      have only : ∀ m, ((s.requests m).executing && (s.requests m).context = some c) = decide (m = n) := by
        intro m
        have single := clients.single m n c
        grind
      have set : (s.cancellations c).handle ≠ 0 := by
        rw [id]
        exact Nat.ne_of_gt (clients.numbered n there).2.1
      rw [if_pos set]
      refine calls.call (clients.requestOf executing context) there id connection ?_ fun j => Function.update_apply _ _ _ _
      intro m
      rw [← only m]
      rfl
    · -- there is no handle to send
      have unset : (s.cancellations c).handle = 0 := by
        by_contra set
        exact used (clients.unset c set)
      rw [if_neg (by rw [unset]; decide)]
      refine (calls.again clients (c := c) ?_).frame rfl fun _ => rfl
      intro n _ executing context
      exact absurd ⟨n, executing, context⟩ used

theorem State.Clients.cancel (clients : s.Clients) (main c : Nat) : (s.cancellationCancel main c).Clients := by
  have handles : ∀ d, (Function.update s.cancellations c { s.cancellations c with cancelled := true } d).handle =
        (s.cancellations d).handle ∧
      (Function.update s.cancellations c { s.cancellations c with cancelled := true } d).connection =
        (s.cancellations d).connection := by
    intro d
    rw [Function.update_apply]
    split
    · rename_i this
      rw [this]
      exact ⟨rfl, rfl⟩
    · exact ⟨rfl, rfl⟩
  have blank : ∀ n, s.created ≤ n → s.requests n = .blank → (s.ask c).requests n = .blank := by
    intro n _ this
    show ({ s.requests n with
      asked := (s.requests n).asked || ((s.requests n).executing && (s.requests n).context = some c) } : Request) = .blank
    rw [this]
    rfl
  unfold State.cancellationCancel
  dsimp only
  split
  · exact clients.frame (t := s.ask c) rfl rfl rfl rfl (fun _ => rfl) (fun _ => rfl) blank fun _ => rfl
  · split
    · exact clients.frame rfl rfl rfl rfl (fun d => (handles d).1) (fun d => (handles d).2) blank fun _ => rfl
    · exact clients.frame rfl rfl rfl rfl (fun d => (handles d).1) (fun d => (handles d).2) blank fun _ => rfl

/-- The context that the daemon adds has not been asked for by a message yet. -/
theorem State.Calls.add (calls : s.Calls) (unmet : (s.requests n).met = none) : (s.addCancellation n).Calls := by
  have requests : ∀ m, (s.addCancellation n).requests m =
      if m = n then { s.requests n with phase := .running, daemonContext := some false } else s.requests m :=
    fun m => Function.update_apply _ _ _ _
  have mains : (s.addCancellation n).mains = s.mains := rfl
  obtain ⟨named, reached, met, caused, own⟩ := calls
  constructor
  · simp only [requests, mains]
    intro main m flying
    obtain ⟨k, about, context, id, connection, asked⟩ := named main m flying
    refine ⟨k, about, ?_⟩
    split
    · rename_i this
      rw [this] at context id connection asked
      exact ⟨context, id, connection, asked⟩
    · exact ⟨context, id, connection, asked⟩
  · simp only [requests, State.inFlight, mains]
    intro k asked
    by_cases this : k = n
    · rw [if_pos this] at asked ⊢
      rw [this]
      exact reached n asked
    · rw [if_neg this] at asked ⊢
      exact reached k asked
  · simp only [requests]
    grind
  · simp only [requests]
    grind
  · simp only [requests]
    grind

/-- A message meets its own request: the context is cancelled when the request is running, and otherwise
nothing is. -/
theorem State.deliver_requests (clients : s.Clients) (serves : s.Serves) (about : m.request = some n)
    (context : (s.requests n).context ≠ none) (id : m.id = (s.requests n).id)
    (connection : m.connection = (s.requests n).connection) :
    (({ s with mains := Function.update s.mains main rest } : State).meet m.request).daemonConnectionCancel
      m.connection m.id m.request =
    { s with
      mains := Function.update s.mains main rest
      requests := Function.update s.requests n (if (s.requests n).phase = .running then
        { s.requests n with
          met := some .running
          daemonContext := some true
          cancelledBy := some n :: (s.requests n).cancelledBy }
      else { s.requests n with met := some (s.requests n).phase }) } := by
  have key : ∀ h ∈ s.registered, (h.id = m.id && h.connId = m.connection) = decide (h.request = n) := by
    intro h member
    obtain ⟨-, own, toward, other⟩ := serves.listed h member
    have distinct := clients.distinct h.request n other context
    grind
  rw [about]
  unfold State.meet State.daemonConnectionCancel
  dsimp only [State.setRequest]
  cases found : s.registered.find? (fun h => h.id = m.id && h.connId = m.connection) with
  | none =>
    have idle : (s.requests n).phase ≠ .running := by
      intro running
      obtain ⟨h, member, same⟩ := serves.running n running
      have unlike := List.find?_eq_none.mp found h member
      rw [key h member, same] at unlike
      exact unlike (decide_eq_true rfl)
    rw [if_neg idle]
  | some h =>
    have member := List.mem_of_find?_eq_some found
    have fits := List.find?_some found
    rw [key h member, decide_eq_true_eq] at fits
    have running : (s.requests n).phase = .running := by
      rw [← fits]
      exact (serves.listed h member).1
    rw [if_pos running]
    dsimp only
    rw [fits, Function.update_self, Function.update_idem, running]

theorem State.Calls.deliver (calls : s.Calls) (serves : s.Serves)
    (here : s.mains main = m :: rest) (about : m.request = some n)
    (asked : (s.requests n).asked = true)
    (requests : ∀ k, t.requests k = if k = n then (if (s.requests n).phase = .running then
    { s.requests n with
          met := some .running
          daemonContext := some true
          cancelledBy := some n :: (s.requests n).cancelledBy }
      else { s.requests n with met := some (s.requests n).phase }) else s.requests k)
    (mains : ∀ j, t.mains j = if j = main then rest else s.mains j): t.Calls := by
  have fields : ∀ k, (t.requests k).context = (s.requests k).context ∧ (t.requests k).id = (s.requests k).id ∧
      (t.requests k).connection = (s.requests k).connection ∧ (t.requests k).asked = (s.requests k).asked := by
    intro k
    rw [requests]
    grind
  have early := serves.early n
  obtain ⟨named, reached, met, caused, own⟩ := calls
  constructor
  · intro j message flying
    rw [mains] at flying
    have before : message ∈ s.mains j := by grind
    obtain ⟨k, other, facts⟩ := named j message before
    obtain ⟨context, id, connection, same⟩ := fields k
    refine ⟨k, other, ?_⟩
    rw [context, id, connection, same]
    exact facts
  · intro k
    rw [(fields k).2.2.2]
    intro waiting
    by_cases this : k = n
    · right
      rw [requests, if_pos this]
      split
      · exact Option.some_ne_none _
      · exact Option.some_ne_none _
    · rcases reached k waiting with ⟨j, message, member, same⟩ | done
      · left
        refine ⟨j, message, ?_, same⟩
        rw [mains]
        split
        · rename_i that
          rw [that, here] at member
          rcases List.mem_cons.mp member with first | later
          · rw [first, about] at same
            exact absurd (Option.some.inj same).symm this
          · exact later
        · exact member
      · right
        rw [requests, if_neg this]
        exact done
  · simp only [requests]
    grind
  · simp only [requests]
    grind
  · simp only [requests]
    grind

/-- What a run keeps. -/
structure State.Sound (s : State) : Prop where
  clients : s.Clients
  serves : s.Serves
  calls : s.Calls

theorem State.Sound.new : State.new.Sound := ⟨.new, .new, .new⟩

theorem State.Sound.deliver (sound : s.Sound) (here : s.mains main = m :: rest) :
    ((({ s with mains := Function.update s.mains main rest } : State).meet m.request).daemonConnectionCancel
      m.connection m.id m.request).Sound := by
  obtain ⟨n, about, context, id, connection, asked⟩ := sound.calls.named main m (by simp [here])
  rw [State.deliver_requests sound.clients sound.serves about context id connection]
  have used : s.requests n ≠ .blank := by
    intro blank
    rw [blank] at asked
    cases asked
  have requests := fun k => Function.update_apply s.requests n (if (s.requests n).phase = .running then
    { s.requests n with
      met := some .running
      daemonContext := some true
      cancelledBy := some n :: (s.requests n).cancelledBy }
    else { s.requests n with met := some (s.requests n).phase }) k
  refine ⟨?_, ?_, ?_⟩
  · refine sound.clients.change rfl rfl rfl rfl rfl requests ?_ used
    split
    · rfl
    · rfl
  · obtain ⟨queued, nodup, serving, listed, running, early⟩ := sound.serves
    constructor
    · simp only [requests]
      grind
    · exact nodup
    · simp only [requests]
      grind
    · simp only [requests]
      grind
    · simp only [requests]
      grind
    · simp only [requests]
      grind
  · exact sound.calls.deliver sound.serves here about asked requests fun j => Function.update_apply _ _ _ _

end Calls

section Runs

variable {s t : State} {event : Event}

theorem State.Sound.step (sound : s.Sound) (allowed : s.allowed event) (careful : s.careful event)
    (stepped : s.step event = some t) : t.Sound := by
  obtain ⟨clients, serves, calls⟩ := sound
  unfold State.step at stepped
  rw [if_neg (by rw [clients.calm]; decide)] at stepped
  cases event with
  | connect thread =>
    dsimp only at stepped
    split at stepped
    · rename_i idle
      cases stepped
      exact ⟨clients.connect idle careful, serves.frame rfl rfl rfl fun _ => rfl, calls.frame rfl fun _ => rfl⟩
    · cases stepped
  | begin thread context method =>
    dsimp only at stepped
    split at stepped
    · rename_i connection idle
      cases stepped
      refine ⟨clients.begin idle ?_ ?_, serves.begin clients _ _ _ _, calls.begin clients _ _ _ _⟩
      · intro c is
        rw [Option.mem_def.mp is] at allowed
        exact allowed
      · intro named
        obtain ⟨c, is⟩ := Option.ne_none_iff_exists'.mp named
        rw [is] at careful
        exact careful connection (by rw [idle]; rfl)
    · cases stepped
  | send thread =>
    dsimp only at stepped
    split at stepped
    · rename_i n executing
      split at stepped
      · rename_i prepared
        cases stepped
        have requests := fun k => Function.update_apply s.requests n { s.requests n with phase := .queued } k
        refine ⟨clients.change rfl rfl rfl rfl rfl requests rfl ?_, serves.send prepared,
          calls.setRequest rfl requests rfl⟩
        intro blank
        have used := (clients.held thread n executing).1
        rw [blank] at used
        cases used
      · cases stepped
    · cases stepped
  | fail thread =>
    dsimp only at stepped
    split at stepped
    · rename_i n executing
      split at stepped
      · rename_i prepared
        cases stepped
        have requests := fun k => Function.update_apply s.requests n { s.requests n with phase := .lost } k
        refine ⟨clients.change rfl rfl rfl rfl rfl requests rfl ?_, serves.fail prepared,
          calls.setRequest rfl requests rfl⟩
        intro blank
        have used := (clients.held thread n executing).1
        rw [blank] at used
        cases used
      · cases stepped
    · cases stepped
  | die thread =>
    dsimp only at stepped
    split at stepped
    · split at stepped
      · cases stepped
      · cases stepped
        exact ⟨clients.die thread, serves.frame rfl rfl rfl fun _ => rfl, calls.frame rfl fun _ => rfl⟩
    · cases stepped
  | free thread =>
    dsimp only at stepped
    split at stepped
    · rename_i n executing
      split at stepped
      · cases stepped
      · cases stepped
        have same : ∀ {β : Type} (f : Request → β), f { s.requests n with executing := false } = f (s.requests n) →
            ∀ m, f (Function.update s.requests n { s.requests n with executing := false } m) = f (s.requests m) := by
          intro β f unseen m
          rw [Function.update_apply]
          split
          · rename_i this
            rw [unseen, this]
          · rfl
        refine ⟨clients.free executing, ?_, ?_⟩
        · unfold State.cancellationIdFree
          dsimp only
          split
          · split
            · exact serves.frame rfl rfl rfl (same (·.served) rfl)
            · exact serves.frame rfl rfl rfl (same (·.served) rfl)
          · exact serves.frame rfl rfl rfl (same (·.served) rfl)
        · unfold State.cancellationIdFree
          dsimp only
          split
          · split
            · exact calls.frame rfl (same (·.called) rfl)
            · exact calls.frame rfl (same (·.called) rfl)
          · exact calls.frame rfl (same (·.called) rfl)
    · cases stepped
  | cancel main context =>
    cases stepped
    refine ⟨?_, ?_, calls.cancel clients main context careful⟩
    · exact clients.cancel main context
    · unfold State.cancellationCancel
      dsimp only
      split
      · exact serves.frame rfl rfl rfl fun _ => rfl
      · split
        · exact serves.frame rfl rfl rfl fun _ => rfl
        · exact serves.frame rfl rfl rfl fun _ => rfl
  | lose connection =>
    dsimp only at stepped
    split at stepped
    · rename_i n rest here
      cases stepped
      have requests := fun k => Function.update_apply s.requests n { s.requests n with phase := .lost } k
      refine ⟨clients.change rfl rfl rfl rfl rfl requests rfl ?_, serves.leave here (Or.inr rfl),
        calls.setRequest rfl requests rfl⟩
      exact State.used (serves.queued connection n (by simp [here])).1 (by decide)
    · cases stepped
  | take connection =>
    dsimp only at stepped
    split at stepped
    · rename_i n rest here idle
      cases stepped
      have requests := fun k => Function.update_apply s.requests n { s.requests n with phase := .taken } k
      refine ⟨clients.change rfl rfl rfl rfl rfl requests rfl ?_, serves.leave here (Or.inl rfl),
        calls.setRequest rfl requests rfl⟩
      exact State.used (serves.queued connection n (by simp [here])).1 (by decide)
    · cases stepped
  | add connection =>
    dsimp only at stepped
    split at stepped
    · rename_i n here
      split at stepped
      · rename_i fits
        cases stepped
        have requests := fun k => Function.update_apply s.requests n
          { s.requests n with phase := .running, daemonContext := some false } k
        exact ⟨clients.change rfl rfl rfl rfl rfl requests rfl (State.used fits.1 (by decide)),
          serves.add clients fits.1 fits.2.2, calls.add (careful n here)⟩
      · cases stepped
    · cases stepped
  | finish connection =>
    dsimp only at stepped
    split at stepped
    · rename_i n here
      cases stepped
      have used : s.requests n ≠ .blank := State.used rfl (serves.serving connection n here).1.1
      refine ⟨?_, serves.finish clients here, ?_⟩
      · unfold State.finishRequest
        dsimp only
        split
        · exact clients.change rfl rfl rfl rfl rfl (Function.update_apply s.requests n _) rfl used
        · exact clients.change rfl rfl rfl rfl rfl (Function.update_apply s.requests n _) rfl used
      · unfold State.finishRequest
        dsimp only
        split
        · exact calls.setRequest rfl (Function.update_apply s.requests n _) rfl
        · exact calls.setRequest rfl (Function.update_apply s.requests n _) rfl
    · cases stepped
  | deliver main =>
    dsimp only at stepped
    split at stepped
    · rename_i m rest here
      cases stepped
      exact State.Sound.deliver ⟨clients, serves, calls⟩ here
    · cases stepped

/-- Where no `Cancel` comes before its request is registered, no context is used that was cancelled before,
and no counter runs over, every cancelled operation is cancelled in the daemon, and no other one. -/
theorem State.run_cancels (run : Run State.step (fun s e => s.allowed e ∧ s.careful e) State.new s) :
    s.aborted = false ∧ s.CancelsRight := by
  have sound : s.Sound := by
    apply run.keeps (P := State.Sound) State.Sound.new
    intro s event t sound fits stepped
    exact sound.step fits.1 fits.2 stepped
  exact ⟨sound.clients.calm, sound.calls.right⟩

/-- Two threads of a client, one of which is cancelled while its file is opened. -/
def opening : List Event :=
  [.connect 0, .connect 1, .begin 0 (some 7) .open, .begin 1 (some 8) .open, .send 1, .send 0, .cancel 0 7, .take 2, .take 1,
    .add 1, .add 2, .deliver 0]

instance decidableCareful (s : State) : ∀ event : Event, Decidable (s.careful event)
  | .add connection => inferInstanceAs (Decidable (∀ n ∈ s.serving connection, (s.requests n).met = none))
  | .cancel _ context => inferInstanceAs (Decidable ((s.cancellations context).cancelled = true →
      ∀ n < s.created, (s.requests n).executing = true → (s.requests n).context = some context → (s.requests n).asked = true))
  | .connect _ => inferInstanceAs (Decidable (s.connId + 1 < 2 ^ 32))
  | .begin thread (some _) _ => inferInstanceAs (Decidable
      (∀ connection ∈ (s.threads thread).connection, connection.handle + 1 < noId))
  | .begin _ none _ | .send _ | .fail _ | .die _ | .free _ | .lose _ | .take _ | .finish _ | .deliver _ => .isTrue trivial

theorem run_cancels_opening : ∃ s : State, s.CancelsRight ∧ (s.requests 0).asked = true ∧
    (s.requests 0).daemonContext = some true ∧ (s.requests 1).daemonContext = some false := by
  have followed : ∃ s, opening.foldlM (guarded State.step fun s e => s.allowed e ∧ s.careful e) State.new = some s ∧
      (s.requests 0).asked = true ∧ (s.requests 0).daemonContext = some true ∧ (s.requests 1).daemonContext = some false :=
    ⟨_, rfl, rfl, rfl, rfl⟩
  obtain ⟨s, followed, asked, cancelled, other⟩ := followed
  exact ⟨s, (State.run_cancels (Run.of_foldlM _ followed)).2, asked, cancelled, other⟩

/-- `Cancel` overtakes the request: nothing is found that has its id, and the context that is then made for it
is never cancelled. -/
def overtaken : List Event :=
  [.connect 0, .begin 0 (some 7) .open, .send 0, .cancel 0 7, .deliver 0, .take 1, .add 1]

theorem cancel_overtakes : ∃ s, Run State.step State.allowed State.new s ∧ ¬ s.CancelsRight := by
  have followed : ∃ s, overtaken.foldlM (guarded State.step State.allowed) State.new = some s ∧
      (s.requests 0).asked = true ∧ (∀ main, s.mains main = []) ∧ (s.requests 0).daemonContext = some false ∧
      (s.requests 0).met = some .queued := by
    refine ⟨_, rfl, rfl, ?_, rfl, rfl⟩
    intro main
    cases main with
    | zero => rfl
    | succ main => rfl
  obtain ⟨s, followed, asked, empty, context, met⟩ := followed
  refine ⟨s, Run.of_foldlM _ followed, ?_⟩
  intro right
  rcases (right 0).1 asked with ⟨main, m, member, -⟩ | never | never | never
  · rw [empty main] at member
    cases member
  · rw [context] at never
    cases never
  · rw [context] at never
    cases never
  · rw [met] at never
    cases never

end Runs

end GnomeVfs.DaemonCancel
