import Mathlib.Data.List.Perm.Basic
import GnomeVfs.FtpAcquire

/- The callers of the pools, which give the lock up only while they ask the user. -/
namespace GnomeVfs.Ftp

open Interaction Transition

variable {M : Type}

section System

/-- What servers, proxies and clocks answer, in their order. -/
abbrev Answers (M : Type) := Nat → (r : MethodReq M) → r.Resp

abbrev Acquiring (M : Type) := Prog (MethodReq.Resp (M := M)) Stop ((VfsResult × Option Nat) × Tables M)

/-- A caller in an authentication callback: the connection that is made, what is asked, and what is
done when the answer and the lock are there. -/
structure Caller (M : Type) where
  connection : Nat
  question : Callback
  next : question.Resp × Tables M → Acquiring M

structure Callers (M : Type) where
  tables : Tables M
  callers : List (Caller M)

/-- As far as the lock is held: to the end, or to the next callback. -/
def locked (answers : Answers M) : Nat → Acquiring M → Option (Tables M × Option (Caller M))
  | _, .done r => some (r.2, none)
  | _, .stop _ => none
  | _, .ask (.callback c question s) next => some (s, some ⟨c, question, next⟩)
  | n, .ask r next => locked answers (n + 1) (next (answers n r))

inductive CallersEvent (M : Type) where
  | acquire (uri : Uri M) (fuel : Nat) (answers : Answers M)
  | resume (i : Nat) (answer : (question : Callback) → question.Resp) (answers : Answers M)
  | release (c : Nat) (errorRelease : Bool)
  | monitorAdd (uri : Uri M)
  | monitorCancel (p : Nat)
  | reap (now : Nat → Nat)

variable (proxy : Proxy)

def Callers.step (s : Callers M) : CallersEvent M → Option (Callers M)
  | .acquire uri fuel answers =>
    (locked answers 0 (ftpConnectionAcquire proxy fuel uri s.tables)).map fun (tables, caller) =>
      ⟨tables, s.callers ++ caller.toList⟩
  | .resume i answer answers =>
    s.callers[i]?.bind fun caller =>
      (locked answers 0 (caller.next (answer caller.question, s.tables))).map fun (tables, caller) =>
        ⟨tables, s.callers.eraseIdx i ++ caller.toList⟩
  | .release c errorRelease => some { s with tables := ftpConnectionRelease c errorRelease s.tables }
  | .monitorAdd uri => some { s with tables := doMonitorAdd uri s.tables }
  | .monitorCancel p => some { s with tables := doMonitorCancel p s.tables }
  | .reap now => some { s with tables := ftpConnectionPoolsReap now s.tables }

/-- Who has a connection may release it, a monitor is cancelled once, and the timer fires when it is
pending. -/
def Callers.Allowed (s : Callers M) : CallersEvent M → Prop
  | .release c _ => ∃ entry, s.tables.connections[c]? = some entry ∧ entry.place = .used
  | .monitorCancel p => p ∈ s.tables.monitors
  | .reap _ => s.tables.connectionPoolTimeout = true
  | _ => True

end System

section Invariant

/-- What a caller may count on when it goes on. -/
def Caller.Waits (caller : Caller M) (s : Tables M) : Prop :=
  ∃ p, s.askedFor caller.connection = some p ∧ ∀ answer (s' : Tables M) (w' : Nat → Option Nat), s'.Balanced →
    w' caller.connection = none → s'.askedFor = Function.update w' caller.connection (some p) →
      (caller.next (answer, s')).safe others balancedDemand
        (fun r w => (r.2.Balanced ∧ r.2.askedFor = w) ∧ Acquired r.2 r.1.2) Exhausted w'

/-- The accounts are right, and each connection that is asked for has its caller. -/
structure Callers.Inv (s : Callers M) : Prop where
  balanced : s.tables.Balanced
  distinct : (s.callers.map (·.connection)).Nodup
  asked : ∀ c, c ∈ s.callers.map (·.connection) ↔ (s.tables.askedFor c).isSome
  waits : ∀ caller ∈ s.callers, caller.Waits s.tables

variable {proxy : Proxy} {s t : Callers M} {e : CallersEvent M}

/-- What is kept from one release of the lock to the next. -/
theorem locked_safe (answers : Answers M) {x : Acquiring M} : ∀ {n : Nat} {w : Nat → Option Nat},
    x.safe others balancedDemand (fun r w => (r.2.Balanced ∧ r.2.askedFor = w) ∧ Acquired r.2 r.1.2) Exhausted w →
      ∀ {tables : Tables M} {caller : Option (Caller M)}, locked answers n x = some (tables, caller) →
        tables.Balanced ∧ match caller with
          | none => tables.askedFor = w
          | some caller => w caller.connection = none ∧ caller.Waits tables ∧
              ∃ p, tables.askedFor = Function.update w caller.connection (some p) := by
  induction x with
  | done r =>
    intro n w safe tables caller reached
    cases reached
    exact safe.1
  | stop reason =>
    intro n w safe tables caller reached
    cases reached
  | ask r next ih =>
    intro n w safe tables caller reached
    cases r with
    | callback c question s =>
      cases reached
      obtain ⟨⟨balanced, free, p, asked⟩, goes⟩ := safe
      refine ⟨balanced, free, ⟨p, ?_, ?_⟩, p, asked⟩
      · rw [asked, Function.update_self]
      · intro answer s' w' balanced' free' asked'
        apply goes (answer, s') w'
        refine ⟨balanced', free', ?_⟩
        rw [asked', asked, Function.update_self]
    | unlock s => exact safe.1.elim
    | control c request => exact ih _ (safe.2 _ w rfl) reached
    | connect c host port => exact ih _ (safe.2 _ w rfl) reached
    | clock => exact ih _ (safe.2 _ w rfl) reached

/-- The callers that are left wait on, and maybe one more. -/
theorem Callers.Inv.proceed {left : List (Caller M)} {tables₀ tables : Tables M} {w : Nat → Option Nat}
    {caller : Option (Caller M)} (distinct : (left.map (·.connection)).Nodup)
    (asked : ∀ c, c ∈ left.map (·.connection) ↔ (w c).isSome) (waits : ∀ caller ∈ left, caller.Waits tables₀)
    (same : ∀ c ∈ left.map (·.connection), w c = tables₀.askedFor c) (balanced : tables.Balanced)
    (reached : match caller with
      | none => tables.askedFor = w
      | some caller => w caller.connection = none ∧ caller.Waits tables ∧
          ∃ p, tables.askedFor = Function.update w caller.connection (some p)) :
    Callers.Inv ⟨tables, left ++ caller.toList⟩ := by
  cases caller with
  | none =>
    have reached : tables.askedFor = w := reached
    rw [Option.toList_none, List.append_nil]
    refine ⟨balanced, distinct, ?_, ?_⟩
    · intro c
      rw [reached]
      exact asked c
    · intro caller member
      obtain ⟨p, there, goes⟩ := waits caller member
      refine ⟨p, ?_, goes⟩
      rw [reached, same _ (List.mem_map_of_mem member), there]
  | some caller =>
    obtain ⟨free, waiting, p, reached⟩ := reached
    have other : ∀ c ∈ left.map (·.connection), c ≠ caller.connection := by
      intro c member equal
      have inside := (asked c).mp member
      rw [equal, free] at inside
      cases inside
    rw [Option.toList_some]
    refine ⟨balanced, ?_, ?_, ?_⟩
    · rw [List.map_append, List.nodup_append]
      refine ⟨distinct, by simp, ?_⟩
      intro c member d last
      rw [List.mem_singleton.mp last]
      exact other c member
    · intro c
      rw [List.map_append, List.mem_append, reached, asked c]
      by_cases own : c = caller.connection
      · simp [own]
      · simp [own]
    · intro other' member
      rcases List.mem_append.mp member with old | last
      · obtain ⟨q, there, goes⟩ := waits other' old
        refine ⟨q, ?_, goes⟩
        have inside := List.mem_map_of_mem (f := (·.connection)) old
        rw [reached, Function.update_of_ne (other _ inside), same _ inside, there]
      · rw [List.mem_singleton.mp last]
        exact waiting

theorem Callers.Inv.apart (inv : s.Inv) {tables : Tables M} (balanced : tables.Balanced)
    (asked : tables.askedFor = s.tables.askedFor) : Callers.Inv { s with tables := tables } := by
  refine ⟨balanced, inv.distinct, ?_, ?_⟩
  · intro c
    rw [asked]
    exact inv.asked c
  · intro caller member
    obtain ⟨p, there, goes⟩ := inv.waits caller member
    exact ⟨p, by rw [asked]; exact there, goes⟩

theorem Callers.Inv.step (inv : s.Inv) (allowed : s.Allowed e) (stepped : s.step proxy e = some t) : t.Inv := by
  cases e with
  | acquire uri fuel answers =>
    obtain ⟨⟨tables, caller⟩, reached, rfl⟩ := Option.map_eq_some_iff.mp stepped
    have safe := safe_ftpConnectionAcquire proxy uri fuel inv.balanced rfl
    obtain ⟨balanced, next⟩ := locked_safe answers safe reached
    exact Callers.Inv.proceed inv.distinct inv.asked inv.waits (fun _ _ => rfl) balanced next
  | resume i answer answers =>
    obtain ⟨caller, here, stepped⟩ := Option.bind_eq_some_iff.mp stepped
    obtain ⟨⟨tables, caller'⟩, reached, rfl⟩ := Option.map_eq_some_iff.mp stepped
    have member := List.mem_of_getElem? here
    obtain ⟨p, there, goes⟩ := inv.waits caller member
    let w := Function.update s.tables.askedFor caller.connection none
    have safe := goes (answer caller.question) s.tables w inv.balanced (Function.update_self _ _ _) (by
      rw [Function.update_idem, ← there]
      exact (Function.update_eq_self _ _).symm)
    obtain ⟨balanced, next⟩ := locked_safe answers safe reached
    have split : s.callers.Perm (caller :: s.callers.eraseIdx i) := by
      obtain ⟨inside, found⟩ := List.getElem?_eq_some_iff.mp here
      rw [← found]
      exact (List.getElem_cons_eraseIdx_perm inside).symm
    have distinct := (split.map (·.connection)).nodup_iff.mp inv.distinct
    rw [List.map_cons, List.nodup_cons] at distinct
    have others : ∀ c ∈ (s.callers.eraseIdx i).map (·.connection), c ≠ caller.connection := by
      intro c inside same
      rw [same] at inside
      exact distinct.1 inside
    have waiting : ∀ other ∈ s.callers.eraseIdx i, other.Waits s.tables := by
      intro other inside
      exact inv.waits other (split.mem_iff.mpr (List.mem_cons_of_mem _ inside))
    refine Callers.Inv.proceed distinct.2 ?_ waiting ?_ balanced next
    · intro c
      show _ ↔ (Function.update s.tables.askedFor caller.connection none c).isSome
      by_cases same : c = caller.connection
      · rw [same, Function.update_self]
        exact ⟨fun inside => absurd inside distinct.1, fun never => by cases never⟩
      · rw [Function.update_of_ne same, ← inv.asked, (split.map (·.connection)).mem_iff, List.map_cons, List.mem_cons]
        exact ⟨Or.inr, fun inside => inside.resolve_left same⟩
    · intro c inside
      exact Function.update_of_ne (others c inside) _ _
  | release c errorRelease =>
    cases stepped
    obtain ⟨entry, here, used⟩ := allowed
    obtain ⟨balanced, asked⟩ := inv.balanced.release here used errorRelease
    exact inv.apart balanced asked
  | monitorAdd uri =>
    cases stepped
    obtain ⟨balanced, asked⟩ := inv.balanced.monitorAdd uri
    exact inv.apart balanced asked
  | monitorCancel p =>
    cases stepped
    obtain ⟨balanced, asked⟩ := inv.balanced.monitorCancel allowed
    exact inv.apart balanced asked
  | reap now =>
    cases stepped
    obtain ⟨balanced, retires⟩ := inv.balanced.reap now
    exact inv.apart balanced retires.askedFor

theorem Callers.Inv.new : (⟨.new, []⟩ : Callers M).Inv := by
  refine ⟨Tables.Balanced.new, List.nodup_nil, ?_, ?_⟩
  · intro c
    simp [Tables.askedFor, Tables.new]
  · intro caller never
    cases never

end Invariant

section Accounted

/-- A connection of this pool that is spare or in use. -/
def Entry.Live (entry : Entry M) (p : Nat) : Prop := entry.pool = p ∧ (entry.place = .spare ∨ entry.place = .used)

instance (entry : Entry M) (p : Nat) : Decidable (entry.Live p) := inferInstanceAs (Decidable (_ ∧ _))

/-- The caller makes a connection of this pool. -/
def Callers.CallsFor (s : Callers M) (p : Nat) (caller : Caller M) : Prop :=
  (s.tables.connections[caller.connection]?).map (·.pool) = some p

instance (s : Callers M) (p : Nat) (caller : Caller M) : Decidable (s.CallsFor p caller) :=
  inferInstanceAs (Decidable (Option.map _ s.tables.connections[caller.connection]? = some p))

/-- Of no pool the account is wrong, no pool is missing that is needed, no assertion has failed, and
where there are spare connections there is a timer. -/
structure Callers.Accounted (s : Callers M) : Prop where
  counts : ∀ p pool, s.tables.pool p = some pool → pool.numConnections =
    s.tables.connections.countP (fun entry => entry.Live p) + s.callers.countP fun caller => s.CallsFor p caller
  housed : ∀ entry ∈ s.tables.connections, ∀ p, entry.Live p →
    p ∈ s.tables.connectionPools.map (·.2) ∧ (s.tables.pool p).isSome
  spares : ∀ p pool, s.tables.pool p = some pool → ∀ c, c ∈ pool.spareConnections ↔
    ∃ entry, s.tables.connections[c]? = some entry ∧ entry.pool = p ∧ entry.place = .spare
  sound : s.tables.failed = false
  timed : ∀ p pool, s.tables.pool p = some pool → pool.spareConnections ≠ [] → s.tables.connectionPoolTimeout = true

theorem countP_range {α : Type} (P : α → Bool) (items : List α) :
    items.countP P = (List.range items.length).countP fun i => (items[i]?).any P := by
  induction items with
  | nil => rfl
  | cons first rest ih =>
    have later : (fun i => ((first :: rest)[i]?).any P) ∘ Nat.succ = fun i => (rest[i]?).any P := by
      funext i
      rfl
    rw [List.length_cons, List.range_succ_eq_map, List.countP_cons, List.countP_cons, List.countP_map, later, ← ih]
    rfl

theorem countP_eq_of_nodup {P : Nat → Bool} {l l' : List Nat} (distinct : l.Nodup) (distinct' : l'.Nodup)
    (agree : ∀ i, P i = true → (i ∈ l ↔ i ∈ l')) : l.countP P = l'.countP P := by
  rw [List.countP_eq_length_filter, List.countP_eq_length_filter]
  apply List.Perm.length_eq
  apply (List.perm_ext_iff_of_nodup (distinct.filter P) (distinct'.filter P)).mpr
  intro i
  rw [List.mem_filter, List.mem_filter]
  constructor
  · exact fun both => ⟨(agree i both.2).mp both.1, both.2⟩
  · exact fun both => ⟨(agree i both.2).mpr both.1, both.2⟩

theorem Tables.counted_eq (s : Tables M) (p : Nat) : s.counted p =
    s.connections.countP (fun entry => entry.Live p) +
      s.connections.countP fun entry => entry.pool = p ∧ entry.place = .asking := by
  rw [Tables.counted]
  induction s.connections with
  | nil => rfl
  | cons entry rest ih =>
    rw [List.countP_cons, List.countP_cons, List.countP_cons, ih]
    by_cases own : entry.pool = p
    · cases place : entry.place <;> simp [Entry.Live, Place.counted, own, place] <;> omega
    · simp [Entry.Live, own]

variable {s : Callers M}

theorem Callers.Inv.countP_asking (inv : s.Inv) (p : Nat) :
    s.tables.connections.countP (fun entry => entry.pool = p ∧ entry.place = .asking) =
      s.callers.countP fun caller => s.CallsFor p caller := by
  have asking : ∀ c, (s.tables.connections[c]?).any (fun entry => entry.pool = p ∧ entry.place = .asking) = true ↔
      s.tables.askedFor c = some p := by
    intro c
    rw [Tables.askedFor]
    cases s.tables.connections[c]? with
    | none => simp
    | some entry => by_cases there : entry.place = .asking <;> simp [there]
  rw [countP_range, countP_eq_of_nodup List.nodup_range inv.distinct, List.countP_map]
  · apply List.countP_congr
    intro caller member
    obtain ⟨q, there, -⟩ := inv.waits caller member
    rw [Function.comp, asking, there, decide_eq_true_iff, Callers.CallsFor]
    rw [Tables.askedFor] at there
    obtain ⟨entry, here, place⟩ := Option.bind_eq_some_iff.mp there
    split at place
    · cases place
      rw [here]
      rfl
    · cases place
  · intro c counted
    have asked := (asking c).mp counted
    rw [inv.asked c, asked, List.mem_range]
    refine ⟨fun _ => rfl, fun _ => ?_⟩
    by_contra outside
    rw [Tables.askedFor, List.getElem?_eq_none (by omega)] at asked
    cases asked

theorem Callers.Inv.accounted (inv : s.Inv) : s.Accounted := by
  refine ⟨?_, ?_, inv.balanced.spares, inv.balanced.sound, inv.balanced.timed⟩
  · intro p pool alive
    rw [inv.balanced.counts p pool alive, Tables.counted_eq, inv.countP_asking]
    push_cast
    rfl
  · rintro entry member p ⟨rfl, live⟩
    obtain ⟨c, here⟩ := List.getElem?_of_mem member
    have alive := inv.balanced.housed c entry here (by rcases live with place | place <;> rw [place] <;> rfl)
    exact ⟨(inv.balanced.listed _).mpr alive, alive⟩

/-- However the callers take turns, the accounts are right whenever the lock is free. -/
theorem Callers.run_accounted (proxy : Proxy) {stop : Callers M}
    (run : Run (Callers.step proxy) Callers.Allowed ⟨.new, []⟩ stop) : stop.Accounted := by
  have inv : stop.Inv := run.keeps Callers.Inv.new fun _ _ _ inv allowed stepped => inv.step allowed stepped
  exact inv.accounted

/-- A host without a user name. -/
def nameless : Uri Unit := .toplevel ⟨some [chrSlash], none, ascii "ftp", some ()⟩ ⟨some [104], 0, none, none⟩

/-- A server that is content with everything. -/
def obliging : Answers Unit := fun _ r =>
  match r with
  | .control _ (.write _ _) => .ok
  | .control _ (.response _) => .ok ⟨230, []⟩
  | .control _ (.dataConnect _ _) => .ok
  | .control _ .dataRead => (.eof, [])
  | .control _ .dataClose => ()
  | .connect _ host _ => .ok host
  | .clock => 0
  | .callback _ (.keyring _) s => (none, s)
  | .callback _ (.user _) s => (.unhandled, s)
  | .callback _ (.save _ _) s => ((), s)
  | .unlock s => s

/-- What the keyring and the user say. -/
def keyringKnows : (question : Callback) → question.Resp
  | .keyring _ => some ([97], [98])
  | .user _ => .unhandled
  | .save _ _ => ()

/-- A connection is made and given back while another caller waits for the keyring. -/
theorem nameless_accounted : ∃ stop : Callers Unit, stop.Accounted ∧ stop.callers.length = 1 ∧
    stop.tables.connectionPoolTimeout = true := by
  have run₁ : Run (Callers.step none) Callers.Allowed ⟨.new, []⟩ _ :=
    .next (.acquire nameless 1 obliging) .refl trivial rfl
  have run₂ : Run (Callers.step none) Callers.Allowed ⟨.new, []⟩ _ :=
    .next (.acquire nameless 1 obliging) run₁ trivial rfl
  have run₃ : Run (Callers.step none) Callers.Allowed ⟨.new, []⟩ _ :=
    .next (.resume 0 keyringKnows obliging) run₂ trivial rfl
  have run₄ : Run (Callers.step none) Callers.Allowed ⟨.new, []⟩ _ :=
    .next (.release 0 false) run₃ ⟨_, rfl, rfl⟩ rfl
  exact ⟨_, Callers.run_accounted none run₄, rfl, rfl⟩

end Accounted

end GnomeVfs.Ftp
