import GnomeVfs.FtpView

/- What each part of an operation makes of the connections of its own. -/
namespace GnomeVfs.Ftp

open Interaction

variable {M α β : Type}

section Performs

/-- What holds before a part of an operation, and what behind it. -/
def Performs (P : Tables M → View M → Prop) (x : Method M α) (Q : α → Tables M → View M → Prop) : Prop :=
  ∀ s v, P s v → Action.safe View.env View.demand x s Q (fun _ _ => True) v

variable {P P' : Tables M → View M → Prop} {Q Q' : α → Tables M → View M → Prop}

theorem Performs.mono {x : Method M α} (performs : Performs P x Q) (before : ∀ s v, P' s v → P s v)
    (behind : ∀ a s v, Q a s v → Q' a s v) : Performs P' x Q' := by
  intro s v holds
  exact Action.safe_mono (performs s v (before s v holds)) behind fun _ _ => id

theorem Performs.bind {R : β → Tables M → View M → Prop} {x : Method M β} {f : β → Method M α}
    (first : Performs P x R) (second : ∀ b, Performs (R b) (f b) Q) : Performs P (x >>= f) Q := by
  intro s v holds
  rw [Action.safe_bind]
  exact Action.safe_mono (first s v holds) (fun b s v holds => second b s v holds) fun _ _ => id

theorem performs_pure {a : α} (holds : ∀ s v, P s v → Q a s v) : Performs P (pure a) Q := fun s v before => holds s v before

theorem performs_modify {f : Tables M → Tables M} {Q : PUnit → Tables M → View M → Prop}
    (holds : ∀ s v, P s v → Q ⟨⟩ (f s) v) : Performs P (modify f) Q := fun s v before => holds s v before

theorem performs_modifyGet {f : Tables M → α × Tables M} (holds : ∀ s v, P s v → Q (f s).1 (f s).2 v) :
    Performs P (modifyGet f) Q := fun s v before => holds s v before

theorem performs_halt {reason : Stop} : Performs P (Action.halt reason : Method M α) Q := fun _ _ _ => trivial

theorem Performs.ite {c : Prop} [Decidable c] {x y : Method M α} (yes : c → Performs P x Q) (no : ¬ c → Performs P y Q) :
    Performs P (if c then x else y) Q := by
  by_cases here : c
  · rw [if_pos here]
    exact yes here
  · rw [if_neg here]
    exact no here

/-- What holds behind a round of a loop. -/
def Rounded {X : Type} (I : X → Tables M → View M → Prop) (Q : α → Tables M → View M → Prop) :
    Step X α → Tables M → View M → Prop
  | .again y => I y
  | .finish a => Q a

theorem Performs.loop {X : Type} {dry : Stop} {body : X → Method M (Step X α)} {I : X → Tables M → View M → Prop}
    (round : ∀ x, Performs (I x) (body x) (Rounded I Q)) (fuel : Nat) (x : X) :
    Performs (I x) (Action.loop dry body fuel x) Q := by
  intro s v holds
  refine Action.safe_loop (fun _ => I) ?_ (fun _ _ _ _ => trivial) fuel x holds
  intro _ x s v holds
  refine Action.safe_mono (round x s v holds) ?_ fun _ _ => id
  intro r s v holds
  cases r with
  | again y => exact holds
  | finish a => exact holds

theorem performs_clock (stays : ∀ s (v v' : View M), v'.theirs = v.theirs → v'.wires = v.wires → P s v → P s v') :
    Performs P clock fun _ => P := by
  intro s v holds
  refine ⟨trivial, ?_⟩
  rintro now v' ⟨theirs, choice, served⟩
  exact stays s v v' theirs (Option.some.inj served).symm holds

end Performs

section Exchanges

variable {c : Nat} {place : Place} {kept mine : List (Claim M)} {s : Tables M} {v : View M} {u : Line}

theorem Line.answer_later {v v' : Line} {choice : Choice} {r : ControlReq} {a : r.Resp}
    (answered : v.answer choice r a = some v') (interrupted : v.interrupted = true) : v'.interrupted = true := by
  cases r with
  | write phase line =>
    rw [Line.answer] at answered
    split at answered
    · cases answered
      rw [interrupted, Bool.true_or]
    · split at answered
      · cases answered
        rw [interrupted, Bool.true_or]
      · cases answered
        exact interrupted
  | response phase =>
    cases a with
    | error failure =>
      cases answered
      rw [interrupted, Bool.true_or]
    | ok response =>
      rw [Line.answer] at answered
      split at answered
      · cases answered
      · split at answered
        · cases answered
          exact interrupted
        · cases answered
  | dataConnect host port =>
    cases answered
    exact interrupted
  | dataRead =>
    cases answered
    exact interrupted
  | dataClose =>
    cases answered
    exact interrupted

/-- Where the last command is answered no reply goes astray. -/
theorem Channel.Fresh.strays {ch : Channel} {r : ControlReq} (fresh : ∀ phase, r = .response phase → ch.Fresh) (a : r.Resp) :
    ch.strays r a = false := by
  cases r with
  | response phase =>
    cases a with
    | error failure => rfl
    | ok response =>
      rw [Channel.strays]
      cases owed : ch.owed with
      | nil => rfl
      | cons reply rest =>
        have same := fresh phase rfl reply rest owed
        simp [same]
  | write phase line => rfl
  | dataConnect host port => rfl
  | dataRead => rfl
  | dataClose => rfl

/-- The control connection as a conversation on it knows it; others may have been interrupted since. -/
structure Follows (c : Nat) (u : Line) (v : View M) : Prop where
  channel : v.wires.channels c = u.channel
  later : u.interrupted = true → v.wires.interrupted = true

theorem Follows.uninterrupted (follows : Follows c u v) (fine : v.wires.interrupted = false) : u.interrupted = false := by
  cases before : u.interrupted with
  | false => rfl
  | true =>
    rw [follows.later before] at fine
    cases fine

theorem Follows.demand (follows : Follows c u v) {r : ControlReq} (demands : u.demand r) : (v.wires.line c).demand r := by
  cases r with
  | response phase =>
    intro fine
    show (v.wires.channels c).Fresh
    rw [follows.channel]
    exact demands (follows.uninterrupted fine)
  | write phase line => trivial
  | dataConnect host port => trivial
  | dataRead => trivial
  | dataClose => trivial

/-- The claim on a connection with a conversation on it: what is not part of the conversation. -/
abbrev spoken (c : Nat) (place : Place) (K : Bool → Prop) : Claim M := ⟨c, place, fun entry _ => K entry.socket⟩

variable {K : Bool → Prop}

/-- One answer in a conversation. -/
theorem Owns.control (owns : Owns (spoken c place K :: kept) s v) (follows : Follows c u v) {r : ControlReq} {a : r.Resp}
    (demands : u.demand r) {choice : Choice} {w : Wires}
    (served : v.wires.serve choice (.control c r : MethodReq M) a = some w) :
    ∃ u', u.env r a u' ∧ Owns (spoken c place K :: kept) s ⟨v.theirs, w⟩ ∧ Follows c u' ⟨v.theirs, w⟩ := by
  obtain ⟨u', answered, rfl⟩ := Option.map_eq_some_iff.mp served
  have later := Line.answer_later answered
  have fine : u'.interrupted = false → v.wires.interrupted = false := by
    intro uninterrupted
    cases before : v.wires.interrupted with
    | false => rfl
    | true =>
      rw [later before] at uninterrupted
      cases uninterrupted
  obtain ⟨entry, here, there, holds⟩ := owns.claims _ List.mem_cons_self
  have busy : place.busy = true := by
    obtain ⟨other, found, busy⟩ := (owns.busy c).mpr (Or.inr List.mem_cons_self)
    rw [here] at found
    cases found
    have there : entry.place = place := there
    rw [← there]
    exact busy
  refine ⟨u', ⟨v.wires.interrupted, choice, ?_⟩, ?_, ?_⟩
  · have same : v.wires.line c = { u with interrupted := u.interrupted || v.wires.interrupted } := by
      rw [Wires.line, follows.channel]
      cases before : u.interrupted with
      | false => rfl
      | true => rw [follows.later before]; rfl
    rw [← same]
    exact answered
  · refine owns.change ⟨fun _ _ => rfl, fun d other => Function.update_of_ne other _ _, later⟩ ⟨owns.sound.balanced, ?_, ?_⟩
      here there busy fun uninterrupted => holds (fine uninterrupted)
    · intro uninterrupted d spare
      have other : d ≠ c := by
        intro same
        obtain ⟨idle, found, isSpare⟩ := spare
        rw [same, here] at found
        cases found
        have never : place = .spare := Eq.trans (Eq.symm there) isSpare
        rw [never] at busy
        cases busy
      show (Function.update v.wires.channels c u'.channel d).owed = []
      rw [Function.update_of_ne other]
      exact owns.sound.spares (fine uninterrupted) d spare
    · intro uninterrupted
      show (v.wires.stray || _) = false
      rw [owns.sound.stray (fine uninterrupted), Bool.false_or]
      apply Channel.Fresh.strays
      rintro phase rfl
      exact follows.demand demands (fine uninterrupted)
  · exact ⟨Function.update_self _ _ _, id⟩

/-- A conversation while the lock is held. -/
theorem safe_talk {γ : Type} {Q : γ → Line → Prop} {H : Stop → Line → Prop} (p : Prog ControlReq.Resp Stop γ) :
    ∀ {u : Line} {v : View M}, p.safe Line.env Line.demand Q H u → Owns (spoken c place K :: kept) s v → Follows c u v →
      (p.via (MethodReq.control (M := M) c) fun _ answer => answer).safe View.env View.demand
        (fun b v => ∃ u, Q b u ∧ Owns (spoken c place K :: kept) s v ∧ Follows c u v) (fun _ _ => True) v := by
  induction p with
  | done b => exact fun holds owns follows => ⟨_, holds, owns, follows⟩
  | stop reason => exact fun _ _ _ => trivial
  | ask r next ih =>
    intro u v holds owns follows
    refine ⟨⟨owns.apart c List.mem_cons_self, follows.demand holds.1⟩, ?_⟩
    rintro a v' ⟨theirs, choice, served⟩
    obtain ⟨u', answered, owns', follows'⟩ := owns.control follows holds.1 served
    have same : v' = ⟨v.theirs, v'.wires⟩ := by rw [← theirs]
    rw [same]
    exact ih a (holds.2 a u' answered) owns' follows'

/-- A conversation without the lock. -/
theorem safe_outsideFrom {Q : α → Line → Prop} {H : Stop → Line → Prop} (p : Prog ControlReq.Resp Stop α) :
    ∀ {u : Line} {s : Tables M} {v : View M}, p.safe Line.env Line.demand Q H u → Owns (spoken c place K :: kept) s v →
      Follows c u v → (outsideFrom c p s).safe View.env View.demand
        (fun r v => ∃ u, Q r.1 u ∧ Owns (spoken c place K :: kept) r.2 v ∧ Follows c u v) (fun _ _ => True) v := by
  induction p with
  | done b => exact fun holds owns follows => ⟨_, holds, owns, follows⟩
  | stop reason => exact fun _ _ _ => trivial
  | ask r next ih =>
    intro u s v holds owns follows
    refine ⟨owns.demand, ?_⟩
    intro s₁ v₁ resumes
    have owns₁ := owns.resume resumes
    have follows₁ : Follows c u v₁ := by
      obtain ⟨-, channels, -⟩ := resumes.same c ((owns.own_iff c).mpr List.mem_cons_self)
      exact ⟨channels.trans follows.channel, fun interrupted => resumes.later (follows.later interrupted)⟩
    refine ⟨⟨owns₁.apart c List.mem_cons_self, follows₁.demand holds.1⟩, ?_⟩
    rintro a v' ⟨theirs, choice, served⟩
    obtain ⟨u', answered, owns', follows'⟩ := owns₁.control follows₁ holds.1 served
    have same : v' = ⟨v₁.theirs, v'.wires⟩ := by rw [← theirs]
    rw [same]
    exact ih a (holds.2 a u' answered) owns' follows'

end Exchanges

section Records

variable {c : Nat} {place : Place} {H H' : Entry M → Channel → Prop} {kept mine : List (Claim M)} {s : Tables M} {v : View M}

theorem Owns.entry (owns : Owns (⟨c, place, H⟩ :: kept) s v) : ∃ entry, s.connections[c]? = some entry ∧
    entry.place = place ∧ place.busy = true ∧ (v.wires.interrupted = false → H entry (v.wires.channels c)) := by
  obtain ⟨entry, here, there, holds⟩ := owns.claims _ List.mem_cons_self
  obtain ⟨other, found, busy⟩ := (owns.busy c).mpr (Or.inr List.mem_cons_self)
  rw [here] at found
  cases found
  have there : entry.place = place := there
  exact ⟨entry, here, there, by rw [← there]; exact busy, holds⟩

theorem Owns.amend (owns : Owns (⟨c, place, H⟩ :: kept) s v) {e : Entry M → Entry M}
    (pool : ∀ entry, (e entry).pool = entry.pool) (stays : ∀ entry, (e entry).place = entry.place)
    (holds : ∀ entry, s.connections[c]? = some entry → v.wires.interrupted = false → H entry (v.wires.channels c) →
      H' (e entry) (v.wires.channels c)) :
    Owns (⟨c, place, H'⟩ :: kept) (s.updateConnection c e) v := by
  obtain ⟨entry, here, there, busy, held⟩ := owns.entry
  have entries : ∀ d, (s.updateConnection c e).connections[d]? = if d = c then some (e entry) else s.connections[d]? :=
    fun d => Tables.connections_updateConnection here
  refine owns.change ⟨?_, fun _ _ => rfl, id⟩ ⟨owns.sound.balanced.amend here (pool entry) (stays entry), ?_, owns.sound.stray⟩
    (by rw [entries, if_pos rfl]) ((stays entry).trans there) busy fun fine => holds entry here fine (held fine)
  · intro d other
    rw [entries, if_neg other]
  · intro fine d spare
    apply owns.sound.spares fine d
    obtain ⟨other, found, isSpare⟩ := spare
    rw [entries] at found
    split at found
    · rename_i same
      cases found
      rw [stays] at isSpare
      exact ⟨entry, by rw [same, here], isSpare⟩
    · exact ⟨other, found, isSpare⟩

theorem performs_unlock : Performs (Owns mine) unlock fun _ => Owns mine :=
  fun _ _ owns => ⟨owns.demand, fun _ _ resumes => owns.resume resumes⟩

theorem performs_setRecord {f : Connection M → Connection M} {P R : Connection M → Channel → Prop}
    (holds : ∀ conn ch, P conn ch → R (f conn) ch) :
    Performs (Owns (⟨c, place, fun entry ch => P entry.record ch⟩ :: kept)) (setRecord c f)
      fun _ => Owns (⟨c, place, fun entry ch => R entry.record ch⟩ :: kept) :=
  performs_modify fun _ _ owns => owns.amend (fun _ => rfl) (fun _ => rfl) fun _ _ _ => holds _ _

theorem safe_readRecord {entry : Entry M} (here : s.connections[c]? = some entry)
    {Q : Connection M → Tables M → View M → Prop} :
    Action.safe View.env View.demand (readRecord c) s Q (fun _ _ => True) v ↔ Q entry.record s v := by
  rw [Action.safe, readRecord, here]
  exact Iff.rfl

theorem performs_readRecord {P : Connection M → Channel → Prop} :
    Performs (Owns (⟨c, place, fun entry ch => P entry.record ch⟩ :: kept)) (readRecord c)
      fun _ => Owns (⟨c, place, fun entry ch => P entry.record ch⟩ :: kept) := by
  intro s v owns
  obtain ⟨entry, here, -⟩ := owns.entry
  exact (safe_readRecord here).mpr owns

variable {K : Bool → Prop} {P : Connection M → Channel → Prop} {Q : α → Connection M → Channel → Prop}
  {x : Conversation M α}

theorem owns_onConnection (talks : Talks P x Q)
    (owns : Owns (⟨c, place, fun entry ch => K entry.socket ∧ P entry.record ch⟩ :: kept) s v) :
    Action.safe View.env View.demand (onConnection c x) s (fun a s' v =>
      Owns (⟨c, place, fun entry ch => K entry.socket ∧ Q a entry.record ch⟩ :: kept) s' v ∧
        ∃ record, s' = s.updateConnection c fun entry => { entry with record := record }) (fun _ _ => True) v := by
  obtain ⟨entry, here, -, -, held⟩ := owns.entry
  rw [Action.safe, onConnection, here]
  apply Prog.safe_bind.mpr
  have safe := talks entry.record (v.wires.line c) fun fine => (held fine).2
  have own : Owns (spoken c place K :: kept) s v := owns.weaken fun _ _ => And.left
  have spoke := safe_talk (M := M) (x entry.record) safe own ⟨rfl, id⟩
  refine Prog.safe_mono ?_ (fun _ _ => id) spoke
  rintro ⟨a, record⟩ v' ⟨u, holds, owns', follows⟩
  refine ⟨owns'.amend (fun _ => rfl) (fun _ => rfl) ?_, record, rfl⟩
  intro entry' _ fine socket
  rw [follows.channel]
  exact ⟨socket, holds (follows.uninterrupted fine)⟩

/-- A conversation without the lock. -/
theorem performs_outside (talks : Talks P x Q) :
    Performs (Owns (⟨c, place, fun entry ch => P entry.record ch⟩ :: kept)) (outside c x)
      fun a => Owns (⟨c, place, fun entry ch => Q a entry.record ch⟩ :: kept) := by
  intro s v owns
  obtain ⟨entry, here, -, -, held⟩ := owns.entry
  rw [outside, Action.safe_bind, safe_readRecord here, Action.safe_bind]
  have safe := talks entry.record (v.wires.line c) held
  have own : Owns (spoken c place (fun _ => True) :: kept) s v := owns.weaken fun _ _ _ => trivial
  have spoke := safe_outsideFrom (x entry.record) safe own ⟨rfl, id⟩
  refine Prog.safe_mono ?_ (fun _ _ => id) spoke
  rintro ⟨⟨a, record⟩, s'⟩ v' ⟨u, holds, owns', follows⟩
  refine owns'.amend (fun _ => rfl) (fun _ => rfl) ?_
  intro entry' _ fine _
  rw [follows.channel]
  exact holds (follows.uninterrupted fine)

/-- A connection of one's own is given back. -/
theorem performs_release (errorRelease : Bool)
    (ended : ∀ entry ch, H entry ch → errorRelease = false → ch.owed = []) :
    Performs (Owns (⟨c, .used, H⟩ :: kept)) (release c errorRelease) fun _ => Owns kept := by
  apply Performs.bind (R := fun _ => Owns kept)
  · apply performs_modify
    intro s v owns
    obtain ⟨entry, here, used, -, held⟩ := owns.entry
    obtain ⟨balanced, -⟩ := owns.sound.balanced.release here used errorRelease
    have entries : ∀ d, (ftpConnectionRelease c errorRelease s).connections[d]? = _ := fun d =>
      connections_ftpConnectionRelease here errorRelease
    refine owns.drop (w := v.wires) ⟨?_, fun _ _ => rfl, id⟩ ⟨balanced, ?_, owns.sound.stray⟩
      (by rw [entries, if_pos rfl]) (by cases errorRelease <;> rfl)
    · intro d other
      rw [entries, if_neg other]
    · rintro fine d ⟨other, found, isSpare⟩
      rw [entries] at found
      split at found
      · rename_i same
        cases found
        rw [same]
        cases errorRelease with
        | true => cases isSpare
        | false => exact ended entry _ (held fine) rfl
      · exact owns.sound.spares fine d ⟨other, found, isSpare⟩
  · exact fun _ => performs_unlock

end Records

end GnomeVfs.Ftp
