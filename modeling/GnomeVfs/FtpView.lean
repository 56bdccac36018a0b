import GnomeVfs.FtpLine
import GnomeVfs.FtpOperations

/- What one operation knows of the pools while others work on them as well: which connections are its
own, and what is still to come on these. -/
namespace GnomeVfs.Ftp

open Interaction

variable {M : Type}

/-- All control connections, whether an exchange has been interrupted behind which the method goes on,
and whether a reply has been read that is not one to the last command. -/
structure Wires where
  channels : Nat → Channel
  interrupted : Bool
  stray : Bool

def Wires.line (w : Wires) (c : Nat) : Line := ⟨w.channels c, w.interrupted⟩

/-- The reply that is read answers an earlier command. -/
def Channel.strays (channel : Channel) : (r : ControlReq) → r.Resp → Bool
  | .response _, .ok _ =>
    match channel.owed with
    | [] => false
    | reply :: _ => reply.line ≠ channel.last
  | _, _ => false

/-- What the answers of servers and clocks do to the control connections. -/
def Wires.serve (w : Wires) (choice : Choice) : (r : MethodReq M) → r.Resp → Option Wires
  | .control c request, answer => ((w.line c).answer choice request answer).map fun v =>
    ⟨Function.update w.channels c v.channel, v.interrupted, w.stray || (w.channels c).strays request answer⟩
  | .connect c _ _, .ok _ => some { w with channels := Function.update w.channels c .greeting }
  | .connect _ _ _, .error _ => some w
  | .clock, _ => some w
  | .callback _ _ _, _ => none
  | .unlock _, _ => none

def Place.busy : Place → Bool
  | .building | .asking | .used => true
  | .spare | .gone => false

/-- Somebody works with the connection. -/
def Tables.Busy (s : Tables M) (c : Nat) : Prop := ∃ entry, s.connections[c]? = some entry ∧ entry.place.busy = true

def Tables.Spare (s : Tables M) (c : Nat) : Prop := ∃ entry, s.connections[c]? = some entry ∧ entry.place = .spare

/-- The accounts are right, nothing is to come on spare connections, and no reply has gone astray. -/
structure Sound (s : Tables M) (w : Wires) : Prop where
  balanced : s.Balanced
  spares : w.interrupted = false → ∀ c, s.Spare c → (w.channels c).owed = []
  stray : w.interrupted = false → w.stray = false

section View

/-- The connections that others work with, as these know them, and the control connections. -/
structure View (M : Type) where
  theirs : Nat → Option (Entry M)
  wires : Wires

def View.others (v : View M) (c : Nat) : Prop := (v.theirs c).isSome

/-- Nothing has happened to what others work with. -/
def View.Framed (v : View M) (s : Tables M) : Prop := ∀ c entry, v.theirs c = some entry → s.connections[c]? = some entry

/-- When the lock is taken again, nothing has happened to one's own connections. -/
structure Resumes (own : Nat → Prop) (s : Tables M) (w : Wires) (s' : Tables M) (v' : View M) : Prop where
  sound : Sound s' v'.wires
  framed : v'.Framed s'
  same : ∀ c, own c → s'.connections[c]? = s.connections[c]? ∧ v'.wires.channels c = w.channels c ∧ ¬ v'.others c
  busy : ∀ c, s'.Busy c ↔ v'.others c ∨ own c
  later : w.interrupted = true → v'.wires.interrupted = true

/-- What is one's own is what the others do not work with. -/
def View.Own (v : View M) (s : Tables M) (c : Nat) : Prop := s.Busy c ∧ ¬ v.others c

def View.env (v : View M) : (r : MethodReq M) → r.Resp → View M → Prop
  | .callback _ _ s, answer, v' => Resumes (v.Own s) s v.wires answer.2 v'
  | .unlock s, s', v' => Resumes (v.Own s) s v.wires s' v'
  | r, answer, v' => v'.theirs = v.theirs ∧ ∃ choice, v.wires.serve choice r answer = some v'.wires

def View.demand (v : View M) : MethodReq M → Prop
  | .callback _ _ s => Sound s v.wires ∧ v.Framed s
  | .unlock s => Sound s v.wires ∧ v.Framed s
  | .control c request => ¬ v.others c ∧ (v.wires.line c).demand request
  | .connect c _ _ => ¬ v.others c
  | .clock => True

/-- A connection of one's own, where it is, and what holds of it unless there has been an
interruption. -/
structure Claim (M : Type) where
  connection : Nat
  place : Place
  holds : Entry M → Channel → Prop

structure Owns (mine : List (Claim M)) (s : Tables M) (v : View M) : Prop where
  sound : Sound s v.wires
  framed : v.Framed s
  distinct : (mine.map (·.connection)).Nodup
  busy : ∀ c, s.Busy c ↔ v.others c ∨ c ∈ mine.map (·.connection)
  apart : ∀ c ∈ mine.map (·.connection), ¬ v.others c
  claims : ∀ claim ∈ mine, ∃ entry, s.connections[claim.connection]? = some entry ∧ entry.place = claim.place ∧
    (v.wires.interrupted = false → claim.holds entry (v.wires.channels claim.connection))

variable {s s' : Tables M} {v : View M} {w : Wires} {c : Nat} {place place' : Place} {entry : Entry M}
  {H H' : Entry M → Channel → Prop} {kept mine : List (Claim M)}

theorem Owns.own_iff (owns : Owns mine s v) (d : Nat) : v.Own s d ↔ d ∈ mine.map (·.connection) := by
  rw [View.Own, owns.busy]
  constructor
  · rintro ⟨other | own, apart⟩
    · exact absurd other apart
    · exact own
  · exact fun own => ⟨Or.inr own, owns.apart d own⟩

/-- Something happens to one connection. -/
structure Touches (c : Nat) (s : Tables M) (w : Wires) (s' : Tables M) (w' : Wires) : Prop where
  entries : ∀ d, d ≠ c → s'.connections[d]? = s.connections[d]?
  channels : ∀ d, d ≠ c → w'.channels d = w.channels d
  later : w.interrupted = true → w'.interrupted = true

theorem Touches.busy {w' : Wires} (touches : Touches c s w s' w') {d : Nat} (other : d ≠ c) : s'.Busy d ↔ s.Busy d := by
  rw [Tables.Busy, Tables.Busy, touches.entries d other]

theorem Touches.framed {w' : Wires} (touches : Touches c s w s' w') (framed : v.Framed s) (apart : ¬ v.others c) :
    v.Framed s' := by
  intro d entry theirs
  have other : d ≠ c := by
    intro same
    apply apart
    rw [View.others, ← same, theirs]
    rfl
  rw [touches.entries d other]
  exact framed d entry theirs

theorem Touches.claims {w' : Wires} (touches : Touches c s v.wires s' w') (absent : c ∉ kept.map (·.connection))
    (claims : ∀ claim ∈ kept, ∃ entry, s.connections[claim.connection]? = some entry ∧ entry.place = claim.place ∧
      (v.wires.interrupted = false → claim.holds entry (v.wires.channels claim.connection))) :
    ∀ claim ∈ kept, ∃ entry, s'.connections[claim.connection]? = some entry ∧ entry.place = claim.place ∧
      (w'.interrupted = false → claim.holds entry (w'.channels claim.connection)) := by
  intro claim member
  have other : claim.connection ≠ c := fun same => absent (same ▸ List.mem_map_of_mem member)
  obtain ⟨entry, here, there, holds⟩ := claims claim member
  refine ⟨entry, by rw [touches.entries _ other, here], there, ?_⟩
  intro uninterrupted
  rw [touches.channels _ other]
  apply holds
  cases before : v.wires.interrupted with
  | false => rfl
  | true =>
    rw [touches.later before] at uninterrupted
    cases uninterrupted

theorem Owns.change (owns : Owns (⟨c, place, H⟩ :: kept) s v) (touches : Touches c s v.wires s' w)
    (sound : Sound s' w) (here : s'.connections[c]? = some entry) (there : entry.place = place')
    (busy : place'.busy = true) (holds : w.interrupted = false → H' entry (w.channels c)) :
    Owns (⟨c, place', H'⟩ :: kept) s' ⟨v.theirs, w⟩ := by
  have distinct := owns.distinct
  rw [List.map_cons, List.nodup_cons] at distinct
  refine ⟨sound, touches.framed owns.framed (owns.apart c List.mem_cons_self), owns.distinct, ?_, owns.apart, ?_⟩
  · intro d
    by_cases same : d = c
    · rw [same]
      exact ⟨fun _ => Or.inr List.mem_cons_self, fun _ => ⟨entry, here, by rw [there]; exact busy⟩⟩
    · rw [touches.busy same]
      exact owns.busy d
  · intro claim member
    rcases List.mem_cons.mp member with rfl | later
    · exact ⟨entry, here, there, holds⟩
    · exact touches.claims distinct.1 (fun claim member => owns.claims claim (List.mem_cons_of_mem _ member)) claim later

theorem Owns.drop (owns : Owns (⟨c, place, H⟩ :: kept) s v) (touches : Touches c s v.wires s' w)
    (sound : Sound s' w) (here : s'.connections[c]? = some entry) (idle : entry.place.busy = false) :
    Owns kept s' ⟨v.theirs, w⟩ := by
  have distinct := owns.distinct
  rw [List.map_cons, List.nodup_cons] at distinct
  have apart : ¬ v.others c := owns.apart c List.mem_cons_self
  refine ⟨sound, touches.framed owns.framed apart, distinct.2, ?_, fun d member => owns.apart d (List.mem_cons_of_mem _ member), ?_⟩
  · intro d
    by_cases same : d = c
    · rw [same]
      constructor
      · rintro ⟨other, found, busy⟩
        rw [here] at found
        cases found
        rw [idle] at busy
        cases busy
      · rintro (other | own)
        · exact absurd other apart
        · exact absurd own distinct.1
    · rw [touches.busy same, owns.busy d, List.map_cons, List.mem_cons]
      constructor
      · exact fun either => either.imp_right fun own => own.resolve_left same
      · exact fun either => either.imp_right Or.inr
  · exact touches.claims distinct.1 fun claim member => owns.claims claim (List.mem_cons_of_mem _ member)

theorem Owns.take (owns : Owns kept s v) (idle : ¬ s.Busy c) (touches : Touches c s v.wires s' w)
    (sound : Sound s' w) (here : s'.connections[c]? = some entry) (there : entry.place = place)
    (busy : place.busy = true) (holds : w.interrupted = false → H entry (w.channels c)) :
    Owns (⟨c, place, H⟩ :: kept) s' ⟨v.theirs, w⟩ := by
  have both := mt (owns.busy c).mpr idle
  rw [not_or] at both
  refine ⟨sound, touches.framed owns.framed both.1, ?_, ?_, ?_, ?_⟩
  · rw [List.map_cons, List.nodup_cons]
    exact ⟨both.2, owns.distinct⟩
  · intro d
    rw [List.map_cons, List.mem_cons]
    by_cases same : d = c
    · rw [same]
      exact ⟨fun _ => Or.inr (Or.inl rfl), fun _ => ⟨entry, here, by rw [there]; exact busy⟩⟩
    · rw [touches.busy same, owns.busy d]
      constructor
      · exact fun either => either.imp_right Or.inr
      · exact fun either => either.imp_right fun own => own.resolve_left same
  · intro d member
    rcases List.mem_cons.mp member with same | own
    · rw [same]
      exact both.1
    · exact owns.apart d own
  · intro claim member
    rcases List.mem_cons.mp member with rfl | own
    · exact ⟨entry, here, there, holds⟩
    · exact touches.claims both.2 owns.claims claim own

theorem Owns.of_connections (owns : Owns mine s v) (balanced : s'.Balanced) (same : s'.connections = s.connections) :
    Owns mine s' v := by
  refine ⟨⟨balanced, ?_, owns.sound.stray⟩, ?_, owns.distinct, ?_, owns.apart, ?_⟩
  · intro uninterrupted d
    rw [Tables.Spare, same]
    exact owns.sound.spares uninterrupted d
  · intro d entry theirs
    rw [same]
    exact owns.framed d entry theirs
  · intro d
    rw [Tables.Busy, same]
    exact owns.busy d
  · rw [same]
    exact owns.claims

theorem Owns.weaken (owns : Owns (⟨c, place, H⟩ :: kept) s v) (less : ∀ entry ch, H entry ch → H' entry ch) :
    Owns (⟨c, place, H'⟩ :: kept) s v := by
  refine ⟨owns.sound, owns.framed, owns.distinct, owns.busy, owns.apart, ?_⟩
  intro claim member
  rcases List.mem_cons.mp member with rfl | later
  · obtain ⟨entry, here, there, holds⟩ := owns.claims _ List.mem_cons_self
    exact ⟨entry, here, there, fun fine => less _ _ (holds fine)⟩
  · exact owns.claims claim (List.mem_cons_of_mem _ later)

/-- Others have had the lock meanwhile. -/
theorem Owns.resume (owns : Owns mine s v) {v' : View M} (resumes : Resumes (v.Own s) s v.wires s' v') :
    Owns mine s' v' := by
  have own := owns.own_iff
  refine ⟨resumes.sound, resumes.framed, owns.distinct, ?_, ?_, ?_⟩
  · intro d
    rw [resumes.busy, own]
  · intro d member
    exact (resumes.same d ((own d).mpr member)).2.2
  · intro claim member
    obtain ⟨entry, here, there, holds⟩ := owns.claims claim member
    obtain ⟨entries, channels, -⟩ := resumes.same claim.connection ((own _).mpr (List.mem_map_of_mem member))
    refine ⟨entry, by rw [entries, here], there, ?_⟩
    intro uninterrupted
    rw [channels]
    apply holds
    cases before : v.wires.interrupted with
    | false => rfl
    | true =>
      rw [resumes.later before] at uninterrupted
      cases uninterrupted

theorem Owns.demand (owns : Owns mine s v) : Sound s v.wires ∧ v.Framed s := ⟨owns.sound, owns.framed⟩

end View

end GnomeVfs.Ftp
