import Mathlib.Data.List.Destutter
import GnomeVfs.MonitorTimeout

/- The changes of one file are reported in the order in which they have been told of. -/
namespace GnomeVfs.MonitorDispatch

open Monitor Transition

section Collapse

variable {α : Type} [DecidableEq α]

/-- A list with adjacent repetitions collapsed. -/
def collapse (l : List α) : List α := l.destutter (· ≠ ·)

theorem destutter'_concat (l : List α) (a : α) : ∀ b : α, (l ++ [a]).destutter' (· ≠ ·) b =
    if (b :: l).getLast? = some a then l.destutter' (· ≠ ·) b else l.destutter' (· ≠ ·) b ++ [a] := by
  induction l with
  | nil =>
    intro b
    show (if b ≠ a then [b, a] else [b]) = if some b = some a then [b] else [b] ++ [a]
    by_cases same : b = a
    · rw [if_neg (by simpa using same), if_pos (by rw [same])]
    · rw [if_pos same, if_neg (by simpa using same)]
      rfl
  | cons c l ih =>
    intro b
    show (if b ≠ c then b :: (l ++ [a]).destutter' (· ≠ ·) c else (l ++ [a]).destutter' (· ≠ ·) b) = _
    rw [List.getLast?_cons_cons]
    by_cases same : b = c
    · have folded : (c :: l).destutter' (· ≠ ·) b = l.destutter' (· ≠ ·) b :=
        List.destutter'_cons_neg l (by simpa using same)
      rw [if_neg (by simpa using same), folded, ih, same]
    · have kept : (c :: l).destutter' (· ≠ ·) b = b :: l.destutter' (· ≠ ·) c := List.destutter'_cons_pos _ same
      rw [if_pos same, kept, ih]
      split
      · rfl
      · rfl

theorem collapse_concat (l : List α) (a : α) :
    collapse (l ++ [a]) = if l.getLast? = some a then collapse l else collapse l ++ [a] := by
  cases l with
  | nil => rfl
  | cons b l => exact destutter'_concat l a b

theorem collapse_prefix (l m : List α) : collapse l <+: collapse (l ++ m) := by
  induction m generalizing l with
  | nil =>
    simp only [List.append_nil, List.prefix_rfl]
  | cons a m ih =>
    have first : collapse l <+: collapse (l ++ [a]) := by
      rw [collapse_concat]
      split
      · exact List.prefix_rfl
      · exact List.prefix_append _ _
    have rest := ih (l ++ [a])
    rw [List.append_assoc] at rest
    exact first.trans rest

theorem getLast?_collapse (l : List α) : (collapse l).getLast? = l.getLast? := by
  induction l using List.reverseRecOn with
  | nil => rfl
  | append_singleton l a ih =>
    rw [collapse_concat, List.getLast?_concat]
    split
    · rename_i same
      rw [ih, same]
    · exact List.getLast?_concat

theorem collapse_concat_congr {l m : List α} (same : collapse l = collapse m) (a : α) :
    collapse (l ++ [a]) = collapse (m ++ [a]) := by
  have last := congrArg List.getLast? same
  rw [getLast?_collapse, getLast?_collapse] at last
  rw [collapse_concat, collapse_concat, same, last]

end Collapse

section Lists

variable {α : Type}

theorem filter_append_filter_not {p : α → Bool} {l : List α} (first : l.Pairwise fun a b => p b = true → p a = true) :
    l.filter p ++ l.filter (fun a => !p a) = l := by
  induction l with
  | nil => rfl
  | cons a l ih =>
    obtain ⟨before, rest⟩ := List.pairwise_cons.mp first
    by_cases this : p a = true
    · rw [List.filter_cons_of_pos this, List.filter_cons_of_neg (by simpa using this), List.cons_append, ih rest]
    · rw [List.filter_cons_of_neg this, List.filter_cons_of_pos (by simpa using this)]
      have none : l.filter p = [] := by
        rw [List.filter_eq_nil_iff]
        intro b member holds
        exact this (before b member holds)
      have all : l.filter (fun a => !p a) = l := by
        rw [List.filter_eq_self]
        intro b member
        simpa using fun holds => this (before b member holds)
      rw [none, all, List.nil_append]

theorem pairwise_iff_getElem? {R : α → α → Prop} {l : List α} : l.Pairwise R ↔
    ∀ (i j : Nat) (a b : α), i < j → l[i]? = some a → l[j]? = some b → R a b := by
  rw [List.pairwise_iff_getElem]
  constructor
  · intro holds i j a b before first second
    obtain ⟨inside, rfl⟩ := List.getElem?_eq_some_iff.mp first
    obtain ⟨there, rfl⟩ := List.getElem?_eq_some_iff.mp second
    exact holds i j inside there before
  · intro holds i j inside there before
    exact holds i j _ _ before (List.getElem?_eq_getElem inside) (List.getElem?_eq_getElem there)

/-- The elements that stand where a predicate holds are those for which it holds. -/
theorem filterMap_places {β : Type} (p : α → Bool) (f : α → β) (l : List α) :
    ((List.range l.length).filter fun i => (l[i]?).any p).filterMap (fun i => (l[i]?).map f) = (l.filter p).map f := by
  induction l using List.reverseRecOn with
  | nil => rfl
  | append_singleton l a ih =>
    have old : ∀ i ∈ List.range l.length, (l ++ [a])[i]? = l[i]? := by
      intro i member
      exact List.getElem?_append_left (List.mem_range.mp member)
    have new : (l ++ [a])[l.length]? = some a := by simp
    have same : ((List.range l.length).filter fun i => ((l ++ [a])[i]?).any p) =
        (List.range l.length).filter fun i => (l[i]?).any p := by
      apply List.filter_congr
      intro i member
      rw [old i member]
    have mapped : ((List.range l.length).filter fun i => (l[i]?).any p).filterMap (fun i => ((l ++ [a])[i]?).map f) =
        ((List.range l.length).filter fun i => (l[i]?).any p).filterMap (fun i => (l[i]?).map f) := by
      apply List.filterMap_congr
      intro i member
      rw [old i (List.mem_filter.mp member).1]
    rw [List.length_append, List.length_singleton, List.range_succ, List.filter_append, List.filterMap_append, same,
      mapped, ih, List.filter_append, List.map_append]
    congr 1
    by_cases holds : p a = true
    · rw [List.filter_cons_of_pos (by rw [new]; exact holds), List.filter_cons_of_pos holds]
      simp
    · rw [List.filter_cons_of_neg (by rw [new]; exact holds), List.filter_cons_of_neg holds]
      rfl

end Lists

section Order

def key (data : CallbackData) : Bytes × EventType := (data.infoUri, data.eventType)

/-- The types of the changes of one file. -/
def about (log : List (Bytes × EventType)) (uri : Bytes) : List EventType :=
  (log.filter fun entry => entry.1 = uri).map (·.2)

/-- Of two queued callbacks for one file, the second has not got further, and is not due before the first. -/
structure Precedes (a b : CallbackData) : Prop where
  sent : a.infoUri = b.infoUri → b.sendState = .sent → a.sendState = .sent
  unsent : a.infoUri = b.infoUri → a.sendState = .notSent → b.sendState = .notSent ∧ a.sendAt ≤ b.sendAt

/-- What has been started, is waiting in a batch, and is queued for a later one. -/
def journal (pending : List CallbackData) (waiting : List Nat) (started : List (Bytes × EventType)) :
    List (Bytes × EventType) :=
  started ++ waiting.filterMap (fun place => (pending[place]?).map key) ++
    (pending.filter fun data => data.sendState = .notSent).map key

/-- The last queued callback for a file, where it has not been sent, is also the last in the journal. -/
def Latest (pending : List CallbackData) (log : List (Bytes × EventType)) : Prop :=
  ∀ (place : Nat) (data : CallbackData), pending[place]? = some data → data.sendState ≠ .sent →
    (∀ (later : Nat) (other : CallbackData), place < later → pending[later]? = some other →
      other.infoUri ≠ data.infoUri) → (about log data.infoUri).getLast? = some data.eventType

structure InOrder (pending : List CallbackData) (waiting : List Nat) (started told : List (Bytes × EventType)) : Prop where
  ordered : pending.Pairwise Precedes
  inside : ∀ place ∈ waiting, place < pending.length
  same : ∀ uri, collapse (about told uri) = collapse (about (journal pending waiting started) uri)
  latest : Latest pending (journal pending waiting started)

variable {pending changed : List CallbackData} {waiting : List Nat} {started told log : List (Bytes × EventType)}
  {uri : Bytes} {eventType : EventType} {data last : CallbackData} {now : Nat}

theorem about_append (first second : List (Bytes × EventType)) (uri : Bytes) :
    about (first ++ second) uri = about first uri ++ about second uri := by
  rw [about, List.filter_append, List.map_append]
  rfl

theorem about_concat (log : List (Bytes × EventType)) (uri : Bytes) (eventType : EventType) :
    about (log ++ [(uri, eventType)]) uri = about log uri ++ [eventType] := by
  rw [about_append]
  simp [about]

theorem about_concat_of_ne {other : Bytes} (apart : uri ≠ other) :
    about (log ++ [(uri, eventType)]) other = about log other := by
  rw [about_append]
  simp [about, apart]

/-- Where the last queued callback for a file stands. -/
theorem lastData_split {place : Nat} (found : lastData pending uri = some (place, last)) :
    ∃ front back, pending = front ++ last :: back ∧ last.infoUri = uri ∧ ∀ other ∈ back, other.infoUri ≠ uri := by
  obtain ⟨⟨data, i⟩, here, same⟩ := Option.map_eq_some_iff.mp found
  cases same
  obtain ⟨named, before, after, split, none⟩ := List.find?_eq_some_iff_append.mp here
  have whole : pending.zipIdx = after.reverse ++ (data, i) :: before.reverse := by
    rw [← List.reverse_reverse pending.zipIdx, split, List.reverse_append, List.reverse_cons, List.append_assoc]
    rfl
  have queue := congrArg (List.map Prod.fst) whole
  rw [List.zipIdx_map_fst, List.map_append, List.map_cons] at queue
  refine ⟨_, _, queue, by simpa using named, ?_⟩
  intro other member
  obtain ⟨entry, there, rfl⟩ := List.mem_map.mp member
  simpa using none entry (List.mem_reverse.mp there)

theorem lastData_none (none : lastData pending uri = none) : ∀ data ∈ pending, data.infoUri ≠ uri := by
  intro data member
  have found := List.find?_eq_none.mp (Option.map_eq_none_iff.mp none)
  obtain ⟨place, here⟩ := List.getElem?_of_mem member
  simpa using found (data, place) (List.mem_reverse.mpr (List.mem_zipIdx_iff_getElem?.mpr here))

/-- A queue that differs in how far it has got, but not in what it is about. -/
theorem Latest.advance (latest : Latest pending log) (length : changed.length = pending.length)
    (same : ∀ (place : Nat) (a b : CallbackData), pending[place]? = some a → changed[place]? = some b →
      key b = key a ∧ (a.sendState = .sent → b.sendState = .sent)) : Latest changed log := by
  have before : ∀ (place : Nat) (b : CallbackData), changed[place]? = some b → ∃ a, pending[place]? = some a := by
    intro place b here
    have inside := (List.getElem?_eq_some_iff.mp here).1
    exact ⟨_, List.getElem?_eq_getElem (by omega)⟩
  intro place b here unsent alone
  obtain ⟨a, there⟩ := before place b here
  obtain ⟨about, sent⟩ := same place a b there here
  rw [key, key, Prod.mk.injEq] at about
  rw [about.1, about.2]
  apply latest place a there (fun never => unsent (sent never))
  intro later other after found
  have inside := (List.getElem?_eq_some_iff.mp found).1
  obtain ⟨there, now⟩ : ∃ data, changed[later]? = some data := ⟨_, List.getElem?_eq_getElem (by omega)⟩
  have named := (same later other _ found now).1
  rw [key, key, Prod.mk.injEq] at named
  rw [← named.1, ← about.1]
  exact alone later _ after now

theorem journal_append (started : List (Bytes × EventType)) (inside : ∀ place ∈ waiting, place < pending.length) (unsent : data.sendState = .notSent) :
    journal (pending ++ [data]) waiting started = journal pending waiting started ++ [key data] := by
  have places : waiting.filterMap (fun place => ((pending ++ [data])[place]?).map key) =
      waiting.filterMap (fun place => (pending[place]?).map key) := by
    apply List.filterMap_congr
    intro place member
    rw [List.getElem?_append_left (inside place member)]
  rw [journal, journal, places, List.filter_append, List.map_append, List.filter_cons_of_pos (by simpa using unsent)]
  simp [List.append_assoc]

/-- A change is queued behind all that it must not overtake. -/
theorem InOrder.append (order : InOrder pending waiting started told) (data : CallbackData) (unsent : data.sendState = .notSent)
    (behind : ∀ other ∈ pending, other.infoUri = data.infoUri → other.sendState = .notSent → other.sendAt ≤ data.sendAt) :
    InOrder (pending ++ [data]) waiting started (told ++ [key data]) := by
  have whole := journal_append started order.inside unsent
  refine ⟨?_, ?_, ?_, ?_⟩
  · rw [List.pairwise_append]
    refine ⟨order.ordered, List.pairwise_singleton _ _, ?_⟩
    intro other member new this
    rw [List.mem_singleton.mp this]
    constructor
    · intro _ never
      rw [unsent] at never
      cases never
    · intro named early
      exact ⟨unsent, behind other member named early⟩
  · intro place member
    have inside := order.inside place member
    rw [List.length_append]
    omega
  · intro uri
    rw [whole]
    by_cases this : data.infoUri = uri
    · rw [key, this, about_concat, about_concat]
      exact collapse_concat_congr (order.same uri) _
    · rw [key, about_concat_of_ne this, about_concat_of_ne this]
      exact order.same uri
  · rw [whole]
    intro place other here early alone
    by_cases old : place < pending.length
    · rw [List.getElem?_append_left old] at here
      have apart : data.infoUri ≠ other.infoUri := alone pending.length data old (by simp)
      rw [key, about_concat_of_ne apart]
      apply order.latest place other here early
      intro later another after found
      apply alone later another after
      rw [List.getElem?_append_left (List.getElem?_eq_some_iff.mp found).1]
      exact found
    · rw [List.getElem?_append_right (by omega)] at here
      rw [List.mem_singleton.mp (List.mem_of_getElem? here), key, about_concat]
      exact List.getLast?_concat

theorem InOrder.merge (order : InOrder pending waiting started told) {place : Nat}
    (found : lastData pending uri = some (place, last)) (type : last.eventType = eventType)
    (unsent : last.sendState ≠ .sent) : InOrder pending waiting started (told ++ [(uri, eventType)]) := by
  refine ⟨order.ordered, order.inside, ?_, order.latest⟩
  intro other
  by_cases this : uri = other
  · obtain ⟨front, back, split, named, none⟩ := lastData_split found
    have here : pending[front.length]? = some last := by
      rw [split]
      simp
    have newest := order.latest front.length last here unsent (by
      intro later another after there
      rw [split, List.getElem?_append_right (by omega), List.getElem?_cons] at there
      rw [if_neg (by omega)] at there
      rw [named]
      exact none another (List.mem_of_getElem? there))
    rw [named, type] at newest
    rw [← this, about_concat, collapse_concat_congr (order.same uri) eventType, collapse_concat, if_pos newest]
  · rw [about_concat_of_ne this]
    exact order.same other

theorem journal_congr
    (same : changed.map (fun data => (key data, decide (data.sendState = .notSent))) =
      pending.map fun data => (key data, decide (data.sendState = .notSent))) :
    journal changed waiting started = journal pending waiting started := by
  have queued : ∀ pending : List CallbackData, (pending.filter fun data => data.sendState = .notSent).map key =
      ((pending.map fun data => (key data, decide (data.sendState = .notSent))).filter (·.2)).map (·.1) := by
    intro pending
    rw [List.filter_map, List.map_map]
    rfl
  have places : ∀ pending : List CallbackData, waiting.filterMap (fun place => (pending[place]?).map key) =
      waiting.filterMap fun place =>
        ((pending.map fun data => (key data, decide (data.sendState = .notSent)))[place]?).map (·.1) := by
    intro pending
    apply List.filterMap_congr
    intro place _
    rw [List.getElem?_map, Option.map_map]
    rfl
  rw [journal, journal, places changed, places pending, queued changed, queued pending, same]

theorem Latest.congr {other : List (Bytes × EventType)} (latest : Latest pending log)
    (same : ∀ uri, about other uri = about log uri) : Latest pending other := by
  intro place data here unsent alone
  rw [same]
  exact latest place data here unsent alone

theorem InOrder.sendUriChangesNow (order : InOrder pending waiting started told) (uri : Bytes) (now : Nat) :
    InOrder (Monitor.sendUriChangesNow pending uri now) waiting started told := by
  have kept : ∀ data : CallbackData,
      key (if data.sendState ≠ .sent ∧ data.infoUri = uri then { data with sendAt := now } else data) = key data ∧
      (if data.sendState ≠ .sent ∧ data.infoUri = uri then { data with sendAt := now } else data).sendState =
        data.sendState := by
    intro data
    split
    · exact ⟨rfl, rfl⟩
    · exact ⟨rfl, rfl⟩
  have same : journal (Monitor.sendUriChangesNow pending uri now) waiting started = journal pending waiting started := by
    apply journal_congr
    rw [Monitor.sendUriChangesNow, List.map_map]
    apply List.map_congr_left
    intro data _
    show (key (if _ then _ else _), _) = _
    rw [(kept data).1, (kept data).2]
  refine ⟨?_, ?_, ?_, ?_⟩
  · rw [Monitor.sendUriChangesNow, List.pairwise_map]
    refine order.ordered.imp ?_
    intro a b first
    have names : ∀ data : CallbackData,
        (if data.sendState ≠ .sent ∧ data.infoUri = uri then { data with sendAt := now } else data).infoUri =
          data.infoUri := fun data => congrArg Prod.fst (kept data).1
    constructor
    · rw [names, names, (kept a).2, (kept b).2]
      exact first.sent
    · rw [names, names, (kept a).2, (kept b).2]
      intro named early
      obtain ⟨later, due⟩ := first.unsent named early
      refine ⟨later, ?_⟩
      by_cases this : a.infoUri = uri
      · apply Nat.le_of_eq
        rw [if_pos ⟨by rw [early]; decide, this⟩, if_pos ⟨by rw [later]; decide, named ▸ this⟩]
      · rw [if_neg fun both => this both.2, if_neg fun both => this (named.trans both.2)]
        exact due
  · intro place member
    rw [Monitor.sendUriChangesNow, List.length_map]
    exact order.inside place member
  · rw [same]
    exact order.same
  · rw [same]
    apply order.latest.advance (by rw [Monitor.sendUriChangesNow, List.length_map])
    intro place a b here there
    rw [Monitor.sendUriChangesNow, List.getElem?_map, here] at there
    cases there
    exact ⟨(kept a).1, fun sent => (kept a).2.trans sent⟩

/-- Of each file the callbacks that are due come first, so collecting them changes no order. -/
theorem collect_journal (started : List (Bytes × EventType)) (ordered : pending.Pairwise Precedes) (now : Nat) (uri : Bytes) :
    about (journal
      (pending.map fun data => if data.due now then { data with sendState := .sending } else data)
      (dispatched pending now) started) uri = about (journal pending [] started) uri := by
  have named : ∀ l : List CallbackData, about (l.map key) uri = (l.filter fun data => data.infoUri = uri).map (·.eventType) := by
    intro l
    rw [about, List.filter_map, List.map_map]
    rfl
  have kept : ∀ data : CallbackData, key (if data.due now then { data with sendState := .sending } else data) = key data := by
    intro data
    split
    · rfl
    · rfl
  have batch : (dispatched pending now).filterMap (fun place =>
      ((pending.map fun data => if data.due now then { data with sendState := .sending } else data)[place]?).map key) =
        (pending.filter fun data => data.due now).map key := by
    rw [dispatched, ← filterMap_places]
    apply List.filterMap_congr
    intro place _
    rw [List.getElem?_map, Option.map_map]
    apply congrArg (fun f => Option.map f pending[place]?)
    funext data
    exact kept data
  have queued : ((pending.map fun data => if data.due now then { data with sendState := .sending } else data).filter
      fun data => data.sendState = .notSent).map key =
        (pending.filter fun data => decide (data.sendState = .notSent) && !data.due now).map key := by
    rw [List.filter_map, List.map_map]
    have filtered : pending.filter ((fun data : CallbackData => decide (data.sendState = .notSent)) ∘
        fun data => if data.due now then { data with sendState := .sending } else data) =
          pending.filter fun data => decide (data.sendState = .notSent) && !data.due now := by
      apply List.filter_congr
      intro data _
      show decide ((if data.due now then { data with sendState := .sending } else data).sendState = .notSent) = _
      by_cases due : data.due now = true
      · rw [if_pos due, due]
        simp
      · rw [if_neg due]
        simp [due]
    rw [filtered]
    apply List.map_congr_left
    intro data _
    exact kept data
  have due : ∀ data : CallbackData, data.due now = (decide (data.sendState = .notSent) && decide (data.sendAt ≤ now)) := by
    intro data
    simp [CallbackData.due, Bool.decide_and]
  -- the callbacks for the file that are still to be sent are sorted by the time they are due
  have sorted : ((pending.filter fun data => data.sendState = .notSent).filter fun data => data.infoUri = uri).Pairwise
      fun a b => decide (b.sendAt ≤ now) = true → decide (a.sendAt ≤ now) = true := by
    have ordered := (ordered.filter fun data => data.sendState = .notSent).filter fun data => data.infoUri = uri
    refine List.Pairwise.imp_of_mem ?_ ordered
    intro a b first second precedes late
    obtain ⟨early, aNamed⟩ := List.mem_filter.mp first
    obtain ⟨-, bNamed⟩ := List.mem_filter.mp second
    have aNamed : a.infoUri = uri := by simpa using aNamed
    have bNamed : b.infoUri = uri := by simpa using bNamed
    have unsent : a.sendState = .notSent := by simpa using (List.mem_filter.mp early).2
    have before := (precedes.unsent (aNamed.trans bNamed.symm) unsent).2
    simp only [decide_eq_true_eq] at late ⊢
    omega
  have split := filter_append_filter_not sorted
  rw [journal, journal, batch, queued, List.append_assoc, about_append, about_append, named, named, List.filterMap_nil,
    List.append_nil, about_append, named, ← split, List.map_append]
  simp only [List.filter_filter]
  congr 3
  · apply List.filter_congr
    intro data _
    rw [due, ← Bool.and_assoc, Bool.and_comm]
  · apply List.filter_congr
    intro data _
    rw [due]
    cases decide (data.sendState = .notSent) with
    | false => simp only [Bool.false_and, Bool.and_false]
    | true => simp only [Bool.true_and, Bool.and_comm]

theorem InOrder.collect (order : InOrder pending [] started told) (now : Nat) :
    InOrder (pending.map fun data => if data.due now then { data with sendState := .sending } else data)
      (dispatched pending now) started told := by
  have journal := collect_journal started order.ordered now
  refine ⟨?_, ?_, ?_, ?_⟩
  · rw [List.pairwise_map]
    refine order.ordered.imp ?_
    intro a b first
    have names : ∀ data : CallbackData,
        (if data.due now then { data with sendState := .sending } else data).infoUri = data.infoUri := by
      intro data
      split
      · rfl
      · rfl
    constructor
    · rw [names, names]
      intro named sent
      by_cases due : b.due now = true
      · rw [if_pos due] at sent
        cases sent
      · rw [if_neg due] at sent
        have early := first.sent named sent
        rw [if_neg (by simp [CallbackData.due, early])]
        exact early
    · rw [names, names]
      intro named unsent
      by_cases due : a.due now = true
      · rw [if_pos due] at unsent
        cases unsent
      · rw [if_neg due] at unsent ⊢
        obtain ⟨later, before⟩ := first.unsent named unsent
        have held : ¬ b.due now = true := by
          simp [CallbackData.due, unsent] at due
          simp [CallbackData.due]
          omega
        rw [if_neg held]
        exact ⟨later, before⟩
  · intro place member
    obtain ⟨data, here, -⟩ := mem_dispatched.mp member
    rw [List.length_map]
    exact (List.getElem?_eq_some_iff.mp here).1
  · intro uri
    rw [journal]
    exact order.same uri
  · apply Latest.congr _ journal
    apply order.latest.advance (List.length_map _)
    intro place a b here there
    rw [List.getElem?_map, here] at there
    cases there
    constructor
    · show key (if _ then _ else _) = _
      split
      · rfl
      · rfl
    · intro sent
      have held : ¬ a.due now = true := by simp [CallbackData.due, sent]
      show (if _ then _ else _ : CallbackData).sendState = _
      rw [if_neg held]
      exact sent

theorem InOrder.start {place : Nat} (order : InOrder pending (place :: waiting) started told)
    (here : pending[place]? = some data) : InOrder pending waiting (started ++ [key data]) told := by
  have same : journal pending waiting (started ++ [key data]) = journal pending (place :: waiting) started := by
    rw [journal, journal, List.filterMap_cons_some (by rw [here]; rfl)]
    simp [List.append_assoc]
  refine ⟨order.ordered, ?_, ?_, ?_⟩
  · intro other member
    exact order.inside other (List.mem_cons_of_mem _ member)
  · rw [same]
    exact order.same
  · rw [same]
    exact order.latest

/-- The first callback of a batch has returned, so all before it have. -/
theorem InOrder.finish {place : Nat} {left : List Nat} (order : InOrder pending left started told)
    (batch : Batch pending (place :: left)) :
    InOrder (pending.modify place fun data => { data with sendState := .sent }) left started told := by
  have sending : ∀ data, pending[place]? = some data → data.sendState = .sending := fun data here =>
    (batch.places place data here).mpr List.mem_cons_self
  have changed : ∀ (other : Nat) (b : CallbackData),
      (pending.modify place fun data => { data with sendState := .sent })[other]? = some b →
      ∃ a, pending[other]? = some a ∧ key b = key a ∧ (b = a ∧ other ≠ place ∨ b.sendState = .sent ∧ other = place) := by
    intro other b here
    by_cases this : other = place
    · rw [this, List.getElem?_modify_eq] at here
      obtain ⟨a, there, rfl⟩ := Option.map_eq_some_iff.mp here
      exact ⟨a, by rw [this]; exact there, rfl, Or.inr ⟨rfl, this⟩⟩
    · rw [List.getElem?_modify_ne _ _ (Ne.symm this)] at here
      exact ⟨b, here, rfl, Or.inl ⟨rfl, this⟩⟩
  have same : journal (pending.modify place fun data => { data with sendState := .sent }) left started =
      journal pending left started := by
    apply journal_congr
    apply List.ext_getElem?
    intro other
    rw [List.getElem?_map, List.getElem?_map]
    by_cases this : other = place
    · rw [this, List.getElem?_modify_eq]
      cases here : pending[place]? with
      | none => rfl
      | some data =>
        have unsent : data.sendState ≠ .notSent := by
          rw [sending data here]
          decide
        simp [key, unsent]
    · rw [List.getElem?_modify_ne _ _ (Ne.symm this)]
  refine ⟨?_, ?_, ?_, ?_⟩
  · rw [pairwise_iff_getElem?]
    intro i j a b before first second
    obtain ⟨a', here, aKey, aChanged⟩ := changed i a first
    obtain ⟨b', there, bKey, bChanged⟩ := changed j b second
    have precedes := pairwise_iff_getElem?.mp order.ordered i j a' b' before here there
    rw [key, key, Prod.mk.injEq] at aKey bKey
    constructor
    · intro named sent
      rw [aKey.1, bKey.1] at named
      rcases aChanged with ⟨same, -⟩ | ⟨done, -⟩
      · rw [same]
        rcases bChanged with ⟨bSame, -⟩ | ⟨-, this⟩
        · exact precedes.sent named (bSame ▸ sent)
        · rw [this] at there before
          cases state : a'.sendState with
          | sent => rfl
          | notSent =>
            have never := (precedes.unsent named state).1
            rw [sending b' there] at never
            cases never
          | sending =>
            rcases List.mem_cons.mp ((batch.places i a' here).mp state) with same | later
            · omega
            · have after := (List.pairwise_cons.mp batch.sorted).1 i later
              omega
      · exact done
    · intro named unsent
      rw [aKey.1, bKey.1] at named
      rcases aChanged with ⟨same, -⟩ | ⟨done, -⟩
      · rw [same] at unsent ⊢
        obtain ⟨later, due⟩ := precedes.unsent named unsent
        rcases bChanged with ⟨bSame, -⟩ | ⟨-, this⟩
        · rw [bSame]
          exact ⟨later, due⟩
        · rw [this] at there
          rw [sending b' there] at later
          cases later
      · rw [done] at unsent
        cases unsent
  · intro other member
    rw [List.length_modify]
    exact order.inside other member
  · rw [same]
    exact order.same
  · rw [same]
    apply order.latest.advance (by rw [List.length_modify])
    intro other a b here there
    obtain ⟨a', found, about, after⟩ := changed other b there
    rw [here] at found
    cases found
    refine ⟨about, fun sent => ?_⟩
    rcases after with ⟨same, -⟩ | ⟨done, -⟩
    · rw [same]
      exact sent
    · exact done

/-- What has been sent may leave the queue. -/
theorem InOrder.filter (order : InOrder pending [] started told) {p : CallbackData → Bool}
    (keeps : ∀ data, data.sendState ≠ .sent → p data = true) : InOrder (pending.filter p) [] started told := by
  have same : journal (pending.filter p) [] started = journal pending [] started := by
    rw [journal, journal, List.filter_filter]
    congr 2
    apply List.filter_congr
    intro data _
    by_cases unsent : data.sendState = .notSent
    · simp [unsent, keeps data]
    · simp [unsent]
  refine ⟨order.ordered.filter _, ?_, ?_, ?_⟩
  · intro place never
    cases never
  · rw [same]
    exact order.same
  · rw [same]
    intro place data here unsent alone
    obtain ⟨inside, this⟩ := List.getElem?_eq_some_iff.mp here
    have split : pending.filter p = (pending.filter p).take place ++ data :: (pending.filter p).drop (place + 1) := by
      rw [← this, List.getElem_cons_drop, List.take_append_drop]
    obtain ⟨front, rest, whole, -, kept⟩ := List.filter_eq_append_iff.mp split
    obtain ⟨gone, back, tail, -, -, behind⟩ := List.filter_eq_cons_iff.mp kept
    have queue : pending = (front ++ gone) ++ data :: back := by
      rw [whole, tail, List.append_assoc]
    have there : pending[(front ++ gone).length]? = some data := by
      rw [queue]
      simp
    apply order.latest _ data there unsent
    intro later other after found named
    have member : other ∈ back := by
      have position := found
      rw [queue, List.getElem?_append_right (by omega), List.getElem?_cons, if_neg (by omega)] at position
      exact List.mem_of_getElem? position
    by_cases holds : p other = true
    · have member : other ∈ (pending.filter p).drop (place + 1) := by
        rw [← behind]
        exact List.mem_filter.mpr ⟨member, holds⟩
      obtain ⟨offset, position⟩ := List.getElem?_of_mem member
      rw [List.getElem?_drop] at position
      exact alone (place + 1 + offset) other (by omega) position named
    · -- what has left the queue had been sent, and so had all before it
      have sent : other.sendState = .sent := by
        by_contra early
        exact holds (keeps other early)
      have precedes := pairwise_iff_getElem?.mp order.ordered _ _ data other after there found
      exact unsent (precedes.sent named.symm sent)

end Order

section Steps

variable {s t : State} {uri : Bytes} {eventType : EventType} {data : CallbackData} {source now next place : Nat}
  {left : List Nat} {frames : List Frame} {running : Bool}

def State.InOrder (s : State) : Prop :=
  MonitorDispatch.InOrder s.handle.pendingCallbacks s.waiting s.started s.told

theorem State.push_in_order
    (order : MonitorDispatch.InOrder (s.handle.pendingCallbacks ++ [data]) s.waiting s.started s.told) :
    (s.push data source).InOrder := by
  obtain ⟨pending, -, frames, started, told⟩ := s.push_frame data source
  rw [State.InOrder, State.waiting, pending, frames, started, told]
  exact order

theorem State.InOrder.enter (order : s.InOrder) (live : s.handle.cancelled = false) :
    (State.monitorCallback { s with clock := now, told := s.told ++ [(uri, eventType)] } uri eventType now source).InOrder := by
  rcases State.monitorCallback_cases (s := { s with clock := now, told := s.told ++ [(uri, eventType)] }) uri eventType now
    source live with
    ⟨place, last, found, type, unsent, same⟩ | ⟨none, same⟩ | same | ⟨place, last, sendAt, found, sent, same⟩
  · rw [same]
    exact order.merge found type unsent
  · rw [same]
    refine State.push_in_order (order.append ⟨uri, eventType, .notSent, now⟩ rfl ?_)
    intro other member named
    exact absurd named (lastData_none none other member)
  · rw [same]
    refine State.push_in_order ((order.sendUriChangesNow uri now).append
      ⟨uri, eventType, .notSent, now⟩ rfl ?_)
    intro other member named unsent
    obtain ⟨before, _, rfl⟩ := List.mem_map.mp member
    split
    · exact Nat.le_refl now
    · rename_i kept
      rw [if_neg kept] at named unsent
      exact absurd ⟨by rw [unsent]; decide, named⟩ kept
  · rw [same]
    refine State.push_in_order (order.append ⟨uri, eventType, .notSent, sendAt⟩ rfl ?_)
    intro other member named unsent
    obtain ⟨front, back, split, about, none⟩ := lastData_split found
    have split : s.handle.pendingCallbacks = front ++ last :: back := split
    have ordered : s.handle.pendingCallbacks.Pairwise Precedes := order.ordered
    have member : other ∈ s.handle.pendingCallbacks := member
    rw [split, List.pairwise_append] at ordered
    rw [split] at member
    have done : other.sendState = .sent := by
      rcases List.mem_append.mp member with before | after
      · exact (ordered.2.2 other before last List.mem_cons_self).sent (named.trans about.symm) sent
      · rcases List.mem_cons.mp after with this | later
        · rw [this]
          exact sent
        · exact absurd named (none other later)
    rw [done] at unsent
    cases unsent

theorem State.InOrder.collect (sound : s.Sound) (order : s.InOrder) (here : s.frames = .timed source now :: frames)
    (live : s.handle.cancelled = false) : (s.collect source now frames).InOrder := by
  have none := sound.outer here
  have empty : s.waiting = [] := by
    rw [State.waiting, here, none]
    rfl
  rw [State.InOrder, empty] at order
  unfold State.collect
  rw [if_neg (by rw [live]; decide), none, State.InOrder, State.waiting]
  simpa [Frame.waiting, Handle.collect] using order.collect now

theorem State.InOrder.start (sound : s.Sound) (order : s.InOrder)
    (here : s.frames = .sending source now (place :: left) false :: frames)
    (found : s.handle.pendingCallbacks[place]? = some data) :
    State.InOrder { s with
      frames := .sending source now (place :: left) true :: frames
      started := s.started ++ [(data.infoUri, data.eventType)] } := by
  have none := sound.outer here
  have waiting : s.waiting = place :: left := by
    rw [State.waiting, here, none]
    simp [Frame.waiting]
  rw [State.InOrder, waiting] at order
  rw [none, State.InOrder, State.waiting]
  simpa [Frame.waiting, key] using MonitorDispatch.InOrder.start order found

theorem State.InOrder.finish (sound : s.Sound) (order : s.InOrder)
    (here : s.frames = .sending source now (place :: left) true :: frames) :
    State.InOrder { s with handle := s.handle.markSent place, frames := .sending source now left false :: frames } := by
  have none := sound.outer here
  have waiting : s.waiting = left := by
    rw [State.waiting, here, none]
    simp [Frame.waiting]
  have batch := sound.batch
  rw [State.left, here, none] at batch
  have batch : Batch s.handle.pendingCallbacks (place :: left) := by simpa [Frame.left] using batch
  rw [State.InOrder, waiting] at order
  rw [none, State.InOrder, State.waiting]
  simpa [Frame.waiting, Handle.markSent] using MonitorDispatch.InOrder.finish order batch

theorem State.InOrder.settle (sound : s.Sound) (order : s.InOrder)
    (here : s.frames = .sending source now [] running :: frames) (live : s.handle.cancelled = false) :
    State.InOrder
      (State.sourceRemove (State.settle { s with frames := frames, aborted := s.sendingAny } now next) source) := by
  have none := sound.outer here
  have empty : s.waiting = [] := by
    rw [State.waiting, here, none]
    cases running with
    | false => rfl
    | true => rfl
  rw [State.InOrder, empty] at order
  have kept : ∀ data : CallbackData, data.sendState ≠ .sent → decide (¬ data.atEnd now = true) = true := by
    intro data unsent
    simp [CallbackData.atEnd, unsent]
  have filtered := MonitorDispatch.InOrder.filter order kept
  unfold State.settle
  dsimp only
  rw [if_neg (by rw [live]; decide), none]
  split
  · exact filtered
  · rw [State.installTimeout, State.removeTimeout_eq]
    exact filtered

end Steps

section Runs

variable {s t : State} {event : Event}

/-- Any run in which the callbacks do not run the main loop. -/
def State.timely (s : State) (event : Event) : Prop := s.allowed event ∧ s.clocked event ∧ s.unnested event

theorem State.step_cancelled (stepped : s.step event = some t) (cancelled : s.handle.cancelled = true) :
    t.handle.cancelled = true := by
  have used : ∀ {u : State}, u.handle.cancelled = true → (s.use u).handle.cancelled = true := by
    intro u still
    rw [State.use]
    split
    · exact cancelled
    · exact still
  unfold State.step at stepped
  split at stepped
  · cases stepped
  cases event with
  | enter uri eventType now source =>
    dsimp only at stepped
    split at stepped
    · cases stepped
    · cases stepped
      rw [State.monitorCallback, if_pos cancelled]
      exact cancelled
  | cancel =>
    cases stepped
  | wake source now =>
    dsimp only at stepped
    split at stepped
    · cases stepped
      exact cancelled
    · cases stepped
  | collect =>
    dsimp only at stepped
    split at stepped
    · cases stepped
      apply used
      rw [State.collect, if_pos cancelled, State.destroyMonitorHandle, State.removeTimeout_eq]
      exact cancelled
    · cases stepped
  | start =>
    dsimp only at stepped
    split at stepped
    · obtain ⟨data, -, rfl⟩ := Option.map_eq_some_iff.mp stepped
      exact used cancelled
    · cases stepped
  | finish =>
    dsimp only at stepped
    split at stepped
    · cases stepped
      exact used cancelled
    · cases stepped
  | settle next =>
    dsimp only at stepped
    split at stepped
    · cases stepped
      apply used
      rw [State.settle]
      dsimp only
      rw [if_pos cancelled, State.destroyMonitorHandle, State.removeTimeout_eq]
      exact cancelled
    · cases stepped

/-- A step that leaves the monitor uncancelled keeps its timeout and its order. -/
theorem State.step_in_order (sound : s.Sound) (order : s.InOrder) (timely : s.timely event) (tidy : s.tidy event)
    (stepped : s.step event = some t) (live : t.handle.cancelled = false) : t.Sound ∧ t.InOrder := by
  obtain ⟨numbered, -, unnested⟩ := timely
  have before : s.handle.cancelled = false := by
    rw [Bool.eq_false_iff]
    intro cancelled
    rw [State.step_cancelled stepped cancelled] at live
    cases live
  have used : ∀ u : State, s.use u = u := fun u => if_neg (by rw [sound.kept]; decide)
  unfold State.step at stepped
  rw [if_neg (by rw [sound.calm, sound.untouched]; decide)] at stepped
  cases event with
  | enter uri eventType now source =>
    dsimp only at stepped
    rw [if_neg (by rw [sound.kept]; decide), if_neg (by rw [before]; decide)] at stepped
    cases stepped
    exact ⟨(sound.tell now _).monitorCallback numbered, order.enter before⟩
  | cancel =>
    dsimp only at stepped
    rw [if_neg (by rw [before]; decide)] at stepped
    cases stepped
    unfold State.monitorDoCancel State.destroyMonitorHandle at live
    dsimp only at live
    split at live
    · cases live
    · rw [State.removeTimeout_eq] at live
      cases live
  | wake source now =>
    dsimp only at stepped
    split at stepped
    · rename_i ready
      cases stepped
      refine ⟨sound.wake unnested ready.1, ?_⟩
      have quiet : s.frames = [] := unnested
      rw [State.InOrder, State.waiting, quiet] at order
      rw [quiet]
      exact order
    · cases stepped
  | collect =>
    dsimp only at stepped
    split at stepped
    · rename_i source now frames here
      rw [used] at stepped
      cases stepped
      exact ⟨sound.collect here before, State.InOrder.collect sound order here before⟩
    · cases stepped
  | start =>
    dsimp only at stepped
    split at stepped
    · rename_i source now place left frames here
      obtain ⟨data, found, rfl⟩ := Option.map_eq_some_iff.mp stepped
      rw [used]
      exact ⟨sound.start here, State.InOrder.start sound order here found⟩
    · cases stepped
  | finish =>
    dsimp only at stepped
    split at stepped
    · rename_i source now place left frames here
      rw [used] at stepped
      cases stepped
      exact ⟨sound.finish here, State.InOrder.finish sound order here⟩
    · cases stepped
  | settle next =>
    dsimp only at stepped
    split at stepped
    · rename_i source now running frames here
      rw [used] at stepped
      cases stepped
      have tidy : (Frame.sending source now [] running).tidy s.handle := tidy _ (by rw [here]; rfl)
      exact ⟨sound.settle here before numbered (tidy before), State.InOrder.settle sound order here before⟩
    · cases stepped

/-- Where every dispatch that leaves nothing to deliver ends with the source that started it: for each file
the callbacks are started in the order in which its changes have been told of; what is to be delivered has
exactly one source installed for it, the pending timeout; and no assertion fails. -/
theorem State.run_in_order {clock : Nat}
    (run : Run State.step (fun s e => s.timely e ∧ s.tidy e) (State.new clock) s) (live : s.handle.cancelled = false) :
    (∀ uri, collapse (about s.started uri) <+: collapse (about s.told uri)) ∧
    (s.frames = [] → (∃ data ∈ s.handle.pendingCallbacks, data.sendState = .notSent) →
      s.handle.pendingTimeout ≠ 0 ∧ s.sources = [s.handle.pendingTimeout]) ∧ s.aborted = false := by
  have kept : s.handle.cancelled = false → s.Sound ∧ s.InOrder := by
    apply run.keeps (P := fun s => s.handle.cancelled = false → s.Sound ∧ s.InOrder)
    · intro _
      refine ⟨State.Sound.new clock, List.Pairwise.nil, ?_, fun _ => rfl, ?_⟩
      · intro place never
        cases never
      · intro place data never
        cases never
    · intro s event t holds fits stepped live
      have before : s.handle.cancelled = false := by
        rw [Bool.eq_false_iff]
        intro cancelled
        rw [State.step_cancelled stepped cancelled] at live
        cases live
      obtain ⟨sound, order⟩ := holds before
      exact State.step_in_order sound order fits.1 fits.2 stepped live
  obtain ⟨sound, order⟩ := kept live
  refine ⟨?_, ?_, sound.calm⟩
  · intro uri
    rw [order.same uri, journal, List.append_assoc, about_append]
    exact collapse_prefix _ _
  · rintro quiet ⟨data, member, unsent⟩
    have some : s.handle.pendingTimeout ≠ 0 := by
      intro none
      have done := (sound.idle none).2
      rw [noLiveCallbacks, List.all_eq_true] at done
      simpa [unsent] using done data member
    refine ⟨some, ?_⟩
    rw [sound.sources, if_neg some]

instance (s : State) (event : Event) : Decidable (s.timely event) := instDecidableAnd

/-- Two changes of one file make a batch, and a third is told of while it is dispatched. -/
def changing : List Event :=
  [.enter [47] .changed 5 1, .enter [47] .deleted 5 2, .wake 1 5, .collect, .start, .finish,
    .enter [47] .created 6 2, .start, .finish, .settle 2]

theorem State.run_in_order_changing : ∃ s : State, s.started = [([47], .changed), ([47], .deleted)] ∧
    (∀ uri, collapse (about s.started uri) <+: collapse (about s.told uri)) ∧
    (s.frames = [] → (∃ data ∈ s.handle.pendingCallbacks, data.sendState = .notSent) →
      s.handle.pendingTimeout ≠ 0 ∧ s.sources = [s.handle.pendingTimeout]) ∧ s.aborted = false := by
  have run : ∃ s, changing.foldlM (guarded State.step fun s e => s.timely e ∧ s.tidy e) (State.new 5) = some s ∧
      s.started = [([47], .changed), ([47], .deleted)] ∧ s.handle.cancelled = false := ⟨_, rfl, rfl, rfl⟩
  obtain ⟨s, followed, started, live⟩ := run
  exact ⟨s, started, State.run_in_order (Run.of_foldlM _ followed) live⟩

/-- A change that has been reported is told of again while another is about to be dispatched, and then a
third one. -/
def doubled : List Event :=
  [.enter [47] .changed 5 1, .wake 1 5, .collect, .start, .finish, .settle 2, .enter [48] .changed 9 2, .wake 2 9,
    .enter [47] .changed 9 3, .collect, .start, .finish, .start, .finish, .settle 4, .enter [49] .changed 9 4]

/-- The timeout that was installed during the dispatch is forgotten, and a second one is installed beside it. -/
theorem doubled_sources : ∃ s, Run State.step State.timely (State.new 5) s ∧ s.handle.cancelled = false ∧
    s.frames = [] ∧ (∃ data ∈ s.handle.pendingCallbacks, data.sendState = .notSent) ∧
    s.handle.pendingTimeout = 4 ∧ s.sources = [3, 4] := by
  have run : ∃ s, doubled.foldlM (guarded State.step State.timely) (State.new 5) = some s ∧
      s.handle.cancelled = false ∧ s.frames = [] ∧
      s.handle.pendingCallbacks = [⟨[48], .changed, .sent, 9⟩, ⟨[49], .changed, .notSent, 9⟩] ∧
      s.handle.pendingTimeout = 4 ∧ s.sources = [3, 4] := ⟨_, rfl, rfl, rfl, rfl, rfl, rfl⟩
  obtain ⟨s, followed, live, quiet, pending, timeout, sources⟩ := run
  refine ⟨s, Run.of_foldlM _ followed, live, quiet, ⟨⟨[49], .changed, .notSent, 9⟩, ?_, rfl⟩, timeout, sources⟩
  rw [pending]
  simp

end Runs

end GnomeVfs.MonitorDispatch
