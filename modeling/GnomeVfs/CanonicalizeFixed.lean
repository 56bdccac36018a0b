import GnomeVfs.Canonicalize

/- The paths that `_gnome_vfs_canonicalize_pathname` leaves as they are. -/
namespace GnomeVfs

/-- The parts of a path between its slashes. -/
def segments (path : Bytes) : List Bytes := path.splitOn chrSlash

/-- No part can be taken out: there is no `.`, no `..` behind the first part, and no
empty part other than the first and the last. -/
def Settled (path : Bytes) : Prop :=
  [chrDot] ∉ segments path ∧ [chrDot, chrDot] ∉ (segments path).tail ∧
    [] ∉ (segments path).tail.dropLast

instance (path : Bytes) : Decidable (Settled path) := inferInstanceAs (Decidable (_ ∧ _ ∧ _))

/-- The same for the parts behind the first. -/
def SettledRest (path : Bytes) : Prop :=
  [chrDot] ∉ segments path ∧ [chrDot, chrDot] ∉ segments path ∧ [] ∉ (segments path).dropLast

variable {path : Bytes}

theorem segments_of_no_slash (clear : chrSlash ∉ path) : segments path = [path] :=
  List.splitOn_eq_singleton clear

theorem segments_cons {part : Bytes} (clear : chrSlash ∉ part) (tail : Bytes) :
    segments (part ++ chrSlash :: tail) = part :: segments tail :=
  List.splitOn_append_cons_self_of_not_mem clear tail

theorem segments_ne_nil (path : Bytes) : segments path ≠ [] := List.splitOn_ne_nil _ _

theorem settledRest_of_no_slash (clear : chrSlash ∉ path) :
    SettledRest path ↔ path ≠ [chrDot] ∧ path ≠ [chrDot, chrDot] := by
  simp only [SettledRest, segments_of_no_slash clear, List.mem_singleton, List.dropLast_singleton,
    List.not_mem_nil, not_false_eq_true, and_true]
  exact and_congr (not_congr eq_comm) (not_congr eq_comm)

theorem settledRest_cons {part : Bytes} (clear : chrSlash ∉ part) (tail : Bytes) :
    SettledRest (part ++ chrSlash :: tail) ↔
      part ≠ [] ∧ part ≠ [chrDot] ∧ part ≠ [chrDot, chrDot] ∧ SettledRest tail := by
  simp only [SettledRest, segments_cons clear, List.mem_cons, not_or,
    List.dropLast_cons_of_ne_nil (segments_ne_nil tail)]
  constructor
  · rintro ⟨⟨dot, noDot⟩, ⟨dots, noDots⟩, empty, noEmpty⟩
    exact ⟨Ne.symm empty, Ne.symm dot, Ne.symm dots, noDot, noDots, noEmpty⟩
  · rintro ⟨empty, dot, dots, noDot, noDots, noEmpty⟩
    exact ⟨⟨Ne.symm dot, noDot⟩, ⟨Ne.symm dots, noDots⟩, Ne.symm empty, noEmpty⟩

theorem settled_cons {part : Bytes} (clear : chrSlash ∉ part) (tail : Bytes) :
    Settled (part ++ chrSlash :: tail) ↔ part ≠ [chrDot] ∧ SettledRest tail := by
  simp only [Settled, segments_cons clear, List.mem_cons, not_or, List.tail_cons, SettledRest]
  constructor
  · rintro ⟨⟨dot, noDot⟩, noDots, noEmpty⟩
    exact ⟨Ne.symm dot, noDot, noDots, noEmpty⟩
  · rintro ⟨dot, noDot, noDots, noEmpty⟩
    exact ⟨⟨Ne.symm dot, noDot⟩, noDots, noEmpty⟩

theorem path_cases (path : Bytes) :
    chrSlash ∉ path ∨ ∃ part tail, path = part ++ chrSlash :: tail ∧ chrSlash ∉ part := by
  by_cases slash : chrSlash ∈ path
  · obtain ⟨part, tail, rfl, first⟩ := List.eq_append_cons_of_mem slash
    exact Or.inr ⟨part, tail, rfl, first⟩
  · exact Or.inl slash

theorem byteAt_append (front back : Bytes) (i : Nat) :
    byteAt (front ++ back) (front.length + i) = byteAt back i := by
  simp only [byteAt, List.getD_eq_getElem?_getD]
  rw [List.getElem?_append_right (by omega)]
  simp

theorem findNextSlash_append (front part tail : Bytes) (clear : chrSlash ∉ part) :
    findNextSlash (front ++ (part ++ chrSlash :: tail)) front.length =
      some (front.length + part.length) := by
  have miss : part.findIdx? (· == chrSlash) = none := by
    rw [List.findIdx?_eq_none_iff]
    intro c member
    simp only [beq_eq_false_iff_ne, ne_eq]
    rintro rfl
    exact clear member
  simp [findNextSlash, List.findIdx?_append, miss, List.findIdx?_cons, Nat.add_comm]

theorem findNextSlash_eq_none (front : Bytes) {back : Bytes} (clear : chrSlash ∉ back) :
    findNextSlash (front ++ back) front.length = none := by
  simp only [findNextSlash, List.drop_left, Option.map_eq_none_iff, List.findIdx?_eq_none_iff]
  intro c member
  simp only [beq_eq_false_iff_ne, ne_eq]
  rintro rfl
  exact clear member

variable {i : Nat}

/-- A part that is neither `.` nor `..` is passed over. -/
theorem canonicalizeStep_advance (present : byteAt path i ≠ 0)
    (plain : byteAt path i = chrDot → byteAt path (i + 1) ≠ 0 ∧ byteAt path (i + 1) ≠ chrSlash ∧
      ¬ (byteAt path (i + 1) = chrDot ∧ (byteAt path (i + 2) = chrSlash ∨ byteAt path (i + 2) = 0))):
    canonicalizeStep path i = canonicalizeAdvance path i := by
  rw [canonicalizeStep, if_neg present]
  split
  · rename_i dot
    obtain ⟨second, slash, dots⟩ := plain dot
    rw [if_neg second, if_neg slash, if_neg dots]
  · rfl

/-- The bytes of a part that is neither `.` nor `..`, with what follows it. -/
theorem byteAt_part {part tail : Bytes} (proper : ∀ c ∈ part, c ≠ 0 ∧ c ≠ chrSlash) (dot : part ≠ [chrDot])
    (dots : part ≠ [chrDot, chrDot]) (here : byteAt (part ++ tail) 0 = chrDot) (stop : byteAt tail 0 ≠ chrDot) :
    byteAt (part ++ tail) 1 ≠ 0 ∧ byteAt (part ++ tail) 1 ≠ chrSlash ∧
      ¬ (byteAt (part ++ tail) 1 = chrDot ∧
        (byteAt (part ++ tail) 2 = chrSlash ∨ byteAt (part ++ tail) 2 = 0)) := by
  match part with
  | [] => exact absurd here stop
  | [c] =>
    have : c = chrDot := here
    subst this
    exact absurd rfl dot
  | [c, d] =>
    have : c = chrDot := here
    subst this
    have second := proper d (by simp)
    refine ⟨second.1, second.2, ?_⟩
    rintro ⟨same, -⟩
    have : d = chrDot := same
    subst this
    exact dots rfl
  | c :: d :: e :: more =>
    have second := proper d (by simp)
    have third := proper e (by simp)
    refine ⟨second.1, second.2, ?_⟩
    rintro ⟨-, slash | zero⟩
    · exact third.2 slash
    · exact third.1 zero

theorem canonicalizeStep_plain {front part tail : Bytes} (proper : ∀ c ∈ part, c ≠ 0 ∧ c ≠ chrSlash)
    (dot : part ≠ [chrDot]) (dots : part ≠ [chrDot, chrDot]) (present : byteAt (part ++ tail) 0 ≠ 0)
    (stop : byteAt tail 0 ≠ chrDot) :
    canonicalizeStep (front ++ (part ++ tail)) front.length =
      canonicalizeAdvance (front ++ (part ++ tail)) front.length := by
  have first := byteAt_append front (part ++ tail) 0
  rw [Nat.add_zero] at first
  refine canonicalizeStep_advance (by rwa [first]) fun here => ?_
  rw [byteAt_append, byteAt_append]
  exact byteAt_part proper dot dots (by rwa [first] at here) stop

theorem collapseSlashRuns_append (front tail : Bytes) :
    collapseSlashRuns (front ++ tail) front.length =
      front ++ tail.dropWhile (· == chrSlash) := by
  simp [collapseSlashRuns]

/-- A part in front of a slash is passed over, and so are the slashes behind it. The first
part may be `..`. -/
theorem canonicalizeStep_part {front part tail : Bytes} (proper : ∀ c ∈ part, c ≠ 0 ∧ c ≠ chrSlash)
    (dot : part ≠ [chrDot]) (dots : part = [chrDot, chrDot] → front = []) :
    canonicalizeStep (front ++ (part ++ chrSlash :: tail)) front.length =
      .next (front ++ (part ++ chrSlash :: tail.dropWhile (· == chrSlash)))
        (front ++ (part ++ [chrSlash])).length := by
  have collapsed := collapseSlashRuns_append (front ++ (part ++ [chrSlash])) tail
  simp only [List.append_assoc, List.singleton_append] at collapsed
  by_cases parent : part = [chrDot, chrDot]
  · rw [dots parent, parent] at collapsed ⊢
    simp only [List.nil_append, List.cons_append, List.length_cons, List.length_nil] at collapsed ⊢
    rw [← collapsed]
    rfl
  · have clear : chrSlash ∉ part := fun member => (proper _ member).2 rfl
    have present : byteAt (part ++ chrSlash :: tail) 0 ≠ 0 := by
      cases part with
      | nil => exact of_decide_eq_true rfl
      | cons c more => exact (proper c (by simp)).1
    have stop : byteAt (chrSlash :: tail) 0 ≠ chrDot := of_decide_eq_true rfl
    rw [canonicalizeStep_plain proper dot parent present stop, canonicalizeAdvance,
      findNextSlash_append front part tail clear]
    simp only [CanonicalizeStep.next.injEq]
    rw [← collapsed]
    constructor
    · congr 1
      simp [Nat.add_assoc]
    · simp [Nat.add_assoc]

theorem canonicalizeStep_last {front part : Bytes} (proper : ∀ c ∈ part, c ≠ 0 ∧ c ≠ chrSlash)
    (dot : part ≠ [chrDot]) (dots : part ≠ [chrDot, chrDot]) :
    canonicalizeStep (front ++ part) front.length = .done (front ++ part) := by
  cases part with
  | nil =>
    have absent : byteAt (front ++ []) front.length = 0 := byteAt_append front [] 0
    rw [canonicalizeStep, if_pos absent]
  | cons c more =>
    have clear : chrSlash ∉ c :: more := fun member => (proper _ member).2 rfl
    have present : byteAt ((c :: more) ++ []) 0 ≠ 0 := (proper c (by simp)).1
    have plain := @canonicalizeStep_plain front _ [] proper dot dots present
      (of_decide_eq_true rfl)
    rw [List.append_nil] at plain
    rw [plain, canonicalizeAdvance, findNextSlash_eq_none front clear]

theorem canonicalizeLoop_changed {fuel : Nat} (shorter : (canonicalizeStep path i).path.length < path.length) :
    canonicalizeLoop (fuel + 1) path i ≠ path := by
  intro same
  have bound : (canonicalizeLoop (fuel + 1) path i).length ≤
      (canonicalizeStep path i).path.length := by
    unfold canonicalizeLoop
    cases canonicalizeStep path i with
    | done rest => exact Nat.le_refl _
    | next rest j => exact (canonicalizeLoop_sublist fuel rest j).length_le
  rw [same] at bound
  omega

/-- A round that does not move forward has taken something out. -/
theorem canonicalizeStep_back {path rest : Bytes} {i j : Nat} (next : canonicalizeStep path i = .next rest j)
    (back : j ≤ i) :
    (canonicalizeStep path i).path.length < path.length := by
  have progress := canonicalizeStep_progress next
  have inside := progress.inside
  have decreasing := progress.decreasing
  rw [next]
  simp only [CanonicalizeStep.path]
  omega

/-- What may stand behind `.` or `..` so that it is a whole part. -/
def EndsPart (tail : Bytes) : Prop := tail = [] ∨ ∃ rest, tail = chrSlash :: rest

variable {tail : Bytes}

theorem canonicalizeStep_dot (front : Bytes) (whole : EndsPart tail) :
    (canonicalizeStep (front ++ chrDot :: tail) front.length).path.length <
      (front ++ chrDot :: tail).length := by
  have first : byteAt (front ++ chrDot :: tail) front.length = chrDot :=
    byteAt_append front (chrDot :: tail) 0
  have second : byteAt (front ++ chrDot :: tail) (front.length + 1) = byteAt tail 0 :=
    byteAt_append front (chrDot :: tail) 1
  rcases whole with rfl | ⟨rest, rfl⟩
  · rw [show byteAt [] 0 = 0 from rfl] at second
    rw [canonicalizeStep, first, second, if_neg (by decide), if_pos rfl, if_pos rfl]
    split
    · simp only [CanonicalizeStep.path, List.length_take, List.length_append, List.length_singleton]
      omega
    · simp [CanonicalizeStep.path]
  · rw [show byteAt (chrSlash :: rest) 0 = chrSlash from rfl] at second
    have step : ∃ left, canonicalizeStep (front ++ chrDot :: chrSlash :: rest) front.length =
        .next left front.length := by
      rw [canonicalizeStep, first, second, if_neg (by decide), if_pos rfl, if_neg (by decide),
        if_pos rfl]
      exact ⟨_, rfl⟩
    obtain ⟨left, step⟩ := step
    exact canonicalizeStep_back step (Nat.le_refl _)

theorem canonicalizeStep_dots {front tail : Bytes} (inner : front ≠ []) (whole : EndsPart tail) :
    (canonicalizeStep (front ++ chrDot :: chrDot :: tail) front.length).path.length <
      (front ++ chrDot :: chrDot :: tail).length := by
  have positive : front.length ≠ 0 := by simpa using inner
  have first : byteAt (front ++ chrDot :: chrDot :: tail) front.length = chrDot :=
    byteAt_append front (chrDot :: chrDot :: tail) 0
  have second : byteAt (front ++ chrDot :: chrDot :: tail) (front.length + 1) = chrDot :=
    byteAt_append front (chrDot :: chrDot :: tail) 1
  have third : byteAt (front ++ chrDot :: chrDot :: tail) (front.length + 2) = byteAt tail 0 :=
    byteAt_append front (chrDot :: chrDot :: tail) 2
  have ended : byteAt tail 0 = chrSlash ∨ byteAt tail 0 = 0 := by
    rcases whole with rfl | ⟨rest, rfl⟩
    · exact Or.inr rfl
    · exact Or.inl rfl
  have step : ∃ left, canonicalizeStep (front ++ chrDot :: chrDot :: tail) front.length =
      .next left (parentMarker (front ++ chrDot :: chrDot :: tail) front.length) := by
    rw [canonicalizeStep, first, second, if_neg (by decide), if_pos rfl, if_neg (by decide),
      if_neg (by decide), third, if_pos ⟨rfl, ended⟩, if_pos positive]
    exact ⟨_, rfl⟩
  obtain ⟨left, step⟩ := step
  exact canonicalizeStep_back step (Nat.le_of_lt (parentMarker_lt _ positive))

/-- A part in front of a slash, once it is clear what happens behind the slash. -/
theorem canonicalizeLoop_part {fuel : Nat} {front part tail : Bytes}
    (proper : ∀ c ∈ part, c ≠ 0 ∧ c ≠ chrSlash) (dot : part ≠ [chrDot])
    (dots : part = [chrDot, chrDot] → front = [])
    (behind : tail.head? ≠ some chrSlash →
    (canonicalizeLoop fuel (front ++ (part ++ [chrSlash]) ++ tail)
    (front ++ (part ++ [chrSlash])).length = front ++ (part ++ [chrSlash]) ++ tail ↔
        SettledRest tail)):
    canonicalizeLoop (fuel + 1) (front ++ (part ++ chrSlash :: tail)) front.length =
        front ++ (part ++ chrSlash :: tail) ↔ SettledRest tail := by
  have step := @canonicalizeStep_part front _ tail proper dot dots
  by_cases run : tail.head? = some chrSlash
  · obtain ⟨rest, rfl⟩ : ∃ rest, tail = chrSlash :: rest := by
      cases tail with
      | nil => simp at run
      | cons c rest => exact ⟨rest, by simpa using run⟩
    have unsettled : ¬ SettledRest (chrSlash :: rest) := fun settled =>
      ((@settledRest_cons [] (by simp) rest).mp settled).1 rfl
    have shorter : (canonicalizeStep (front ++ (part ++ chrSlash :: chrSlash :: rest))
        front.length).path.length < (front ++ (part ++ chrSlash :: chrSlash :: rest)).length := by
      have := (List.dropWhile_suffix (· == chrSlash) (l := rest)).length_le
      rw [step]
      simp only [CanonicalizeStep.path, List.dropWhile_cons, beq_self_eq_true, if_true,
        List.length_append, List.length_cons]
      omega
    exact ⟨fun same => absurd same (canonicalizeLoop_changed shorter),
      fun settled => absurd settled unsettled⟩
  · have kept : tail.dropWhile (· == chrSlash) = tail := by
      cases tail with
      | nil => rfl
      | cons c rest =>
        have other : (c == chrSlash) = false := by simpa using run
        simp [other]
    rw [kept] at step
    have same := behind run
    simp only [List.append_assoc, List.singleton_append] at same
    rw [canonicalizeLoop, step]
    simpa only [List.append_assoc, List.singleton_append] using same

/-- The loop from behind a slash on. The induction is on the text that is left. -/
theorem canonicalizeLoop_eq_self (size : Nat) : ∀ (fuel : Nat) (front suffix : Bytes),
    suffix.length ≤ size → suffix.length < fuel → front ≠ [] → (0 : UInt8) ∉ suffix →
    suffix.head? ≠ some chrSlash →
      (canonicalizeLoop fuel (front ++ suffix) front.length = front ++ suffix ↔
        SettledRest suffix) := by
  induction size with
  | zero =>
    intro fuel front suffix small enough inner proper start
    obtain ⟨fuel, rfl⟩ : ∃ n, fuel = n + 1 := ⟨fuel - 1, by omega⟩
    have empty : suffix = [] := List.length_eq_zero_iff.mp (by omega)
    subst empty
    rw [canonicalizeLoop, canonicalizeStep_last (by simp) (by simp) (by simp),
      settledRest_of_no_slash (by simp)]
    simp
  | succ size ih =>
    intro fuel front suffix small enough inner proper start
    obtain ⟨fuel, rfl⟩ : ∃ n, fuel = n + 1 := ⟨fuel - 1, by omega⟩
    rcases path_cases suffix with clear | ⟨part, tail, rfl, clear⟩
    · have clean : ∀ c ∈ suffix, c ≠ 0 ∧ c ≠ chrSlash := fun c member =>
        ⟨fun same => proper (same ▸ member), fun same => clear (same ▸ member)⟩
      rw [settledRest_of_no_slash clear]
      by_cases dot : suffix = [chrDot]
      · subst dot
        simpa using canonicalizeLoop_changed (canonicalizeStep_dot front (Or.inl rfl))
      by_cases dots : suffix = [chrDot, chrDot]
      · subst dots
        simpa using canonicalizeLoop_changed (canonicalizeStep_dots inner (Or.inl rfl))
      · rw [canonicalizeLoop, canonicalizeStep_last clean dot dots]
        simp [dot, dots]
    · have clean : ∀ c ∈ part, c ≠ 0 ∧ c ≠ chrSlash := fun c member =>
        ⟨fun same => proper (by simp [← same, member]), fun same => clear (same ▸ member)⟩
      have nonempty : part ≠ [] := by
        rintro rfl
        simp at start
      rw [settledRest_cons clear]
      by_cases dot : part = [chrDot]
      · subst dot
        simpa using canonicalizeLoop_changed (canonicalizeStep_dot front (Or.inr ⟨tail, rfl⟩))
      by_cases dots : part = [chrDot, chrDot]
      · subst dots
        simpa using
          canonicalizeLoop_changed (canonicalizeStep_dots inner (Or.inr ⟨tail, rfl⟩))
      simp only [nonempty, dot, dots, ne_eq, not_false_eq_true, true_and]
      refine canonicalizeLoop_part clean dot (fun same => absurd same dots) fun begins => ?_
      simp only [List.length_append, List.length_cons] at small enough
      exact ih fuel (front ++ (part ++ [chrSlash])) tail (by omega) (by omega) (by simp)
        (fun member => proper (by simp [member])) begins

/-- `_gnome_vfs_canonicalize_pathname` leaves exactly the settled paths alone. -/
theorem canonicalizePathname_eq_self (proper : (0 : UInt8) ∉ path) :
    canonicalizePathname path = path ↔ Settled path := by
  rw [canonicalizePathname]
  rcases path_cases path with clear | ⟨part, tail, rfl, clear⟩
  · have clean : ∀ c ∈ path, c ≠ 0 ∧ c ≠ chrSlash := fun c member =>
      ⟨fun same => proper (same ▸ member), fun same => clear (same ▸ member)⟩
    have shape : Settled path ↔ path ≠ [chrDot] := by
      simp [Settled, segments_of_no_slash clear, eq_comm]
    rw [shape]
    by_cases dot : path = [chrDot]
    · subst dot
      simpa using canonicalizeLoop_changed (canonicalizeStep_dot [] (Or.inl rfl))
    by_cases dots : path = [chrDot, chrDot]
    · subst dots
      decide
    · have last := @canonicalizeStep_last [] _ clean dot dots
      simp only [List.nil_append, List.length_nil] at last
      rw [canonicalizeLoop, last]
      simp [dot]
  · have clean : ∀ c ∈ part, c ≠ 0 ∧ c ≠ chrSlash := fun c member =>
      ⟨fun same => proper (by simp [← same, member]), fun same => clear (same ▸ member)⟩
    rw [settled_cons clear]
    by_cases dot : part = [chrDot]
    · subst dot
      simpa using canonicalizeLoop_changed (canonicalizeStep_dot [] (Or.inr ⟨tail, rfl⟩))
    · simp only [dot, ne_eq, not_false_eq_true, true_and]
      refine @canonicalizeLoop_part _ [] _ _ clean dot (fun _ => rfl) fun begins => ?_
      refine canonicalizeLoop_eq_self tail.length _ ([] ++ (part ++ [chrSlash])) tail
        (Nat.le_refl _) ?_ (by simp) (fun member => proper (by simp [member])) begins
      simp only [List.length_append, List.length_cons]
      omega

example : Settled (ascii "../a/b/") ∧ ¬ Settled (ascii "/a//b") ∧ ¬ Settled (ascii "/..") := by
  decide

end GnomeVfs
