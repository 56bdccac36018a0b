import GnomeVfs.UriRelative

/- Which references leave the authority of the base alone. -/
namespace GnomeVfs

/-- The authority is the first thing in the text, up to its end, a slash or a `#`. -/
def AuthorityFirst (authority text : Bytes) : Prop :=
  ∃ rest, text = authority ++ rest ∧
    (rest = [] ∨ rest.head? = some chrSlash ∨ rest.head? = some chrHash)

/-- A base with an authority and a path, and neither a query nor a fragment. -/
structure AuthorityBase (scheme authority path : Bytes) : Prop where
  scheme : ∀ c ∈ scheme, isAlnum c = true
  nonempty : authority ≠ []
  authority : ∀ c ∈ authority, c ∉ [chrSlash, 63, chrHash]
  path : ∀ c ∈ path, c ∉ [63, chrHash]

/-- `scheme "://" authority "/" path`. -/
def authorityBase (scheme authority path : Bytes) : Bytes :=
  scheme ++ (chrColon :: chrSlash :: chrSlash :: (authority ++ chrSlash :: path))

/-- The leading `../` of a reference, and what follows them. -/
def leadingParents : Bytes → Nat × Bytes
  | a :: b :: c :: rest =>
    if [a, b, c] = ascii "../" then ((leadingParents rest).1 + 1, (leadingParents rest).2)
    else (0, a :: b :: c :: rest)
  | uri => (0, uri)

/-- How many steps up a reference asks for, and the rest of it. -/
def climbs (uri : Bytes) : Nat × Bytes :=
  if (leadingParents uri).2 = ascii ".." then ((leadingParents uri).1 + 1, [])
  else leadingParents uri

/-- Cut at the last slash, as often as asked and as long as there is one. -/
def cutSlashes : Nat → Bytes → Bytes
  | 0, base => base
  | n + 1, base => cutSlashes n ((cutLast base chrSlash).getD base)

theorem slash_cases (base : Bytes) :
    chrSlash ∉ base ∨ ∃ front back, base = front ++ chrSlash :: back ∧ chrSlash ∉ back := by
  by_cases slash : chrSlash ∈ base
  · have reversed : chrSlash ∈ base.reverse := by simpa using slash
    obtain ⟨back, front, split, clear⟩ := List.eq_append_cons_of_mem reversed
    refine Or.inr ⟨front.reverse, back.reverse, ?_, by simpa using clear⟩
    have := congrArg List.reverse split
    simpa using this
  · exact Or.inl slash

theorem cutSlashes_of_no_slash {base : Bytes} (clear : chrSlash ∉ base) (n : Nat) :
    cutSlashes n base = base := by
  induction n with
  | zero => rfl
  | succ n ih => rw [cutSlashes, cutLast_eq_none clear, Option.getD_none, ih]

theorem cutSlashes_add (m n : Nat) (base : Bytes) :
    cutSlashes (m + n) base = cutSlashes n (cutSlashes m base) := by
  induction m generalizing base with
  | zero => simp [cutSlashes]
  | succ m ih => rw [Nat.add_right_comm, cutSlashes, ih, cutSlashes]

theorem cutSlashes_succ (n : Nat) (base : Bytes) :
    cutSlashes (n + 1) base = (cutLast (cutSlashes n base) chrSlash).getD (cutSlashes n base) :=
  cutSlashes_add n 1 base

/-- The text behind the authority: it is empty or starts with a slash. -/
def Rooted (tail : Bytes) : Prop := tail = [] ∨ tail.head? = some chrSlash

theorem cutSlashes_rooted (front : Bytes) (n : Nat) : ∀ tail, Rooted tail → n ≤ tail.count chrSlash →
    ∃ rest, cutSlashes n (front ++ tail) = front ++ rest ∧ Rooted rest ∧
      rest.count chrSlash + n = tail.count chrSlash := by
  induction n with
  | zero => exact fun tail rooted _ => ⟨tail, rfl, rooted, rfl⟩
  | succ n ih =>
    intro tail rooted enough
    rcases slash_cases tail with clear | ⟨before, back, rfl, clear⟩
    · rw [List.count_eq_zero.mpr clear] at enough
      omega
    · have counted : (before ++ chrSlash :: back).count chrSlash = before.count chrSlash + 1 := by
        rw [List.count_append, List.count_cons_self, List.count_eq_zero.mpr clear]
      have shorter : Rooted before := by
        rcases rooted with empty | head
        · simp at empty
        · cases before with
          | nil => exact Or.inl rfl
          | cons c more => exact Or.inr (by simpa using head)
      obtain ⟨rest, cut, rootedRest, count⟩ := ih before shorter (by omega)
      refine ⟨rest, ?_, rootedRest, by omega⟩
      rw [cutSlashes, ← List.append_assoc, cutLast_append (front ++ before) clear,
        Option.getD_some, cut]

theorem chopParents_spec (uri : Bytes) : ∀ base,
    ((leadingParents uri).1 ≤ base.count chrSlash + 1 →
      chopParents base uri = (cutSlashes (leadingParents uri).1 base, (leadingParents uri).2)) ∧
    (base.count chrSlash + 2 ≤ (leadingParents uri).1 →
      ∃ more, chopParents base uri =
        (cutSlashes (base.count chrSlash) base, ascii "../" ++ more)) := by
  fun_induction leadingParents uri with
  | case1 a b c rest parent ih =>
    intro base
    rw [chopParents, if_pos parent]
    rcases slash_cases base with clear | ⟨front, back, rfl, clear⟩
    · have zero : base.count chrSlash = 0 := List.count_eq_zero.mpr clear
      rw [cutLast_eq_none clear]
      refine ⟨fun few => ?_, fun many => ?_⟩
      · have none_left : (leadingParents rest).1 = 0 := by omega
        have whole : (leadingParents rest).2 = rest := by
          unfold leadingParents at none_left ⊢
          split
          · split
            · simp_all
            · rfl
          · rfl
        simp [cutSlashes_of_no_slash clear, whole]
      · rw [zero, cutSlashes]
        unfold leadingParents at many
        split at many
        · split at many
          · rename_i more same
            refine ⟨more, ?_⟩
            simp [← same]
          · simp only at many
            omega
        · simp only at many
          omega
    · have counted : (front ++ chrSlash :: back).count chrSlash = front.count chrSlash + 1 := by
        rw [List.count_append, List.count_cons_self, List.count_eq_zero.mpr clear]
      obtain ⟨few, many⟩ := ih front
      simp only [cutLast_append front clear]
      refine ⟨fun bound => ?_, fun bound => ?_⟩
      · rw [few (by omega), cutSlashes, cutLast_append front clear, Option.getD_some]
      · obtain ⟨more, stopped⟩ := many (by omega)
        refine ⟨more, ?_⟩
        rw [stopped, counted, cutSlashes, cutLast_append front clear, Option.getD_some]
  | case2 a b c rest other =>
    intro base
    rw [chopParents, if_neg other]
    exact ⟨fun _ => rfl, fun many => by simp at many⟩
  | case3 uri short =>
    intro base
    refine ⟨fun _ => ?_, fun many => by simp at many⟩
    rw [chopParents]
    · rfl
    · exact short

/-- All steps up together. Past the last slash the rest of the reference is left unread. -/
theorem climb_spec (base uri : Bytes) :
    let climbed := chopParents base uri
    ((climbs uri).1 ≤ base.count chrSlash + 1 →
      chopLastParent climbed.1 climbed.2 = (cutSlashes (climbs uri).1 base, (climbs uri).2)) ∧
    (base.count chrSlash + 2 ≤ (climbs uri).1 →
      ∃ n rest, chopLastParent climbed.1 climbed.2 = (cutSlashes (base.count chrSlash + n) base, rest) ∧
        rest.head? ≠ some chrSlash) := by
  intro climbed
  obtain ⟨few, many⟩ := chopParents_spec uri base
  have unslashed : ∀ more, (ascii "../" ++ more).head? ≠ some chrSlash := fun more =>
    (by decide : some chrDot ≠ some chrSlash)
  by_cases last : (leadingParents uri).2 = ascii ".."
  · have count : climbs uri = ((leadingParents uri).1 + 1, []) := if_pos last
    rw [count]
    refine ⟨fun bound => ?_, fun bound => ?_⟩
    · simp only [climbed, few (by simp only at bound; omega), last, chopLastParent, if_true]
      rw [← cutSlashes_succ]
    · by_cases exact_count : (leadingParents uri).1 ≤ base.count chrSlash + 1
      · refine ⟨2, [], ?_, by simp⟩
        have same : (leadingParents uri).1 = base.count chrSlash + 1 := by
          simp only at bound
          omega
        simp only [climbed, few exact_count, last, chopLastParent, if_true]
        rw [same, ← cutSlashes_succ]
      · obtain ⟨more, stopped⟩ := many (by omega)
        exact ⟨0, ascii "../" ++ more, by simp [climbed, stopped, chopLastParent, ascii], unslashed more⟩
  · have count : climbs uri = leadingParents uri := if_neg last
    rw [count]
    refine ⟨fun bound => ?_, fun bound => ?_⟩
    · simp only [climbed, few bound, chopLastParent, if_neg last]
    · obtain ⟨more, stopped⟩ := many bound
      exact ⟨0, ascii "../" ++ more, by simp [climbed, stopped, chopLastParent, ascii], unslashed more⟩

section Base

/-- `scheme "://" authority`. -/
def authorityFront (scheme authority : Bytes) : Bytes :=
  scheme ++ chrColon :: chrSlash :: chrSlash :: authority

theorem authorityBase_eq (scheme authority path : Bytes) :
    authorityBase scheme authority path = authorityFront scheme authority ++ chrSlash :: path := by
  simp [authorityBase, authorityFront]

/-- The result still names the authority of the base. -/
def KeepsAuthority (scheme authority result : Bytes) : Prop :=
  ∃ text, result = scheme ++ chrColon :: chrSlash :: chrSlash :: text ∧ AuthorityFirst authority text

variable {scheme authority path : Bytes} (base : AuthorityBase scheme authority path)
include base

theorem AuthorityBase.scheme_not_mem {c : UInt8} (other : isAlnum c = false) : c ∉ scheme := by
  intro member
  simp [base.scheme c member] at other

theorem AuthorityBase.authority_slash : chrSlash ∉ authority := fun member =>
  base.authority _ member (by simp)

theorem AuthorityBase.not_mem {c : UInt8} (special : c = chrHash ∨ c = 63) :
    c ∉ authorityBase scheme authority path := by
  have scheme_clear : c ∉ scheme := base.scheme_not_mem (by rcases special with rfl | rfl <;> decide)
  have authority_clear : c ∉ authority := fun member =>
    base.authority c member (by rcases special with rfl | rfl <;> simp)
  have path_clear : c ∉ path := fun member =>
    base.path c member (by rcases special with rfl | rfl <;> simp)
  rcases special with rfl | rfl <;> simp_all [authorityBase]

theorem AuthorityBase.chopQuery :
    chopQuery (authorityBase scheme authority path) = authorityBase scheme authority path := by
  simp only [GnomeVfs.chopQuery, cutLast_eq_none (base.not_mem (Or.inl rfl)), Option.getD_none,
    cutLast_eq_none (base.not_mem (Or.inr rfl))]

theorem AuthorityBase.chopPath :
    chopPath (authorityBase scheme authority path) = authorityFront scheme authority := by
  have apart : ∀ {c : UInt8} {s : Bytes}, c ∉ s → ∀ x ∈ s, (x == c) = false := by
    intro c s absent x member
    simp only [beq_eq_false_iff_ne, ne_eq]
    rintro rfl
    exact absent member
  have colon : strchr (authorityBase scheme authority path) chrColon =
      some (chrColon :: chrSlash :: chrSlash :: (authority ++ chrSlash :: path)) := by
    rw [strchr, authorityBase, scanTo_append_of_clear _ (apart (base.scheme_not_mem (by decide))),
      scanTo_cons_of_pos _ (by simp)]
  have slash : strchr (authority ++ chrSlash :: path) chrSlash = some (chrSlash :: path) := by
    rw [strchr, scanTo_append_of_clear _ (apart base.authority_slash), scanTo_cons_of_pos _ (by simp)]
  have whole := strdupTo_append (authorityFront scheme authority) (chrSlash :: path)
  rw [← authorityBase_eq] at whole
  simp only [GnomeVfs.chopPath, colon, List.tail_cons, List.drop_succ_cons, List.drop_zero, slash, whole]
  exact if_pos rfl

omit base in
theorem chopFileName_rooted (scheme authority path : Bytes) :
    ∃ tail, chopFileName (authorityBase scheme authority path) =
      authorityFront scheme authority ++ tail ∧ Rooted tail := by
  rw [authorityBase_eq, chopFileName]
  split
  · refine ⟨(chrSlash :: path).dropLast, List.dropLast_append_of_ne_nil (by simp), ?_⟩
    cases path with
    | nil => exact Or.inl rfl
    | cons c more => exact Or.inr rfl
  · rcases slash_cases (chrSlash :: path) with clear | ⟨before, back, split, clear⟩
    · exact absurd (by simp) clear
    · have rooted : Rooted before := by
        cases before with
        | nil => exact Or.inl rfl
        | cons c more =>
          simp only [List.cons_append, List.cons.injEq] at split
          exact Or.inr (by simp [split.1])
      have cut : cutLast (authorityFront scheme authority ++ chrSlash :: path) chrSlash =
          some (authorityFront scheme authority ++ before) := by
        rw [split, ← List.append_assoc, cutLast_append _ clear]
      simp only [cut]
      split
      · exact ⟨before, rfl, rooted⟩
      split
      · refine ⟨(chrSlash :: path).take (before.length + 1), ?_, Or.inr (by simp)⟩
        rw [List.length_append, Nat.add_assoc, List.take_length_add_append]
      · exact ⟨chrSlash :: path, rfl, Or.inr rfl⟩

theorem cutSlashes_base {tail : Bytes} (rooted : Rooted tail) (n : Nat) :
    (n ≤ tail.count chrSlash → ∃ rest,
      cutSlashes n (authorityFront scheme authority ++ tail) =
        authorityFront scheme authority ++ rest ∧ Rooted rest) ∧
    (n = tail.count chrSlash + 1 →
      cutSlashes n (authorityFront scheme authority ++ tail) = scheme ++ [chrColon, chrSlash]) ∧
    (tail.count chrSlash + 2 ≤ n →
      cutSlashes n (authorityFront scheme authority ++ tail) = scheme ++ [chrColon]) := by
  have top : cutSlashes (tail.count chrSlash) (authorityFront scheme authority ++ tail) =
      authorityFront scheme authority := by
    obtain ⟨rest, cut, rootedRest, count⟩ :=
      cutSlashes_rooted (authorityFront scheme authority) _ tail rooted (Nat.le_refl _)
    have clear : chrSlash ∉ rest := List.count_eq_zero.mp (by omega)
    rcases rootedRest with rfl | head
    · simpa using cut
    · exact absurd (List.mem_of_head? head) clear
  have first : cutLast (authorityFront scheme authority) chrSlash =
      some (scheme ++ [chrColon, chrSlash]) := by
    have := cutLast_append (scheme ++ [chrColon, chrSlash]) base.authority_slash
    simpa [authorityFront] using this
  have second : cutLast (scheme ++ [chrColon, chrSlash]) chrSlash = some (scheme ++ [chrColon]) := by
    have := @cutLast_append chrSlash (scheme ++ [chrColon]) [] (by simp)
    simpa using this
  have clear : chrSlash ∉ scheme ++ [chrColon] := by
    have := base.scheme_not_mem (c := chrSlash) (by decide)
    simp_all
  refine ⟨fun few => ?_, ?_, fun many => ?_⟩
  · obtain ⟨rest, cut, rootedRest, -⟩ :=
      cutSlashes_rooted (authorityFront scheme authority) n tail rooted few
    exact ⟨rest, cut, rootedRest⟩
  · rintro rfl
    rw [cutSlashes_succ, top, first, Option.getD_some]
  · obtain ⟨more, rfl⟩ : ∃ more, n = tail.count chrSlash + 1 + 1 + more :=
      ⟨n - (tail.count chrSlash + 2), by omega⟩
    rw [cutSlashes_add, cutSlashes_succ, cutSlashes_succ, top, first, Option.getD_some, second,
      Option.getD_some, cutSlashes_of_no_slash clear]

theorem count_front : (authorityFront scheme authority).count chrSlash = 2 := by
  have scheme_clear := List.count_eq_zero.mpr (base.scheme_not_mem (c := chrSlash) (by decide))
  have authority_clear := List.count_eq_zero.mpr base.authority_slash
  simp only [chrSlash] at scheme_clear authority_clear
  simp [authorityFront, scheme_clear, authority_clear]

end Base

theorem keepsAuthority_scheme (scheme authority rest : Bytes) :
    KeepsAuthority scheme authority (scheme ++ [chrColon] ++ chrSlash :: rest) ↔
      ∃ more, rest = chrSlash :: more ∧ AuthorityFirst authority more := by
  simp only [KeepsAuthority, List.append_assoc, List.append_cancel_left_eq, List.singleton_append,
    List.cons.injEq, true_and]

theorem keepsAuthority_slash (scheme authority rest : Bytes) :
    KeepsAuthority scheme authority (scheme ++ [chrColon, chrSlash] ++ chrSlash :: rest) ↔
      AuthorityFirst authority rest := by
  simp only [KeepsAuthority, List.append_assoc, List.append_cancel_left_eq, List.cons_append,
    List.nil_append, List.cons.injEq, true_and, exists_eq_left']

theorem keepsAuthority_front (scheme authority : Bytes) {tail : Bytes} (start : tail.head? = some chrSlash) :
    KeepsAuthority scheme authority (authorityFront scheme authority ++ tail) :=
  ⟨authority ++ tail, by simp [authorityFront], tail, rfl, Or.inr (Or.inl start)⟩

/-- A relative reference keeps the authority of the base exactly when it is absolute or only a
fragment, when it does not climb out of the path, or when the text behind its last `../`
happens to name the authority again. -/
theorem uriMakeFullFromRelative_keeps_iff (scheme authority path relative : Bytes)
    (base : AuthorityBase scheme authority path) (noScheme : isUriRelative relative = true)
    (noAuthority : relative.take 2 ≠ ascii "//") :
    let climb := climbs (removeInternalRelativeComponents relative)
    let slashes := (chopFileName (authorityBase scheme authority path)).count chrSlash
    (∃ result, uriMakeFullFromRelative (some (authorityBase scheme authority path)) (some relative) =
        some result ∧ KeepsAuthority scheme authority result) ↔
      relative.head? = some chrSlash ∨ relative.head? = some chrHash ∨ climb.1 + 2 ≤ slashes ∨
        (climb.1 + 1 = slashes ∧ AuthorityFirst authority climb.2) ∨
        (slashes ≤ climb.1 ∧ climb.1 ≤ slashes + 1 ∧
          ∃ rest, climb.2 = chrSlash :: rest ∧ AuthorityFirst authority rest) := by
  intro climb slashes
  simp only [uriMakeFullFromRelative, noScheme, if_true, Option.some.injEq, exists_eq_left',
    makeFullUriFromRelative, base.chopQuery, if_neg noAuthority]
  by_cases absolute : relative.head? = some chrSlash
  · simp only [absolute, if_true, base.chopPath, true_or, iff_true]
    exact keepsAuthority_front scheme authority absolute
  by_cases fragment : relative.head? = some chrHash
  · simp only [if_false, fragment, ne_eq, not_true_eq_false, true_or, or_true, iff_true]
    rw [authorityBase_eq, List.append_assoc]
    exact keepsAuthority_front scheme authority rfl
  simp only [absolute, fragment, if_false, ne_eq, not_false_eq_true, if_true, false_or]
  obtain ⟨tail, chopped, rooted⟩ := chopFileName_rooted scheme authority path
  have count : slashes = tail.count chrSlash + 2 := by
    simp only [slashes, chopped, List.count_append, count_front base]
    omega
  obtain ⟨near, far⟩ := climb_spec (chopFileName (authorityBase scheme authority path))
    (removeInternalRelativeComponents relative)
  have cuts := cutSlashes_base base rooted climb.1
  by_cases bound : climb.1 ≤ slashes + 1
  · rw [near bound, chopped]
    rcases Nat.lt_trichotomy (climb.1 + 1) slashes with inside | level | outside
    · obtain ⟨rest, cut, rootedRest⟩ := cuts.1 (by omega)
      rw [cut, List.append_assoc]
      have keeps := @keepsAuthority_front scheme authority (rest ++ chrSlash :: climb.2) (by
        rcases rootedRest with rfl | head
        · rfl
        · cases rest <;> simp_all)
      exact ⟨fun _ => Or.inl (by omega), fun _ => keeps⟩
    · rw [cuts.2.1 (by omega), keepsAuthority_slash]
      have notInside : ¬ climb.1 + 2 ≤ slashes := by omega
      have notOutside : ¬ slashes ≤ climb.1 := by omega
      simp [level, notInside, notOutside, climb]
    · rw [cuts.2.2 (by omega), keepsAuthority_scheme]
      have notInside : ¬ climb.1 + 2 ≤ slashes := by omega
      have notLevel : ¬ climb.1 + 1 = slashes := by omega
      have beyond : slashes ≤ climb.1 := by omega
      simp [notInside, notLevel, beyond, bound, climb]
  · obtain ⟨n, rest, stopped, start⟩ := far (by simp only [climb, slashes] at bound; omega)
    rw [stopped]
    have cut := (cutSlashes_base base rooted (slashes + n)).2.2 (by omega)
    simp only [slashes, chopped] at cut
    simp only [chopped, cut, keepsAuthority_scheme]
    constructor
    · rintro ⟨more, rfl, -⟩
      exact absurd rfl start
    · rintro (inside | ⟨level, -⟩ | ⟨-, few, -⟩) <;> omega

theorem uriMakeFullFromRelative_keeps_iff_sibling :
    (∃ result, uriMakeFullFromRelative (some (authorityBase (ascii "http") (ascii "host") (ascii "a/b")))
        (some (ascii "../c")) = some result ∧ KeepsAuthority (ascii "http") (ascii "host") result) ↔
      (ascii "../c").head? = some chrSlash ∨ (ascii "../c").head? = some chrHash ∨
        (climbs (removeInternalRelativeComponents (ascii "../c"))).1 + 2 ≤
          (chopFileName (authorityBase (ascii "http") (ascii "host") (ascii "a/b"))).count chrSlash ∨
        ((climbs (removeInternalRelativeComponents (ascii "../c"))).1 + 1 =
            (chopFileName (authorityBase (ascii "http") (ascii "host") (ascii "a/b"))).count chrSlash ∧
          AuthorityFirst (ascii "host") (climbs (removeInternalRelativeComponents (ascii "../c"))).2) ∨
        ((chopFileName (authorityBase (ascii "http") (ascii "host") (ascii "a/b"))).count chrSlash ≤
            (climbs (removeInternalRelativeComponents (ascii "../c"))).1 ∧
          (climbs (removeInternalRelativeComponents (ascii "../c"))).1 ≤
            (chopFileName (authorityBase (ascii "http") (ascii "host") (ascii "a/b"))).count chrSlash + 1 ∧
          ∃ rest, (climbs (removeInternalRelativeComponents (ascii "../c"))).2 = chrSlash :: rest ∧
            AuthorityFirst (ascii "host") rest) :=
  uriMakeFullFromRelative_keeps_iff (ascii "http") (ascii "host") (ascii "a/b") (ascii "../c")
    ⟨by decide, by decide, by decide, by decide⟩ (by decide) (by decide)

/-- Two steps up from the top directory eat the host. -/
theorem uriMakeFullFromRelative_loses_host :
    uriMakeFullFromRelative (some (authorityBase (ascii "http") (ascii "host") (ascii "a")))
        (some (ascii "../../x")) = some (ascii "http:/x") ∧
      ¬ KeepsAuthority (ascii "http") (ascii "host") (ascii "http:/x") := by
  refine ⟨by decide, ?_⟩
  have := keepsAuthority_scheme (ascii "http") (ascii "host") (ascii "x")
  intro keeps
  obtain ⟨more, same, -⟩ := this.mp keeps
  exact absurd (List.cons.inj same).1 (by decide)

end GnomeVfs
