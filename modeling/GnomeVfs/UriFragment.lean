import GnomeVfs.UriChain
import GnomeVfs.UriPort
import GnomeVfs.UriReparse

/- The byte behind the authority: where `split_toplevel_uri` lets it decide, and what this does to a URI
that is followed by a fragment. -/
namespace GnomeVfs

/-- No delimiter of the authority. -/
def Undelimited (front : Bytes) : Prop := ∀ c ∈ front, c ∉ uriDelimiterAll

/-- Where the host is looked for in an authority without path. A `@` behind a name ends the user information;
behind a bracket one does only if a colon stands between them, and then the first one behind that colon. -/
inductive HostStarts : Bytes → Bytes → Prop where
  | bare {path : Bytes} : chrAt ∉ path → HostStarts path path
  | bracket {front back : Bytes} : Undelimited front →
      (∀ inside behind, back = inside ++ chrColon :: behind → chrColon ∉ inside → chrAt ∉ behind) →
      HostStarts (front ++ chrClose :: back) (front ++ chrClose :: back)
  | user {name rest : Bytes} : Undelimited name → HostStarts (name ++ chrAt :: rest) rest
  | password {name word rest : Bytes} : Undelimited name → chrAt ∉ word →
      HostStarts (name ++ chrColon :: (word ++ chrAt :: rest)) rest
  | bracketPassword {front inside word rest : Bytes} : Undelimited front → chrColon ∉ inside → chrAt ∉ word →
      HostStarts (front ++ chrClose :: (inside ++ chrColon :: (word ++ chrAt :: rest))) rest

/-- The text ends with the digits of a port that is accepted. -/
def PortAtEnd (path : Bytes) : Prop :=
  ∃ host digits, HostStarts path (host ++ chrColon :: digits) ∧ HostToken host ∧ host ≠ [] ∧ digits ≠ [] ∧
    (∀ c ∈ digits, isDigit c = true) ∧ chrSlash ∉ path ∧ decimalValue digits % 2 ^ 32 ≤ 65535

section Scans

variable {front back set : Bytes}

theorem scan_past (clear : Undelimited front) (proper : (0 : UInt8) ∉ front) (part : set ⊆ uriDelimiterAll)
    (back : Bytes) : uriStrspnTo (front ++ back) set = uriStrspnTo back set := by
  apply uriStrspnTo_append
  intro c member
  refine ⟨?_, fun inside => clear c member (part inside)⟩
  rintro rfl
  exact proper member

theorem scan_clear {s : Bytes} (clear : ∀ c ∈ s, c ≠ 0 ∧ c ∉ set) : uriStrspnTo s set = none := by
  have := uriStrspnTo_append clear []
  rwa [List.append_nil] at this

theorem scan_congr {s set' : Bytes} (same : ∀ c ∈ s, c ∈ set ↔ c ∈ set') : uriStrspnTo s set = uriStrspnTo s set' := by
  have scans : scanTo (fun c => c == 0 || decide (c ∈ set)) s = scanTo (fun c => c == 0 || decide (c ∈ set')) s := by
    induction s with
    | nil => rfl
    | cons c rest ih =>
      rw [scanTo, scanTo, decide_eq_decide.mpr (same c (List.mem_cons_self ..)),
        ih fun d member => same d (List.mem_cons_of_mem _ member)]
  rw [uriStrspnTo, scans, uriStrspnTo]

theorem strchr_append {c : UInt8} (absent : c ∉ front) (back : Bytes) :
    strchr (front ++ c :: back) c = some (c :: back) := by
  refine (scanTo_eq_some _).mpr ⟨front, c, back, rfl, rfl, beq_self_eq_true c, fun d member => ?_⟩
  rw [beq_eq_false_iff_ne]
  rintro rfl
  exact absent member

theorem scan_user_to_at {word : Bytes} (noAt : chrAt ∉ word) (clean : ∀ c ∈ word, c ≠ 0 ∧ c ≠ chrSlash)
    (rest : Bytes) : uriStrspnTo (word ++ chrAt :: rest) uriDelimiterUser = some (chrAt :: rest) := by
  rw [uriStrspnTo_append, uriStrspnTo_cons (by decide) (by decide)]
  intro c member
  refine ⟨(clean c member).1, ?_⟩
  have notAt : c ≠ chrAt := by
    rintro rfl
    exact noAt member
  simp [uriDelimiterUser, notAt, (clean c member).2]

theorem endsUserName_of_no_at {cur : Bytes} (noAt : chrAt ∉ cur) (clean : ∀ c ∈ cur, c ≠ 0 ∧ c ≠ chrSlash) :
    endsUserName cur = false := by
  have nothing : uriStrspnTo cur uriDelimiterUser = none := by
    apply scan_clear
    intro c member
    refine ⟨(clean c member).1, ?_⟩
    have notAt : c ≠ chrAt := by
      rintro rfl
      exact noAt member
    simp [uriDelimiterUser, notAt, (clean c member).2]
  have head : pointsAt (some cur) chrAt = false := by
    cases cur with
    | nil => rfl
    | cons c more =>
      rw [pointsAt_cons, beq_eq_false_iff_ne]
      rintro rfl
      exact noAt (List.mem_cons_self ..)
  rw [endsUserName, nothing, head]
  rfl

theorem splitScan_bracket (clear : Undelimited front) (proper : (0 : UInt8) ∉ front) (back : Bytes) :
    splitScan (front ++ chrClose :: back) = uriStrspnTo (chrClose :: back) uriDelimiterHost := by
  have first : uriStrspnTo (front ++ chrClose :: back) uriDelimiterAll = some (chrClose :: back) := by
    rw [scan_past clear proper (List.Subset.refl _), uriStrspnTo_cons (by decide) (by decide)]
  have notColon : (chrClose == chrColon) = false := by decide
  rw [splitScan, first]
  simp only [pointsAt_cons, notColon, Bool.false_and, Bool.false_eq_true, if_false, beq_self_eq_true, if_true,
    Option.bind_some]

end Scans

section HostEnd

variable {path : Bytes}

theorem splitHostEnd_close {front : Bytes} (first : chrClose ∉ front)
    (clean : ∀ c ∈ front, c ≠ 0 ∧ c ≠ chrSlash) (back : Bytes) :
    uriStrspnTo (front ++ chrClose :: back) uriDelimiterIpv6 = some (chrClose :: back) ∧
      splitHostEnd (front ++ chrClose :: back) = uriStrspnTo (chrClose :: back) uriDelimiterHost := by
  have bracket : uriStrspnTo (front ++ chrClose :: back) uriDelimiterIpv6 = some (chrClose :: back) := by
    rw [uriStrspnTo_append, uriStrspnTo_cons (by decide) (by decide)]
    intro c member
    refine ⟨(clean c member).1, ?_⟩
    have notClose : c ≠ chrClose := by
      rintro rfl
      exact first member
    simp [uriDelimiterIpv6, notClose, (clean c member).2]
  refine ⟨bracket, ?_⟩
  rw [splitHostEnd, bracket]
  simp only [pointsAt_cons, beq_self_eq_true, if_true]

theorem splitHostEnd_open (noClose : chrClose ∉ path) (clean : ∀ c ∈ path, c ≠ 0 ∧ c ≠ chrSlash) :
    uriStrspnTo path uriDelimiterIpv6 = none ∧ splitHostEnd path = uriStrspnTo path uriDelimiterHost := by
  have bracket : uriStrspnTo path uriDelimiterIpv6 = none := by
    apply scan_clear
    intro c member
    refine ⟨(clean c member).1, ?_⟩
    have notClose : c ≠ chrClose := by
      rintro rfl
      exact noClose member
    simp [uriDelimiterIpv6, notClose, (clean c member).2]
  refine ⟨bracket, ?_⟩
  rw [splitHostEnd, bracket]

theorem splitHostEnd_hostToken (clean : ∀ c ∈ path, c ≠ 0 ∧ c ≠ chrSlash) :
    ∃ token rest, path = token ++ rest ∧ splitHostEnd path = pointer rest ∧ HostToken token := by
  have proper : (0 : UInt8) ∉ path := fun member => (clean _ member).1 rfl
  by_cases close : chrClose ∈ path
  · obtain ⟨front, back, rfl, first⟩ := List.eq_append_cons_of_mem close
    obtain ⟨inside, rest, split, scan, apart, -⟩ :=
      @uriStrspnTo_spec back (fun member => proper (by simp [member])) uriDelimiterHost
    have early : ∀ c ∈ front, c ≠ 0 ∧ c ≠ chrSlash := fun c member => clean c (by simp [member])
    subst split
    refine ⟨front ++ chrClose :: inside, rest, by simp, ?_, .bracket front inside rfl ?_ first ?_⟩
    · rw [(splitHostEnd_close first early _).2, ← scan, ← List.singleton_append,
        @uriStrspnTo_append [chrClose] _ (by decide)]
    · intro c member
      apply clean c
      rcases List.mem_append.mp member with here | there
      · exact List.mem_append_left _ here
      · exact List.mem_append_right _ (by
          rcases List.mem_cons.mp there with rfl | late
          · exact List.mem_cons_self ..
          · exact List.mem_cons_of_mem _ (List.mem_append_left _ late))
    · exact fun member => (apart _ member).2 (by decide)
  · obtain ⟨token, rest, split, scan, apart, -⟩ := uriStrspnTo_spec proper uriDelimiterHost
    refine ⟨token, rest, split, by rw [(splitHostEnd_open close clean).2, scan], .plain ?_ ?_ ?_⟩
    · exact fun c member => clean c (split ▸ List.mem_append_left _ member)
    · exact fun member => (apart _ member).2 (by decide)
    · exact fun member => close (split ▸ List.mem_append_left _ member)

/-- Without a `@` the scan of the authority is the scan of a host. -/
theorem splitScan_bare (noAt : chrAt ∉ path) (clean : ∀ c ∈ path, c ≠ 0 ∧ c ≠ chrSlash) :
    splitScan path = splitHostEnd path := by
  have noUser : uriStrspnTo path uriDelimiterUser = none := by
    apply scan_clear
    intro c member
    refine ⟨(clean c member).1, ?_⟩
    have notAt : c ≠ chrAt := by
      rintro rfl
      exact noAt member
    simp [uriDelimiterUser, notAt, (clean c member).2]
  by_cases close : chrClose ∈ path
  · obtain ⟨front, back, rfl, first⟩ := List.eq_append_cons_of_mem close
    have early : ∀ c ∈ front, c ≠ 0 ∧ c ≠ chrSlash := fun c member => clean c (by simp [member])
    obtain ⟨bracket, host⟩ := splitHostEnd_close first early back
    by_cases colon : chrColon ∈ front
    · obtain ⟨before, behind, rfl, unique⟩ := List.eq_append_cons_of_mem colon
      have here : uriStrspnTo (before ++ chrColon :: behind ++ chrClose :: back) uriDelimiterAll =
          some (chrColon :: (behind ++ chrClose :: back)) := by
        rw [List.append_assoc, uriStrspnTo_append, List.cons_append, uriStrspnTo_cons (by decide) (by decide)]
        exact apart_all (fun c member => early c (by simp [member])) unique (fun member => noAt (by simp [member]))
          fun member => first (by simp [member])
      rw [splitScan, here, noUser, bracket, host]
      simp only [pointsAt_cons, pointsAt_none, beq_self_eq_true, Bool.not_false, Bool.and_self, if_true,
        Option.bind_some]
    · have clear : Undelimited front := fun c member =>
        (apart_all early colon (fun member => noAt (by simp [member])) first c member).2
      rw [splitScan_bracket clear fun member => (early _ member).1 rfl, host]
  · obtain ⟨bracket, host⟩ := splitHostEnd_open close clean
    have sets : uriStrspnTo path uriDelimiterAll = uriStrspnTo path uriDelimiterHost := by
      apply scan_congr
      intro c member
      have notAt : c ≠ chrAt := by
        rintro rfl
        exact noAt member
      have notClose : c ≠ chrClose := by
        rintro rfl
        exact close member
      simp [uriDelimiterAll, uriDelimiterHost, notAt, notClose]
    have stop : pointsAt (uriStrspnTo path uriDelimiterHost) chrClose = false := by
      cases scan : uriStrspnTo path uriDelimiterHost with
      | none => rfl
      | some found =>
        obtain ⟨front, c, back, -, rfl, hit, -, -⟩ := uriStrspnTo_eq_some.mp scan
        rw [pointsAt_cons, beq_eq_false_iff_ne]
        rintro rfl
        exact absurd hit (by decide)
    rw [splitScan, sets, bracket, host]
    simp only [pointsAt_none, Bool.and_false, Bool.false_eq_true, if_false, stop]

end HostEnd

section Split

variable {path start : Bytes}

theorem splitAfterUser_at (user password : Option Bytes) (rest : Bytes) :
    splitAfterUser user password (chrAt :: rest) =
      if rest = [] then none else some ⟨user, password, rest, splitHostEnd rest⟩ := by
  have notSlash : (chrAt == chrSlash) = false := by decide
  rw [splitAfterUser, pointsAt_cons, notSlash, if_neg Bool.false_ne_true]
  rfl

theorem splitToplevelUri_bare (nonempty : path ≠ []) (scan : splitScan path = splitHostEnd path)
    (free : ∀ cur, splitHostEnd path = some cur → endsUserName cur = false) (after : UInt8) :
    splitToplevelUri path after = splitFinish ⟨none, none, path, splitHostEnd path⟩ after := by
  rw [splitToplevelUri, if_neg nonempty, scan]
  cases found : splitHostEnd path with
  | none => rfl
  | some cur =>
    dsimp only
    rw [free cur found, if_neg Bool.false_ne_true]

theorem splitToplevelUri_user {cur rest : Bytes} {user password : Option Bytes} (nonempty : path ≠ [])
    (scan : splitScan path = some cur) (ends : endsUserName cur = true)
    (stored : splitUserInfo path cur = splitAfterUser user password (chrAt :: rest)) (after : UInt8) :
    splitToplevelUri path after =
      if rest = [] then .failed else splitFinish ⟨user, password, rest, splitHostEnd rest⟩ after := by
  rw [splitToplevelUri, if_neg nonempty, scan]
  dsimp only
  rw [if_pos ends, stored, splitAfterUser_at]
  by_cases short : rest = []
  · rw [if_pos short, if_pos short]
  · rw [if_neg short, if_neg short]

/-- A password behind the colon at `cur`. -/
theorem splitUserInfo_password {word rest : Bytes} (noAt : chrAt ∉ word)
    (clean : ∀ c ∈ word, c ≠ 0 ∧ c ≠ chrSlash) :
    endsUserName (chrColon :: (word ++ chrAt :: rest)) = true ∧
      splitUserInfo path (chrColon :: (word ++ chrAt :: rest)) =
        splitAfterUser (splitToken path (chrColon :: (word ++ chrAt :: rest)))
          (splitToken (word ++ chrAt :: rest) (chrAt :: rest)) (chrAt :: rest) := by
  have stop := scan_user_to_at noAt clean rest
  have colon : uriStrspnTo (chrColon :: (word ++ chrAt :: rest)) uriDelimiterUser = some (chrAt :: rest) := by
    rw [← List.singleton_append, uriStrspnTo_append (by decide), stop]
  have notSlash : (chrAt == chrSlash) = false := by decide
  have more : word ++ chrAt :: rest ≠ [] := by simp
  constructor
  · rw [endsUserName, colon]
    simp only [pointsAt_cons, notSlash, Bool.not_false, Bool.or_true]
  · rw [splitUserInfo]
    simp only [pointsAt_cons, beq_self_eq_true, if_true, List.tail_cons, if_neg more, stop]

theorem HostStarts.suffix (starts : HostStarts path start) : start <:+ path := by
  cases starts with
  | bare _ => exact List.suffix_refl _
  | bracket _ _ => exact List.suffix_refl _
  | @user name rest _ => exact ⟨name ++ [chrAt], by simp⟩
  | @password name word rest _ _ => exact ⟨name ++ chrColon :: (word ++ [chrAt]), by simp⟩
  | @bracketPassword front inside word rest _ _ _ =>
    exact ⟨front ++ chrClose :: (inside ++ chrColon :: (word ++ [chrAt])), by simp⟩

theorem HostStarts.split (starts : HostStarts path start) (clean : ∀ c ∈ path, c ≠ 0 ∧ c ≠ chrSlash)
    (nonempty : path ≠ []) : ∃ user password, ∀ after, splitToplevelUri path after =
      if start = [] then .failed else splitFinish ⟨user, password, start, splitHostEnd start⟩ after := by
  cases starts with
  | bare noAt =>
    refine ⟨none, none, fun after => ?_⟩
    rw [if_neg nonempty]
    apply splitToplevelUri_bare nonempty (splitScan_bare noAt clean)
    intro cur found
    obtain ⟨token, rest, rfl, here, -⟩ := splitHostEnd_hostToken clean
    have same : cur = rest := by
      rw [here] at found
      cases rest with
      | nil => cases found
      | cons c more => exact (Option.some.inj found).symm
    subst same
    exact endsUserName_of_no_at (fun member => noAt (List.mem_append_right _ member))
      fun c member => clean c (List.mem_append_right _ member)
  | @bracket front back clear later =>
    have early : ∀ c ∈ front, c ≠ 0 ∧ c ≠ chrSlash := fun c member => clean c (by simp [member])
    have first : chrClose ∉ front := fun member => clear _ member (by decide)
    obtain ⟨-, host⟩ := splitHostEnd_close first early back
    refine ⟨none, none, fun after => ?_⟩
    rw [if_neg nonempty]
    apply splitToplevelUri_bare nonempty
    · rw [splitScan_bracket clear fun member => (early _ member).1 rfl, host]
    · intro cur found
      rw [host] at found
      obtain ⟨inside, c, behind, split, rfl, hit, -, apart⟩ := uriStrspnTo_eq_some.mp found
      obtain ⟨inside, rfl⟩ : ∃ more, inside = chrClose :: more := by
        cases inside with
        | nil =>
          rw [← (List.cons.inj split).1] at hit
          exact absurd hit (by decide)
        | cons d more =>
          rw [← (List.cons.inj split).1]
          exact ⟨more, rfl⟩
      have whole : back = inside ++ c :: behind := (List.cons.inj split).2
      have notSlash : c ≠ chrSlash := (clean c (by simp [whole])).2
      have colon : c = chrColon := by
        simp only [uriDelimiterHost, List.mem_cons, List.not_mem_nil, or_false] at hit
        exact hit.resolve_right notSlash
      subst colon
      have noAt : chrAt ∉ behind := later inside behind whole fun member =>
        (apart _ (List.mem_cons_of_mem _ member)).2 (by decide)
      apply endsUserName_of_no_at
      · simpa using noAt
      · intro c member
        exact clean c (by rw [whole]; simp only [List.mem_append, List.mem_cons] at member ⊢; tauto)
  | @user name rest clear =>
    have proper : (0 : UInt8) ∉ name := fun member => (clean 0 (by simp [member])).1 rfl
    have first : uriStrspnTo (name ++ chrAt :: start) uriDelimiterAll = some (chrAt :: start) := by
      rw [scan_past clear proper (List.Subset.refl _), uriStrspnTo_cons (by decide) (by decide)]
    have notColon : (chrAt == chrColon) = false := by decide
    have notClose : (chrAt == chrClose) = false := by decide
    have scan : splitScan (name ++ chrAt :: start) = some (chrAt :: start) := by
      rw [splitScan, first]
      simp only [pointsAt_cons, notColon, notClose, Bool.false_and, Bool.false_eq_true, if_false]
    have ends : endsUserName (chrAt :: start) = true := by
      rw [endsUserName, pointsAt_cons, beq_self_eq_true, Bool.true_or]
    have stored : splitUserInfo (name ++ chrAt :: start) (chrAt :: start) =
        splitAfterUser (splitToken (name ++ chrAt :: start) (chrAt :: start)) none (chrAt :: start) := by
      rw [splitUserInfo]
      simp only [pointsAt_cons, notColon, Bool.false_eq_true, if_false]
    exact ⟨_, _, splitToplevelUri_user nonempty scan ends stored⟩
  | @password name word rest clear noAt =>
    have proper : (0 : UInt8) ∉ name := fun member => (clean 0 (by simp [member])).1 rfl
    have inside : ∀ c ∈ word, c ≠ 0 ∧ c ≠ chrSlash := fun c member => clean c (by simp [member])
    have first : uriStrspnTo (name ++ chrColon :: (word ++ chrAt :: start)) uriDelimiterAll =
        some (chrColon :: (word ++ chrAt :: start)) := by
      rw [scan_past clear proper (List.Subset.refl _), uriStrspnTo_cons (by decide) (by decide)]
    have user : uriStrspnTo (name ++ chrColon :: (word ++ chrAt :: start)) uriDelimiterUser =
        some (chrAt :: start) := by
      rw [scan_past clear proper (by decide), ← List.singleton_append, uriStrspnTo_append (by decide),
        scan_user_to_at noAt inside]
    have notClose : (chrColon == chrClose) = false := by decide
    obtain ⟨ends, stored⟩ := @splitUserInfo_password (name ++ chrColon :: (word ++ chrAt :: start)) word start
      noAt inside
    refine ⟨_, _, splitToplevelUri_user nonempty ?_ ends stored⟩
    rw [splitScan, first, user]
    simp only [pointsAt_cons, beq_self_eq_true, notClose, Bool.not_true, Bool.and_false, Bool.false_and,
      Bool.false_eq_true, if_false]
  | @bracketPassword front inside word rest clear noColon noAt =>
    have proper : (0 : UInt8) ∉ front := fun member => (clean 0 (by simp [member])).1 rfl
    have between : ∀ c ∈ word, c ≠ 0 ∧ c ≠ chrSlash := fun c member => clean c (by simp [member])
    obtain ⟨ends, stored⟩ := @splitUserInfo_password (front ++ chrClose :: (inside ++
      chrColon :: (word ++ chrAt :: start))) word start noAt between
    refine ⟨_, _, splitToplevelUri_user nonempty ?_ ends stored⟩
    rw [splitScan_bracket clear proper, ← List.cons_append, uriStrspnTo_append,
      uriStrspnTo_cons (by decide) (by decide)]
    intro c member
    rcases List.mem_cons.mp member with rfl | here
    · decide
    · have bytes := clean c (by simp [here])
      have notColon : c ≠ chrColon := by
        rintro rfl
        exact noColon here
      simp [uriDelimiterHost, bytes.1, bytes.2, notColon]

/-- The first delimiter of the authority decides where the host starts. -/
theorem exists_hostStarts (noSlash : chrSlash ∉ path) : ∃ start, HostStarts path start := by
  by_cases noAt : chrAt ∈ path
  case neg => exact ⟨path, .bare noAt⟩
  have some_delimiter : ∃ c ∈ path, c ∈ uriDelimiterAll := ⟨chrAt, noAt, by decide⟩
  obtain ⟨front, c, back, rfl, delimiter, clear⟩ :
      ∃ front c back, path = front ++ c :: back ∧ c ∈ uriDelimiterAll ∧ Undelimited front := by
    cases scan : scanTo (fun c => decide (c ∈ uriDelimiterAll)) path with
    | none =>
      obtain ⟨c, member, hit⟩ := some_delimiter
      have := (scanTo_eq_none _).mp scan c member
      simp [hit] at this
    | some found =>
      obtain ⟨front, c, back, split, rfl, hit, apart⟩ := (scanTo_eq_some _).mp scan
      exact ⟨front, c, back, split, of_decide_eq_true hit, fun d member => of_decide_eq_false (apart d member)⟩
  have front_at : chrAt ∉ front := fun member => clear _ member (by decide)
  simp only [uriDelimiterAll, List.mem_cons, List.not_mem_nil, or_false] at delimiter
  rcases delimiter with rfl | rfl | rfl | rfl
  · have behind : chrAt ∈ back := by
      rcases List.mem_append.mp noAt with early | late
      · exact absurd early front_at
      · exact (List.mem_cons.mp late).resolve_left (by decide)
    obtain ⟨word, rest, rfl, unique⟩ := List.eq_append_cons_of_mem behind
    exact ⟨rest, .password clear unique⟩
  · exact ⟨back, .user clear⟩
  · by_cases colon : chrColon ∈ back
    · obtain ⟨inside, more, rfl, unique⟩ := List.eq_append_cons_of_mem colon
      by_cases behind : chrAt ∈ more
      · obtain ⟨word, rest, rfl, none_before⟩ := List.eq_append_cons_of_mem behind
        exact ⟨rest, .bracketPassword clear unique none_before⟩
      · refine ⟨_, .bracket clear ?_⟩
        intro before later split early
        have here := strchr_append unique more
        rw [split, strchr_append early later] at here
        rwa [(List.cons.inj (Option.some.inj here)).2]
    · refine ⟨_, .bracket clear ?_⟩
      rintro inside behind rfl
      exact absurd (by simp) colon
  · exact absurd (by simp) noSlash

theorem clean_of (proper : (0 : UInt8) ∉ path) (noSlash : chrSlash ∉ path) : ∀ c ∈ path, c ≠ 0 ∧ c ≠ chrSlash := by
  intro c member
  constructor
  · rintro rfl
    exact proper member
  · rintro rfl
    exact noSlash member

theorem splitHost_after {cur : Option Bytes} {after : UInt8}
    (differ : splitHost start cur after ≠ splitHost start cur 0) :
    ∃ digits, cur = some (chrColon :: digits) ∧ digits ≠ [] ∧ (∀ c ∈ digits, isDigit c = true) ∧
      strdupTo start (chrColon :: digits) ≠ [] ∧ ¬ 0xffff < scanPort digits := by
  cases cur with
  | none => exact absurd rfl differ
  | some cur =>
    rw [splitHost, splitHost] at differ
    dsimp only at differ
    split at differ
    case isFalse => exact absurd rfl differ
    case isTrue colon =>
      obtain ⟨digits, rfl⟩ : ∃ digits, cur = chrColon :: digits := by
        cases cur with
        | nil => cases colon
        | cons c digits =>
          rw [pointsAt_cons, beq_iff_eq] at colon
          exact ⟨digits, by rw [colon]⟩
      rw [List.tail_cons] at differ
      split at differ
      case isTrue => exact absurd rfl differ
      case isFalse some_host =>
        obtain ⟨some_host, some_digits⟩ := not_or.mp some_host
        cases rest : digits.dropWhile isDigit with
        | cons c more =>
          rw [rest] at differ
          exact absurd rfl differ
        | nil =>
          refine ⟨digits, rfl, some_digits, List.dropWhile_eq_nil_iff.mp rest, some_host, fun large => ?_⟩
          simp only [large, if_true, ite_self] at differ
          exact differ rfl

theorem scanPort_all {digits : Bytes} (all : ∀ c ∈ digits, isDigit c = true) :
    scanPort digits = UInt32.ofNat (decimalValue digits) := by
  rw [scanPort, List.takeWhile_eq_self_iff.mpr all]
  exact foldl_port digits all 0

theorem splitHost_digits {host digits : Bytes} (some_host : host ≠ []) (some_digits : digits ≠ [])
    (all : ∀ c ∈ digits, isDigit c = true) (small : decimalValue digits % 2 ^ 32 ≤ 65535) (after : UInt8) :
    splitHost (host ++ chrColon :: digits) (some (chrColon :: digits)) after =
      if after ≠ 0 ∧ after ≠ chrSlash then none
      else some ⟨some host, UInt32.ofNat (decimalValue digits), [chrSlash]⟩ := by
  have none_left : digits.dropWhile isDigit = [] := List.dropWhile_eq_nil_iff.mpr all
  have inside : ¬ (0xffff : UInt32) < UInt32.ofNat (decimalValue digits) := by
    rw [UInt32.lt_iff_toNat_lt, UInt32.toNat_ofNat']
    exact Nat.not_lt.mpr small
  rw [splitHost, strdupTo_append, pointsAt_cons, if_pos (beq_self_eq_true chrColon), List.tail_cons,
    if_neg (not_or_intro some_host some_digits), none_left, scanPort_all all]
  simp only [List.head?_nil, Option.getD_none, if_neg inside, ne_eq, not_true_eq_false, and_false, if_false]

theorem PortAtEnd.split (port : PortAtEnd path) (proper : (0 : UInt8) ∉ path) :
    ∃ done : SplitUri, done.text = some [chrSlash] ∧ ∀ after,
      splitToplevelUri path after = if after ≠ 0 ∧ after ≠ chrSlash then .failed else done := by
  obtain ⟨host, digits, starts, token, some_host, some_digits, all, noSlash, small⟩ := port
  have nonempty : path ≠ [] := by
    rintro rfl
    have := List.suffix_nil.mp starts.suffix
    simp at this
  obtain ⟨user, password, split⟩ := starts.split (clean_of proper noSlash) nonempty
  have tail : HostTail (chrColon :: digits) [] := by
    refine ⟨Or.inr ⟨digits, rfl⟩, ?_, Or.inl rfl⟩
    intro c member
    rcases List.mem_cons.mp member with rfl | inside
    · decide
    · exact isDigit_delimiters c (all c inside)
  have hostEnd := splitHostEnd_token token tail
  rw [List.append_nil] at hostEnd
  refine ⟨⟨some [chrSlash], some (splitHostName host), user, UInt32.ofNat (decimalValue digits), password⟩, rfl,
    fun after => ?_⟩
  rw [split, if_neg (by simp), hostEnd, pointer, splitFinish, splitHost_digits some_host some_digits all small]
  by_cases other : after ≠ 0 ∧ after ≠ chrSlash
  · rw [if_pos other, if_pos other]
  · rw [if_neg other, if_neg other]
    rfl

/-- The result depends on the byte behind the text exactly when the text ends in the digits of a port. -/
theorem splitToplevelUri_after_iff (proper : (0 : UInt8) ∉ path) :
    (∀ after, splitToplevelUri path after = splitToplevelUri path 0) ↔ ¬ PortAtEnd path := by
  constructor
  · intro same port
    obtain ⟨done, text, split⟩ := port.split proper
    have here := same chrHash
    rw [split, split, if_pos (by decide), if_neg (by decide)] at here
    rw [← here] at text
    cases text
  · intro other after
    by_contra differ
    have nonempty : path ≠ [] := by
      rintro rfl
      exact differ rfl
    have noSlash : chrSlash ∉ path := by
      rcases splitToplevelUri_info proper nonempty with failed | ⟨info, before, token, rest, spec, same⟩
      · exact absurd ((failed after).trans (failed 0).symm) differ
      · have apart : splitHost info.start info.cur after ≠ splitHost info.start info.cur 0 := by
          intro agree
          rw [same, same, splitFinish, splitFinish, agree] at differ
          exact differ rfl
        obtain ⟨digits, here, -, all, -, -⟩ := splitHost_after apart
        have port : rest = chrColon :: digits := by
          have pointed := spec.span.here.symm.trans here
          cases rest with
          | nil => cases pointed
          | cons c more => exact Option.some.inj pointed
        rw [spec.whole, spec.span.whole, port]
        simp only [List.mem_append, List.mem_cons, not_or]
        exact ⟨spec.noSlash, fun member => (spec.span.clean _ member).2 rfl, by decide,
          fun member => (isDigit_delimiters _ (all _ member)).2.2.2 rfl⟩
    have clean := clean_of proper noSlash
    obtain ⟨start, starts⟩ := exists_hostStarts noSlash
    obtain ⟨user, password, split⟩ := starts.split clean nonempty
    have some_start : start ≠ [] := by
      intro none_left
      rw [split, split, if_pos none_left, if_pos none_left] at differ
      exact differ rfl
    have apart : splitHost start (splitHostEnd start) after ≠ splitHost start (splitHostEnd start) 0 := by
      intro agree
      rw [split, split, if_neg some_start, if_neg some_start, splitFinish, splitFinish, agree] at differ
      exact differ rfl
    obtain ⟨digits, here, some_digits, all, some_host, small⟩ := splitHost_after apart
    obtain ⟨token, rest, rfl, ends, shape⟩ :=
      splitHostEnd_hostToken fun c member => clean c (starts.suffix.subset member)
    have port : rest = chrColon :: digits := by
      rw [ends] at here
      cases rest with
      | nil => cases here
      | cons c more => exact Option.some.inj here
    subst port
    rw [strdupTo_append] at some_host
    refine other ⟨token, digits, starts, shape, some_host, some_digits, all, noSlash, ?_⟩
    rw [scanPort_all all, UInt32.lt_iff_toNat_lt, UInt32.toNat_ofNat'] at small
    exact Nat.not_lt.mp small

end Split

section Fragment

variable {Method : Type} {scheme p f : Bytes} {allowUnknownMethods allowUnsafeMethods allowTransforms : Bool}

/-- The URI with another fragment. -/
def Uri.setFragmentId (fragmentId : Bytes) : Uri Method → Uri Method
  | .toplevel e top => .toplevel { e with fragmentId := some fragmentId } top
  | .child e parent => .child { e with fragmentId := some fragmentId } parent

theorem splitExtension_bare {s : Bytes} (bare : chrHash ∉ s) : splitExtension s = (s, 0, none) := by
  have nothing : strchr s chrHash = none := by
    refine (scanTo_eq_none _).mpr fun c member => ?_
    rw [beq_eq_false_iff_ne]
    rintro rfl
    exact bare member
  rw [splitExtension, nothing]

theorem parseToplevel_slashes (ctx : UriContext Method) (methodString : Bytes) (bare : chrHash ∉ p) :
    parseToplevel ctx methodString (chrSlash :: chrSlash :: p) =
      .toplevel ⟨(setUriElement ctx false methodString (chrSlash :: chrSlash :: p) 0).1, none, methodString,
        ctx.methodGet methodString⟩ (setUriElement ctx false methodString (chrSlash :: chrSlash :: p) 0).2 := by
  have bareText : chrHash ∉ chrSlash :: chrSlash :: p := by simpa using bare
  rw [parseToplevel, splitExtension_bare bareText]

theorem parseToplevel_fragment (ctx : UriContext Method) (methodString : Bytes) (bare : chrHash ∉ p)
    (single : chrColon ∉ f) :
    parseToplevel ctx methodString (chrSlash :: chrSlash :: (p ++ chrHash :: f)) =
      .toplevel ⟨(setUriElement ctx false methodString (chrSlash :: chrSlash :: p) chrHash).1, some f, methodString,
        ctx.methodGet methodString⟩ (setUriElement ctx false methodString (chrSlash :: chrSlash :: p) chrHash).2 := by
  have bareText : chrHash ∉ chrSlash :: chrSlash :: p := by simpa using bare
  have parts := splitExtension_hash bareText f
  rw [List.cons_append, List.cons_append] at parts
  rw [parseToplevel, parts]
  exact if_pos single

theorem uriNewPrivate_scheme (ctx : UriContext Method) (method : ∀ c ∈ scheme, isMethodChar c = true) (rest : Bytes)
    (still : allowTransforms = true → ∀ scanner, applyTransform ctx (strdown scheme) scanner = (strdown scheme, scanner)) :
    uriNewPrivate ctx (scheme ++ chrColon :: rest) allowUnknownMethods allowUnsafeMethods allowTransforms =
      if strdown scheme = ascii "pipe" ∧ !allowUnsafeMethods then none
      else if (ctx.methodGet (strdown scheme)).isNone ∧ !allowUnknownMethods then none
      else some (parseToplevel ctx (strdown scheme) rest) := by
  rw [uriNewPrivate, if_neg (by simp), getMethodString_strdown method]
  dsimp only
  cases allowTransforms with
  | false => rw [if_neg Bool.false_ne_true]
  | true => rw [if_pos rfl, still rfl]

/-- A fragment changes nothing in front of it, and the split of the authority does not depend on what stands behind
the authority, exactly when the authority does not end in the digits of a port. -/
theorem uriNewPrivate_fragment_iff (ctx : UriContext Method) (method : ∀ c ∈ scheme, isMethodChar c = true)
    (proper : (0 : UInt8) ∉ p) (bare : chrHash ∉ p) (single : chrColon ∉ f)
    (still : allowTransforms = true → ∀ scanner, applyTransform ctx (strdown scheme) scanner = (strdown scheme, scanner))
    {u : Uri Method} (parsed : uriNewPrivate ctx (scheme ++ chrColon :: chrSlash :: chrSlash :: p)
      allowUnknownMethods allowUnsafeMethods allowTransforms = some u) :
    (uriNewPrivate ctx (scheme ++ chrColon :: chrSlash :: chrSlash :: (p ++ chrHash :: f))
        allowUnknownMethods allowUnsafeMethods allowTransforms = some (u.setFragmentId f) ↔ ¬ PortAtEnd p) ∧
      ((∀ after, splitToplevelUri p after = splitToplevelUri p 0) ↔ ¬ PortAtEnd p) := by
  refine ⟨?_, splitToplevelUri_after_iff proper⟩
  rw [uriNewPrivate_scheme ctx method _ still] at parsed ⊢
  split at parsed
  case isTrue => cases parsed
  case isFalse safe =>
    split at parsed
    case isTrue => cases parsed
    case isFalse known =>
      cases parsed
      rw [if_neg safe, if_neg known, parseToplevel_slashes ctx _ bare, parseToplevel_fragment ctx _ bare single,
        setUriElement_slashes, setUriElement_slashes, Uri.setFragmentId]
      constructor
      · intro same port
        obtain ⟨done, text, split⟩ := port.split proper
        rw [split, split, if_pos (by decide), if_neg (by decide), text] at same
        cases same
      · intro other
        rw [(splitToplevelUri_after_iff proper).mpr other chrHash]

theorem uriNewPrivate_fragment_host :
    uriNewPrivate plainContext (ascii "http:" ++ chrSlash :: chrSlash :: (ascii "u:w@h:80/x" ++ chrHash :: ascii "sec"))
        false false true =
      some (.toplevel ⟨some (ascii "/x"), some (ascii "sec"), ascii "http", some ()⟩
        ⟨some (ascii "h"), 80, some (ascii "u"), some (ascii "w")⟩) := by
  have parsed : uriNewPrivate plainContext (ascii "http" ++ chrColon :: chrSlash :: chrSlash :: ascii "u:w@h:80/x")
      false false true = some (.toplevel ⟨some (ascii "/x"), none, ascii "http", some ()⟩
        ⟨some (ascii "h"), 80, some (ascii "u"), some (ascii "w")⟩) := by decide +kernel
  refine (uriNewPrivate_fragment_iff plainContext (by decide) (by decide) (by decide) (by decide)
    (fun _ _ => rfl) parsed).1.mpr ?_
  rintro ⟨host, digits, -, -, -, -, -, noSlash, -⟩
  exact noSlash (by decide)

/-- With a fragment behind the port the authority is lost. -/
theorem uriNewPrivate_fragment_port :
    uriNewPrivate plainContext (ascii "http://host:80") false false true =
        some (.toplevel ⟨some (ascii "/"), none, ascii "http", some ()⟩ ⟨some (ascii "host"), 80, none, none⟩) ∧
      uriNewPrivate plainContext (ascii "http://host:80#f") false false true =
        some (.toplevel ⟨none, some (ascii "f"), ascii "http", some ()⟩ .empty) := by
  decide +kernel

end Fragment

end GnomeVfs
