import Mathlib.Data.Nat.Digits.Lemmas
import GnomeVfs.EscapeRoundtrip
import GnomeVfs.Uri

/- The scanner run over a printed authority. -/
namespace GnomeVfs

/-- The scanner's result for a delimiter that is certain to be the next byte, if any. -/
def pointer : Bytes → Option Bytes
  | [] => none
  | c :: rest => some (c :: rest)

theorem uriStrspnTo_eq_some {s set found : Bytes} :
    uriStrspnTo s set = some found ↔
      ∃ front c back, s = front ++ c :: back ∧ found = c :: back ∧ c ∈ set ∧ c ≠ 0 ∧
        ∀ x ∈ front, x ≠ 0 ∧ x ∉ set := by
  simp only [uriStrspnTo, Option.filter_eq_some_iff, scanTo_eq_some, bne_iff_ne, ne_eq]
  constructor
  · rintro ⟨⟨front, c, back, rfl, rfl, hit, clear⟩, proper⟩
    have nonzero : c ≠ 0 := by simpa using proper
    refine ⟨front, c, back, rfl, rfl, by simpa [nonzero] using hit, nonzero, ?_⟩
    intro x member
    simpa using clear x member
  · rintro ⟨front, c, back, rfl, rfl, hit, nonzero, clear⟩
    refine ⟨⟨front, c, back, rfl, rfl, by simp [hit], ?_⟩, by simpa using nonzero⟩
    intro x member
    simpa using clear x member

theorem uriStrspnTo_eq_none {s set : Bytes} (proper : (0 : UInt8) ∉ s) (absent : uriStrspnTo s set = none) :
    ∀ x ∈ s, x ∉ set := by
  intro x member delimiter
  obtain ⟨front, rest, rfl⟩ := List.append_of_mem member
  have reached : (scanTo (fun c => c == 0 || c ∈ set) (front ++ x :: rest)) ≠ none := by
    rw [Ne, scanTo_eq_none]
    intro clear
    have := clear x (by simp)
    simp [delimiter] at this
  obtain ⟨found, same⟩ := Option.ne_none_iff_exists'.mp reached
  obtain ⟨before, c, back, split, rfl, -, -⟩ := (scanTo_eq_some _).mp same
  have nonzero : c ≠ 0 := by
    rintro rfl
    exact proper (by simp [split])
  simp [uriStrspnTo, same, nonzero] at absent

theorem uriStrspnTo_append {front set : Bytes} (clear : ∀ c ∈ front, c ≠ 0 ∧ c ∉ set) (back : Bytes) :
    uriStrspnTo (front ++ back) set = uriStrspnTo back set := by
  have : ∀ c ∈ front, (fun c => c == 0 || decide (c ∈ set)) c = false := by
    intro c member
    simpa using clear c member
  rw [uriStrspnTo, scanTo_append_of_clear _ this, uriStrspnTo]

theorem uriStrspnTo_cons {c : UInt8} {set : Bytes} (hit : c ∈ set) (nonzero : c ≠ 0) (rest : Bytes) :
    uriStrspnTo (c :: rest) set = some (c :: rest) :=
  uriStrspnTo_eq_some.mpr ⟨[], c, rest, rfl, rfl, hit, nonzero, by simp⟩

@[simp] theorem uriStrspnTo_nil (set : Bytes) : uriStrspnTo [] set = none := by
  simp [uriStrspnTo]

@[simp] theorem pointsAt_none (c : UInt8) : pointsAt none c = false := rfl

@[simp] theorem pointsAt_cons (d c : UInt8) (rest : Bytes) :
    pointsAt (some (d :: rest)) c = (d == c) := by
  simp [pointsAt]

/-- What stands between the host and the end of the text: a port and an absolute path,
either of which may be missing. -/
structure HostTail (port path : Bytes) : Prop where
  portHead : port = [] ∨ ∃ digits, port = chrColon :: digits
  portClean : ∀ c ∈ port, c ≠ 0 ∧ c ≠ chrAt ∧ c ≠ chrClose ∧ c ≠ chrSlash
  pathHead : path = [] ∨ ∃ rest, path = chrSlash :: rest

namespace HostTail

variable {port path : Bytes} (tail : HostTail port path)
include tail

variable {set : Bytes}

theorem path_scan (slash : chrSlash ∈ set) :
    uriStrspnTo path set = pointer path := by
  rcases tail.pathHead with rfl | ⟨rest, rfl⟩
  · rfl
  · exact uriStrspnTo_cons slash (by decide) rest

theorem scan_path (slash : chrSlash ∈ set) (apart : ∀ c ∈ port, c ∉ set) :
    uriStrspnTo (port ++ path) set = pointer path := by
  rw [uriStrspnTo_append fun c member => ⟨(tail.portClean c member).1, apart c member⟩]
  exact tail.path_scan slash

theorem scan_user : uriStrspnTo (port ++ path) uriDelimiterUser = pointer path := by
  apply tail.scan_path (by decide)
  intro c member
  have := tail.portClean c member
  simp_all [uriDelimiterUser]

theorem scan_ipv6 : uriStrspnTo (port ++ path) uriDelimiterIpv6 = pointer path := by
  apply tail.scan_path (by decide)
  intro c member
  have := tail.portClean c member
  simp_all [uriDelimiterIpv6]

theorem scan_port (colon : chrColon ∈ set) (slash : chrSlash ∈ set) :
    uriStrspnTo (port ++ path) set = pointer (port ++ path) := by
  rcases tail.portHead with rfl | ⟨digits, rfl⟩
  · exact tail.path_scan slash
  · exact uriStrspnTo_cons colon (by decide) _

theorem path_not_at : pointsAt (pointer path) chrAt = false := by
  rcases tail.pathHead with rfl | ⟨rest, rfl⟩ <;> simp [pointer]

theorem path_not_close : pointsAt (pointer path) chrClose = false := by
  rcases tail.pathHead with rfl | ⟨rest, rfl⟩ <;> simp [pointer]

theorem not_close : pointsAt (pointer (port ++ path)) chrClose = false := by
  rcases tail.portHead with rfl | ⟨digits, rfl⟩
  · exact tail.path_not_close
  · simp [pointer]

theorem not_endsUserName {cur : Bytes} (here : pointer (port ++ path) = some cur) :
    endsUserName cur = false := by
  have whole : cur = port ++ path := by
    cases whole : port ++ path with
    | nil => simp [whole, pointer] at here
    | cons c rest => simpa [whole, pointer, eq_comm] using here
  subst whole
  have notAt : pointsAt (some (port ++ path)) chrAt = false := by
    rw [← here]
    rcases tail.portHead with rfl | ⟨digits, rfl⟩
    · exact tail.path_not_at
    · simp [pointer]
  rw [endsUserName, notAt, tail.scan_user]
  rcases tail.pathHead with rfl | ⟨rest, rfl⟩ <;> simp [pointer]

end HostTail

/-- A host as it stands in the text: a colon is always followed by a bracket, and
never preceded by one. -/
inductive HostToken (token : Bytes) : Prop where
  | plain (clean : ∀ c ∈ token, c ≠ 0 ∧ c ≠ chrSlash) (noColon : chrColon ∉ token)
      (noClose : chrClose ∉ token)
  | bracket (front back : Bytes) (split : token = front ++ chrClose :: back)
      (clean : ∀ c ∈ token, c ≠ 0 ∧ c ≠ chrSlash) (first : chrClose ∉ front)
      (noColon : chrColon ∉ back)

theorem scan_host_of_bracket {back port path : Bytes} (tail : HostTail port path)
    (clean : ∀ c ∈ back, c ≠ 0 ∧ c ≠ chrSlash) (noColon : chrColon ∉ back) :
    uriStrspnTo (chrClose :: back ++ (port ++ path)) uriDelimiterHost = pointer (port ++ path) := by
  rw [uriStrspnTo_append]
  · exact tail.scan_port (by decide) (by decide)
  · intro c member
    rcases List.mem_cons.mp member with rfl | inside
    · decide
    · have notColon : c ≠ chrColon := by
        rintro rfl
        exact noColon inside
      have := clean c inside
      simp_all [uriDelimiterHost]

theorem splitHostEnd_token {token port path : Bytes} (shape : HostToken token) (tail : HostTail port path) :
    splitHostEnd (token ++ (port ++ path)) = pointer (port ++ path) := by
  cases shape with
  | plain clean noColon noClose =>
    have bracket : uriStrspnTo (token ++ (port ++ path)) uriDelimiterIpv6 = pointer path := by
      rw [uriStrspnTo_append, tail.scan_ipv6]
      intro c member
      have notClose : c ≠ chrClose := by
        rintro rfl
        exact noClose member
      have := clean c member
      simp_all [uriDelimiterIpv6]
    have host : uriStrspnTo (token ++ (port ++ path)) uriDelimiterHost =
        pointer (port ++ path) := by
      rw [uriStrspnTo_append, tail.scan_port (by decide) (by decide)]
      intro c member
      have notColon : c ≠ chrColon := by
        rintro rfl
        exact noColon member
      have := clean c member
      simp_all [uriDelimiterHost]
    rw [splitHostEnd, bracket, host]
    rcases tail.pathHead with rfl | ⟨rest, rfl⟩ <;> simp [pointer]
  | bracket front back split clean first noColon =>
    subst split
    have bracket : uriStrspnTo (front ++ chrClose :: back ++ (port ++ path)) uriDelimiterIpv6 =
        some (chrClose :: back ++ (port ++ path)) := by
      rw [List.append_assoc, uriStrspnTo_append]
      · exact uriStrspnTo_cons (by decide) (by decide) _
      · intro c member
        have notClose : c ≠ chrClose := by
          rintro rfl
          exact first member
        have := clean c (by simp [member])
        simp_all [uriDelimiterIpv6]
    rw [splitHostEnd, bracket]
    simp only [List.cons_append, pointsAt_cons, beq_self_eq_true, if_true]
    exact scan_host_of_bracket tail (fun c member => clean c (by simp [member])) noColon

/-- A host that the scanner cannot take for user information: either it has no `@`, or
its first bracket comes before the first `@` and before any colon. -/
def HostBare (host : Bytes) : Prop :=
  chrAt ∉ host ∨ (chrColon ∉ host ∧ chrAt ∉ host.takeWhile (· != chrClose))

instance (host : Bytes) : Decidable (HostBare host) :=
  inferInstanceAs (Decidable (_ ∨ _))

theorem apart_all {part : Bytes} (clean : ∀ c ∈ part, c ≠ 0 ∧ c ≠ chrSlash) (noColon : chrColon ∉ part)
    (noAt : chrAt ∉ part) (noClose : chrClose ∉ part) : ∀ c ∈ part, c ≠ 0 ∧ c ∉ uriDelimiterAll := by
  intro c member
  refine ⟨(clean c member).1, fun delimiter => ?_⟩
  simp only [uriDelimiterAll, List.mem_cons, List.not_mem_nil, or_false] at delimiter
  rcases delimiter with rfl | rfl | rfl | rfl
  · exact noColon member
  · exact noAt member
  · exact noClose member
  · exact (clean _ member).2 rfl

theorem splitScan_plain {token port path : Bytes} (tail : HostTail port path)
    (clean : ∀ c ∈ token, c ≠ 0 ∧ c ≠ chrSlash) (noColon : chrColon ∉ token) (noClose : chrClose ∉ token)
    (noAt : chrAt ∉ token) :
    splitScan (token ++ (port ++ path)) = pointer (port ++ path) := by
  have apart : ∀ set ⊆ uriDelimiterAll, ∀ c ∈ token, c ≠ 0 ∧ c ∉ set := by
    intro set sub c member
    have proper := apart_all clean noColon noAt noClose c member
    exact ⟨proper.1, fun delimiter => proper.2 (sub delimiter)⟩
  have first : uriStrspnTo (token ++ (port ++ path)) uriDelimiterAll = pointer (port ++ path) := by
    rw [uriStrspnTo_append (apart _ (List.Subset.refl _)), tail.scan_port (by decide) (by decide)]
  have user : uriStrspnTo (token ++ (port ++ path)) uriDelimiterUser = pointer path := by
    rw [uriStrspnTo_append (apart _ (by decide)), tail.scan_user]
  have bracket : uriStrspnTo (token ++ (port ++ path)) uriDelimiterIpv6 = pointer path := by
    rw [uriStrspnTo_append (apart _ (by decide)), tail.scan_ipv6]
  simp only [splitScan, first, user, bracket, tail.path_not_close, tail.not_close,
    Bool.and_false, Bool.false_eq_true, if_false]

theorem splitScan_close_first {front back port path : Bytes} (tail : HostTail port path)
    (clean : ∀ c ∈ front ++ chrClose :: back, c ≠ 0 ∧ c ≠ chrSlash) (first : chrClose ∉ front)
    (noAt : chrAt ∉ front) (noColonFront : chrColon ∉ front) (noColon : chrColon ∉ back) :
    splitScan (front ++ chrClose :: back ++ (port ++ path)) = pointer (port ++ path) := by
  have here : uriStrspnTo (front ++ chrClose :: back ++ (port ++ path)) uriDelimiterAll =
      some (chrClose :: back ++ (port ++ path)) := by
    rw [List.append_assoc, uriStrspnTo_append]
    · exact uriStrspnTo_cons (by decide) (by decide) _
    · exact apart_all (fun c member => clean c (by simp [member])) noColonFront noAt first
  have behind := scan_host_of_bracket tail
    (fun c member => clean c (by simp [member])) noColon
  simp only [List.cons_append] at here behind
  simp only [splitScan, here]
  simp [behind]

theorem splitScan_colon_first {front back port path : Bytes} (tail : HostTail port path)
    (clean : ∀ c ∈ front ++ chrClose :: back, c ≠ 0 ∧ c ≠ chrSlash) (first : chrClose ∉ front)
    (noAt : chrAt ∉ front ++ chrClose :: back) (colon : chrColon ∈ front) (noColon : chrColon ∉ back) :
    splitScan (front ++ chrClose :: back ++ (port ++ path)) = pointer (port ++ path) := by
  obtain ⟨before, rest, rfl, unique⟩ := List.eq_append_cons_of_mem colon
  have here : uriStrspnTo (before ++ chrColon :: rest ++ chrClose :: back ++ (port ++ path))
      uriDelimiterAll = some (chrColon :: (rest ++ chrClose :: back ++ (port ++ path))) := by
    rw [List.append_assoc, List.append_assoc, List.append_assoc, uriStrspnTo_append]
    · simpa using @uriStrspnTo_cons chrColon uriDelimiterAll (by decide) (by decide)
        (rest ++ (chrClose :: back ++ (port ++ path)))
    · exact apart_all (fun c member => clean c (by simp [member])) unique (fun member => noAt (by simp [member]))
        fun member => first (by simp [member])
  have user : uriStrspnTo (before ++ chrColon :: rest ++ chrClose :: back ++ (port ++ path))
      uriDelimiterUser = pointer path := by
    rw [uriStrspnTo_append, tail.scan_user]
    intro c member
    have proper := clean c member
    refine ⟨proper.1, fun delimiter => ?_⟩
    simp only [uriDelimiterUser, List.mem_cons, List.not_mem_nil, or_false] at delimiter
    rcases delimiter with rfl | rfl
    · exact noAt member
    · exact proper.2 rfl
  have bracket : uriStrspnTo (before ++ chrColon :: rest ++ chrClose :: back ++ (port ++ path))
      uriDelimiterIpv6 = some (chrClose :: back ++ (port ++ path)) := by
    rw [List.append_assoc, uriStrspnTo_append]
    · exact uriStrspnTo_cons (by decide) (by decide) _
    · intro c member
      have proper := clean c (by rw [List.mem_append]; exact Or.inl member)
      refine ⟨proper.1, fun delimiter => ?_⟩
      simp only [uriDelimiterIpv6, List.mem_cons, List.not_mem_nil, or_false] at delimiter
      rcases delimiter with rfl | rfl
      · exact first member
      · exact proper.2 rfl
  have behind := scan_host_of_bracket tail
    (fun c member => clean c (by simp [member])) noColon
  simp only [List.cons_append] at bracket behind
  simp only [splitScan, here, user, bracket, tail.path_not_at]
  simp [behind]

end GnomeVfs
