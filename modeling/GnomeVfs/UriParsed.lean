import GnomeVfs.UriRoundtrip

/- What the parser returns, for any text that holds no NUL. -/
namespace GnomeVfs

variable {Method : Type}

theorem splitToken_proper {start cur u : Bytes} (proper : (0 : UInt8) ∉ start)
    (stored : splitToken start cur = some u) : u ≠ [] ∧ (0 : UInt8) ∉ u := by
  rw [splitToken] at stored
  split at stored
  · cases stored
  · rename_i nonempty
    refine ⟨unescapeString_ne_nil nonempty stored, unescapeString_proper [] _ u ?_ stored⟩
    exact fun member => proper (List.mem_of_mem_take member)

theorem uriStrspnTo_spec {s : Bytes} (proper : (0 : UInt8) ∉ s) (set : Bytes) :
    ∃ front rest, s = front ++ rest ∧ uriStrspnTo s set = pointer rest ∧
      (∀ c ∈ front, c ≠ 0 ∧ c ∉ set) ∧ ∀ c back, rest = c :: back → c ∈ set := by
  cases scan : uriStrspnTo s set with
  | none =>
    refine ⟨s, [], by simp, rfl, fun c member => ⟨?_, ?_⟩, by simp⟩
    · rintro rfl
      exact proper member
    · exact uriStrspnTo_eq_none proper scan c member
  | some found =>
    obtain ⟨front, c, back, rfl, rfl, hit, -, clear⟩ := uriStrspnTo_eq_some.mp scan
    refine ⟨front, c :: back, rfl, rfl, clear, ?_⟩
    rintro d more same
    cases same
    exact hit

variable {rest : Bytes}

theorem pointsAt_pointer {c : UInt8} :
    pointsAt (pointer rest) c = true ↔ ∃ back, rest = c :: back := by
  cases rest with
  | nil => simp [pointer]
  | cons d back => simp [pointer]

/-- A colon never stands behind a closing bracket. -/
def ColonsFirst (token : Bytes) : Prop :=
  ∀ front back, token = front ++ chrClose :: back → chrColon ∉ back

theorem ColonsFirst.of_infix {token part : Bytes} (colons : ColonsFirst token) (inside : part <:+: token) :
    ColonsFirst part := by
  rintro front back rfl member
  obtain ⟨before, behind, rfl⟩ := inside
  exact colons (before ++ front) (back ++ behind) (by simp) (by simp [member])

variable {token : Bytes}

theorem ColonsFirst.of_no_close (noClose : chrClose ∉ token) :
    ColonsFirst token := by
  rintro front back rfl
  exact absurd (by simp) noClose

theorem ColonsFirst.of_bracket {front back : Bytes} (first : chrClose ∉ front) (noColon : chrColon ∉ back) :
    ColonsFirst (front ++ chrClose :: back) := by
  intro before behind same member
  rcases List.append_eq_append_iff.mp same with ⟨more, rfl, tail⟩ | ⟨more, rfl, tail⟩
  · cases more with
    | nil =>
      simp only [List.nil_append, List.cons.injEq, true_and] at tail
      exact noColon (tail ▸ member)
    | cons c more =>
      simp only [List.cons_append, List.cons.injEq] at tail
      exact noColon (by rw [tail.2]; simp [member])
  · cases more with
    | nil =>
      simp only [List.nil_append, List.cons.injEq, true_and] at tail
      exact noColon (tail ▸ member)
    | cons c more =>
      simp only [List.cons_append, List.cons.injEq] at tail
      exact first (by simp [tail.1])

/-- The scanned text up to the pointer `cur` can be a host. -/
structure Span (start : Bytes) (cur : Option Bytes) (token rest : Bytes) : Prop where
  whole : start = token ++ rest
  here : cur = pointer rest
  clean : ∀ c ∈ token, c ≠ 0 ∧ c ≠ chrSlash
  colons : ColonsFirst token

variable {d : UInt8}

theorem apart_of {c : UInt8} {set : Bytes} (outside : c ∉ set) (inside : d ∈ set) :
    c ≠ d := by
  rintro rfl
  exact outside inside

theorem bracket_span {front back : Bytes} (proper : (0 : UInt8) ∉ front ++ chrClose :: back)
    (clear : ∀ c ∈ front, c ≠ 0 ∧ c ∉ uriDelimiterIpv6) :
    ∃ token rest, Span (front ++ chrClose :: back)
        (uriStrspnTo (chrClose :: back) uriDelimiterHost) token rest ∧
      ∀ c more, rest = c :: more → c ∈ uriDelimiterHost := by
  have behind : (0 : UInt8) ∉ chrClose :: back := fun member => proper (by simp_all)
  obtain ⟨before, rest, split, scan, apart, stop⟩ := uriStrspnTo_spec behind uriDelimiterHost
  cases before with
  | nil =>
    have := stop chrClose back (by simpa using split.symm)
    exact absurd this (by decide)
  | cons c inside =>
    simp only [List.cons_append, List.cons.injEq] at split
    obtain ⟨rfl, rfl⟩ := split
    refine ⟨front ++ chrClose :: inside, rest, ⟨by simp, scan, ?_, ?_⟩, stop⟩
    · intro c member
      rcases List.mem_append.mp member with early | late
      · exact ⟨(clear c early).1, apart_of (clear c early).2 (by decide)⟩
      · exact ⟨(apart c late).1, apart_of (apart c late).2 (by decide)⟩
    · refine ColonsFirst.of_bracket ?_ ?_
      · intro member
        exact (clear _ member).2 (by decide)
      · intro member
        exact (apart chrColon (by simp [member])).2 (by decide)

variable {path : Bytes}

theorem splitScan_span (proper : (0 : UInt8) ∉ path) :
    ∃ token rest, Span path (splitScan path) token rest ∧
      ∀ c more, rest = c :: more → c ∈ [chrColon, chrAt, chrSlash] := by
  obtain ⟨front, rest, split, scan, clear, stop⟩ := uriStrspnTo_spec proper uriDelimiterAll
  obtain ⟨front6, rest6, split6, scan6, clear6, -⟩ := uriStrspnTo_spec proper uriDelimiterIpv6
  rw [splitScan, scan, scan6]
  have hosts : ∀ c, c ∈ uriDelimiterHost → c ∈ [chrColon, chrAt, chrSlash] := by decide
  split
  · -- a colon in front of a bracket: go on from the bracket
    rename_i lookahead
    simp only [Bool.and_eq_true] at lookahead
    obtain ⟨back, rfl⟩ := pointsAt_pointer.mp lookahead.2
    simp only [pointer, pointsAt_cons, beq_self_eq_true, if_true, Option.bind_some]
    rw [split6] at proper ⊢
    obtain ⟨token, rest, span, ends⟩ := bracket_span proper clear6
    exact ⟨token, rest, span, fun c more same => hosts c (ends c more same)⟩
  · by_cases close : pointsAt (pointer rest) chrClose = true
    · obtain ⟨back, rfl⟩ := pointsAt_pointer.mp close
      simp only [pointer, pointsAt_cons, beq_self_eq_true, if_true, Option.bind_some]
      rw [split] at proper ⊢
      obtain ⟨token, rest, span, ends⟩ := bracket_span proper (fun c member =>
        ⟨(clear c member).1, fun inside => (clear c member).2 (by
          revert inside; simp only [uriDelimiterIpv6, uriDelimiterAll]; simp; tauto)⟩)
      exact ⟨token, rest, span, fun c more same => hosts c (ends c more same)⟩
    · rw [if_neg close]
      refine ⟨front, rest, ⟨split, rfl, ?_, ?_⟩, ?_⟩
      · exact fun c member => ⟨(clear c member).1, apart_of (clear c member).2 (by decide)⟩
      · exact .of_no_close fun member => (clear _ member).2 (by decide)
      · rintro c more rfl
        have delimiter := stop c more rfl
        have notClose : c ≠ chrClose := by
          rintro rfl
          exact close (pointsAt_pointer.mpr ⟨more, rfl⟩)
        simp only [uriDelimiterAll, List.mem_cons, List.not_mem_nil, or_false] at delimiter ⊢
        tauto

variable {start : Bytes}

theorem splitHostEnd_span (proper : (0 : UInt8) ∉ start) :
    ∃ token rest, Span start (splitHostEnd start) token rest ∧
      ∀ c more, rest = c :: more → c ∈ uriDelimiterHost := by
  obtain ⟨front, rest, split, scan, clear, stop⟩ := uriStrspnTo_spec proper uriDelimiterIpv6
  obtain ⟨token, tail, whole, host, apart, ends⟩ := uriStrspnTo_spec proper uriDelimiterHost
  by_cases close : pointsAt (pointer rest) chrClose = true
  · obtain ⟨back, rfl⟩ := pointsAt_pointer.mp close
    rw [splitHostEnd, scan]
    simp only [pointer, pointsAt_cons, beq_self_eq_true, if_true]
    rw [split] at proper ⊢
    exact bracket_span proper clear
  · have same : splitHostEnd start = uriStrspnTo start uriDelimiterHost := by
      rw [splitHostEnd, scan]
      cases rest with
      | nil => rfl
      | cons c back =>
        simp only [pointer] at close ⊢
        rw [if_neg close]
    refine ⟨token, tail, ⟨whole, by rw [same, host], ?_, ?_⟩, ends⟩
    · exact fun c member => ⟨(apart c member).1, apart_of (apart c member).2 (by decide)⟩
    · -- the first delimiter is a slash, and the host ends at or before it
      refine .of_no_close fun member => ?_
      have early : token.length ≤ front.length := by
        by_contra longer
        cases rest with
        | nil =>
          have := congrArg List.length (split.symm.trans whole)
          simp at this
          omega
        | cons c back =>
          have slash : c = chrSlash := by
            have delimiter := stop c back rfl
            have notClose : c ≠ chrClose := by
              rintro rfl
              exact close (pointsAt_pointer.mpr ⟨back, rfl⟩)
            simp only [uriDelimiterIpv6, List.mem_cons, List.not_mem_nil, or_false] at delimiter
            tauto
          have position : token[front.length]? = some c := by
            have inside : front.length < token.length := by omega
            rw [← @List.getElem?_append_left _ token tail _ inside, ← whole, split]
            simp
          have := apart c (List.mem_of_getElem? position)
          exact apart_of this.2 (by decide) slash
      have part : token <+: front :=
        List.prefix_of_prefix_length_le ⟨tail, whole.symm⟩ ⟨rest, split.symm⟩ early
      exact (clear _ (part.subset member)).2 (by decide)

/-- The scan of `path` stops at user information. -/
def hasUserInfo (path : Bytes) : Bool :=
  match splitScan path with
  | none => false
  | some cur => endsUserName cur

/-- Where the host of `path` is looked for, and what has been stored before it. -/
structure SplitInfo (path : Bytes) (info : UserInfo) (before token rest : Bytes) : Prop where
  user : ∀ u, info.user = some u → u ≠ [] ∧ (0 : UInt8) ∉ u
  password : ∀ p, info.password = some p → p ≠ [] ∧ (0 : UInt8) ∉ p
  whole : path = before ++ info.start
  noSlash : chrSlash ∉ before
  span : Span info.start info.cur token rest
  stop : ∀ c more, rest = c :: more → c ∈ uriDelimiterHost
  userInfo : hasUserInfo path = true → chrAt ∈ before

theorem splitAfterUser_spec {user password : Option Bytes} {info : UserInfo}
    (result : splitAfterUser user password (chrAt :: rest) = some info) :
    info.user = user ∧ info.password = password ∧ info.start = rest ∧
      info.cur = splitHostEnd rest := by
  have notSlash : (chrAt == chrSlash) = false := by decide
  simp only [splitAfterUser, pointsAt_cons, notSlash, Bool.false_eq_true, if_false] at result
  split at result
  · cases result
  · cases result
    exact ⟨rfl, rfl, rfl, rfl⟩

/-- A user name is followed by `@`, or by a password and `@`. -/
theorem splitUserInfo_spec {token cur : Bytes} {info : UserInfo} (proper : (0 : UInt8) ∉ token ++ cur)
    (noSlash : chrSlash ∉ token) (stop : ∀ c more, cur = c :: more → c ∈ [chrColon, chrAt, chrSlash])
    (ends : endsUserName cur = true) (result : splitUserInfo (token ++ cur) cur = some info) :
    ∃ before host rest, SplitInfo (token ++ cur) info before host rest := by
  obtain ⟨c, more, rfl⟩ : ∃ c more, cur = c :: more := by
    cases cur with
    | nil => simp [endsUserName, pointsAt] at ends
    | cons c more => exact ⟨c, more, rfl⟩
  have behind : (0 : UInt8) ∉ more := fun member => proper (by simp [member])
  have finish : ∀ {before tail : Bytes} {password : Option Bytes},
      token ++ c :: more = before ++ chrAt :: tail → chrSlash ∉ before →
      (∀ p, password = some p → p ≠ [] ∧ (0 : UInt8) ∉ p) →
      splitAfterUser (splitToken (token ++ c :: more) (c :: more)) password (chrAt :: tail) =
        some info → ∃ before host rest, SplitInfo (token ++ c :: more) info before host rest := by
    intro before tail password whole clear stored step
    have tailProper : (0 : UInt8) ∉ tail := fun member => proper (by simp [whole, member])
    obtain ⟨user, same, start, here⟩ := splitAfterUser_spec step
    obtain ⟨host, rest, span, hosts⟩ := splitHostEnd_span tailProper
    refine ⟨before ++ [chrAt], host, rest, ⟨?_, ?_, ?_, ?_, ?_, hosts, fun _ => by simp⟩⟩
    · exact fun u stored => splitToken_proper proper (user ▸ stored)
    · exact fun p kept => stored p (same ▸ kept)
    · rw [whole, start]
      simp
    · simpa using clear
    · rw [start, here]
      exact span
  have delimiter := stop c more rfl
  simp only [List.mem_cons, List.not_mem_nil, or_false] at delimiter
  rcases delimiter with rfl | rfl | rfl
  · rw [splitUserInfo] at result
    simp only [pointsAt_cons, beq_self_eq_true, if_true] at result
    split at result
    · cases result
    · simp only [List.tail_cons] at result
      split at result
      · rename_i found scan
        split at result
        · rename_i atSign
          obtain ⟨inside, d, tail, rfl, rfl, -, -, apart⟩ := uriStrspnTo_eq_some.mp scan
          rw [pointsAt_cons, beq_iff_eq] at atSign
          subst atSign
          refine @finish (token ++ chrColon :: inside) _ _ (by simp) ?_
            (fun p stored => splitToken_proper behind stored) result
          have : chrSlash ∉ inside := fun member => (apart _ member).2 (by decide)
          simp_all
        · cases result
      · cases result
  · have notColon : (chrAt == chrColon) = false := by decide
    rw [splitUserInfo] at result
    simp only [pointsAt_cons, notColon, Bool.false_eq_true, if_false] at result
    exact finish rfl noSlash (by simp) result
  · rw [endsUserName, uriStrspnTo_cons (by decide) (by decide)] at ends
    simp at ends

theorem splitToplevelUri_info (proper : (0 : UInt8) ∉ path) (nonempty : path ≠ []) :
    (∀ after, splitToplevelUri path after = .failed) ∨
      ∃ info before token rest, SplitInfo path info before token rest ∧
        ∀ after, splitToplevelUri path after = splitFinish info after := by
  obtain ⟨token, rest, span, stop⟩ := splitScan_span proper
  have plain : hasUserInfo path = false →
      SplitInfo path ⟨none, none, path, splitScan path⟩ [] token rest := by
    intro bare
    refine ⟨by simp, by simp, rfl, by simp, span, ?_, by simp [bare]⟩
    rintro c more rfl
    have delimiter := stop c more rfl
    have notAt : c ≠ chrAt := by
      rintro rfl
      rw [hasUserInfo, span.here] at bare
      simp [pointer, endsUserName] at bare
    simp only [uriDelimiterHost, List.mem_cons, List.not_mem_nil, or_false] at delimiter ⊢
    tauto
  cases scan : splitScan path with
  | none =>
    have := plain (by rw [hasUserInfo, scan])
    rw [scan] at this
    refine Or.inr ⟨_, [], token, rest, this, fun after => ?_⟩
    rw [splitToplevelUri, if_neg nonempty, scan]
  | some cur =>
    cases ends : endsUserName cur with
    | false =>
      have := plain (by rw [hasUserInfo, scan]; exact ends)
      rw [scan] at this
      refine Or.inr ⟨_, [], token, rest, this, fun after => ?_⟩
      rw [splitToplevelUri, if_neg nonempty, scan]
      simp only [ends, Bool.false_eq_true, if_false]
    | true =>
      have same : cur = rest := by
        have here := span.here
        rw [scan] at here
        cases rest <;> simp_all [pointer]
      subst same
      have whole := span.whole
      have clear : chrSlash ∉ token := fun member => (span.clean _ member).2 rfl
      cases stored : splitUserInfo path cur with
      | none =>
        refine Or.inl fun after => ?_
        rw [splitToplevelUri, if_neg nonempty, scan]
        simp only [ends, if_true, stored]
      | some info =>
        rw [whole] at proper
        obtain ⟨before, host, tail, spec⟩ :=
          splitUserInfo_spec proper clear stop ends (whole ▸ stored)
        rw [← whole] at spec
        refine Or.inr ⟨info, before, host, tail, spec, fun after => ?_⟩
        rw [splitToplevelUri, if_neg nonempty, scan]
        simp only [ends, if_true, stored]

theorem toLower_eq_iff (delimiter : d ∈ [0, chrHash, chrSlash, chrColon, chrAt, chrClose]) (c : UInt8) :
    toLower c = d ↔ c = d := by
  have other : ¬ (65 ≤ d.toNat ∧ d.toNat ≤ 90) ∧ ¬ (97 ≤ d.toNat ∧ d.toNat ≤ 122) := by
    simp only [List.mem_cons, List.not_mem_nil, or_false] at delimiter
    rcases delimiter with rfl | rfl | rfl | rfl | rfl | rfl <;> decide
  rw [toLower]
  split
  · rename_i upper
    rw [isUpper, Bool.and_eq_true, decide_eq_true_iff, decide_eq_true_iff, UInt8.le_iff_toNat_le,
      UInt8.le_iff_toNat_le] at upper
    have bounds : 65 ≤ c.toNat ∧ c.toNat ≤ 90 := upper
    rw [← UInt8.toNat_inj, ← UInt8.toNat_inj, UInt8.toNat_add]
    show (c.toNat + 32) % 256 = d.toNat ↔ _
    omega
  · rfl

theorem mem_strdown_iff (delimiter : d ∈ [0, chrHash, chrSlash, chrColon, chrAt, chrClose]) (s : Bytes) :
    d ∈ strdown s ↔ d ∈ s := by
  simp [strdown, List.mem_map, toLower_eq_iff delimiter]

theorem ColonsFirst.strdown (colons : ColonsFirst token) :
    ColonsFirst (strdown token) := by
  intro front back same member
  obtain ⟨before, behind, rfl, rfl, tail⟩ := List.map_eq_append_iff.mp same
  obtain ⟨c, more, rfl, close, rfl⟩ := List.map_eq_cons_iff.mp tail
  rw [toLower_eq_iff (by decide)] at close
  subst close
  exact colons before more rfl ((mem_strdown_iff (by decide) more).mp member)

theorem count_strdown (s : Bytes) : (strdown s).count chrAt = s.count chrAt := by
  simp only [List.count, strdown, List.countP_map]
  refine List.countP_congr fun c _ => ?_
  simp [toLower_eq_iff (d := chrAt) (by decide)]

theorem splitHostName_eq (token : Bytes) :
    ∃ part, splitHostName token = strdown part ∧ part <:+: token ∧
      (token ≠ [] → part ≠ []) := by
  rw [splitHostName]
  split
  · rename_i bracketed
    refine ⟨_, rfl, ?_, fun _ => ?_⟩
    · exact (List.take_prefix _ _).isInfix.trans (List.drop_suffix _ _).isInfix
    · -- the three delimiters are different bytes, so something is left between the ends
      have distinct : [chrOpen, chrClose, chrColon] ⊆ token := by
        simpa [List.cons_subset] using bracketed
      have := (List.subperm_of_subset (by decide) distinct).length_le
      intro empty
      have := congrArg List.length empty
      simp at this
      simp_all
      omega
  · exact ⟨token, rfl, List.infix_refl _, id⟩

theorem splitHostName_spec {cur : Option Bytes} (span : Span start cur token rest) (nonempty : token ≠ []) :
    HostName (splitHostName token) := by
  obtain ⟨part, same, inside, kept⟩ := splitHostName_eq token
  have clean : ∀ c ∈ part, c ≠ 0 ∧ c ≠ chrSlash := fun c member =>
    span.clean c (inside.subset member)
  rw [same]
  refine ⟨?_, ?_, strdown_lower part, (span.colons.of_infix inside).strdown⟩
  · simpa [strdown] using kept nonempty
  · intro c member
    constructor
    · rintro rfl
      exact (clean _ ((mem_strdown_iff (by decide) part).mp member)).1 rfl
    · rintro rfl
      exact (clean _ ((mem_strdown_iff (by decide) part).mp member)).2 rfl

/-- Where the text of an element comes from. -/
def TextOrigin (path text : Bytes) : Prop :=
  text = [] ∨ text = [chrSlash] ∨ (text <:+ path ∧ ∃ rest, text = chrSlash :: rest)

theorem TextOrigin.of_suffix {path tail text : Bytes} (origin : TextOrigin tail text) (inside : tail <:+ path) :
    TextOrigin path text := by
  rcases origin with empty | root | ⟨suffix, slash⟩
  · exact Or.inl empty
  · exact Or.inr (Or.inl root)
  · exact Or.inr (Or.inr ⟨suffix.trans inside, slash⟩)

theorem splitHost_spec {cur : Option Bytes} {after : UInt8} {part : HostPart} (span : Span start cur token rest)
    (stop : ∀ c more, rest = c :: more → c ∈ uriDelimiterHost) (result : splitHost start cur after = some part) :
    part.host = (if token = [] then none else some token) ∧ part.port ≤ 0xffff ∧
      (part.host = none → part.port = 0) ∧ TextOrigin rest part.text ∧
      TextAfter part.host part.port part.text := by
  obtain ⟨rfl, rfl, clean, -⟩ := span
  cases rest with
  | nil =>
    simp only [pointer, splitHost, List.append_nil] at result
    split at result
    · cases result
    · rename_i nonempty
      cases result
      have empty : (if token.getLast? = some chrSlash then [chrSlash] else []) = [] :=
        if_neg fun last => (clean _ (List.mem_of_getLast? last)).2 rfl
      exact ⟨by rw [if_neg nonempty], by simp, by simp, Or.inl empty,
        Or.inr ⟨empty, by simp, rfl⟩⟩
  | cons c more =>
    have delimiter := stop c more rfl
    simp only [uriDelimiterHost, List.mem_cons, List.not_mem_nil, or_false] at delimiter
    simp only [pointer, splitHost, pointsAt_cons, strdupTo_append] at result
    rcases delimiter with rfl | rfl
    · simp only [beq_self_eq_true, if_true] at result
      split at result
      · cases result
      · rename_i present
        split at result
        · cases result
        · rename_i next
          simp only [List.tail_cons] at next
          split at result
          · cases result
          · rename_i bound
            cases result
            have nonempty : token ≠ [] := fun empty => present (Or.inl empty)
            refine ⟨by rw [if_neg nonempty], by simpa [UInt32.not_lt] using bound, by simp, ?_⟩
            simp only
            split
            · rename_i proper
              simp only [List.tail_cons] at proper ⊢
              have absolute : ∃ tail, more.dropWhile isDigit = chrSlash :: tail := by
                cases digits : more.dropWhile isDigit with
                | nil => exact absurd digits proper.2
                | cons d tail =>
                  rw [digits] at next proper
                  simp only [List.head?_cons, Option.getD_some] at next proper
                  have : d = chrSlash := by
                    by_contra other
                    exact next ⟨proper.1, other⟩
                  exact ⟨tail, by rw [this]⟩
              have inside := (List.dropWhile_suffix isDigit).trans (List.suffix_cons chrColon more)
              exact ⟨Or.inr (Or.inr ⟨inside, absolute⟩), Or.inl absolute⟩
            · exact ⟨Or.inr (Or.inl rfl), Or.inl ⟨[], rfl⟩⟩
    · have notColon : (chrSlash == chrColon) = false := by decide
      simp only [notColon, Bool.false_eq_true, if_false, Option.some.injEq] at result
      cases result
      exact ⟨rfl, by simp, by simp, Or.inr (Or.inr ⟨List.suffix_refl _, more, rfl⟩),
        Or.inl ⟨more, rfl⟩⟩

/-- The toplevel fields that the parser can store. -/
structure ParsedTop (top : Toplevel) : Prop where
  user : ∀ u, top.userName = some u → u ≠ [] ∧ (0 : UInt8) ∉ u
  password : ∀ p, top.password = some p → p ≠ [] ∧ (0 : UInt8) ∉ p
  host : ∀ h, top.hostName = some h → HostName h ∧ chrHash ∉ h
  port : top.hostPort ≤ 0xffff
  hostless : top.hostName = none → top.hostPort = 0

theorem ParsedTop.empty : ParsedTop .empty := by
  constructor <;> simp [Toplevel.empty]

def SplitUri.top (split : SplitUri) : Toplevel :=
  ⟨split.host, split.port, split.user, split.password⟩

/-- Every result of `split_toplevel_uri` has fields that can be printed again, and a text
cut from the scanned one. With user information the host has lost an `@`. -/
theorem splitToplevelUri_parsed (proper : (0 : UInt8) ∉ path) (after : UInt8) :
    (chrHash ∉ path → ParsedTop (splitToplevelUri path after).top) ∧
      (∀ text, (splitToplevelUri path after).text = some text → TextOrigin path text ∧
        TextAfter (splitToplevelUri path after).host (splitToplevelUri path after).port text) ∧
      (hasUserInfo path = true → ∀ h, (splitToplevelUri path after).host = some h →
        h.count chrAt < (path.takeWhile (· != chrSlash)).count chrAt) := by
  by_cases nonempty : path = []
  · subst nonempty
    refine ⟨fun _ => ParsedTop.empty, ?_, fun _ h same => by simp [splitToplevelUri] at same⟩
    intro text same
    simp only [splitToplevelUri, if_true, Option.some.injEq] at same
    exact ⟨Or.inr (Or.inl same.symm), Or.inl ⟨[], same.symm⟩⟩
  rcases splitToplevelUri_info proper nonempty with failed | ⟨info, before, token, rest, spec, same⟩
  · rw [failed after]
    exact ⟨fun _ => ParsedTop.empty, by simp [SplitUri.failed], by simp [SplitUri.failed]⟩
  · rw [same, splitFinish]
    cases stored : splitHost info.start info.cur after with
    | none => exact ⟨fun _ => ParsedTop.empty, by simp [SplitUri.failed], by simp [SplitUri.failed]⟩
    | some part =>
      obtain ⟨host, port, hostless, origin, shape⟩ := splitHost_spec spec.span spec.stop stored
      have named : ∀ h, part.host.map splitHostName = some h →
          token ≠ [] ∧ h = splitHostName token := by
        intro h named
        rw [host] at named
        split at named
        · cases named
        · rename_i present
          simp only [Option.map_some, Option.some.injEq] at named
          exact ⟨present, named.symm⟩
      have whole : path = before ++ (token ++ rest) := by rw [spec.whole, spec.span.whole]
      refine ⟨fun hash => ⟨spec.user, spec.password, ?_, port, ?_⟩, ?_, ?_⟩
      · intro h storedHost
        obtain ⟨present, rfl⟩ := named h storedHost
        refine ⟨splitHostName_spec spec.span present, fun member => hash ?_⟩
        obtain ⟨piece, lower, inside, -⟩ := splitHostName_eq token
        rw [lower, mem_strdown_iff (by decide)] at member
        simp [whole, inside.subset member]
      · simpa [SplitUri.top] using hostless
      · rintro text ⟨⟩
        refine ⟨origin.of_suffix ⟨before ++ token, by simp [whole]⟩, ?_⟩
        simpa [TextAfter] using shape
      · intro scanned h storedHost
        obtain ⟨-, rfl⟩ := named h storedHost
        obtain ⟨piece, lower, inside, -⟩ := splitHostName_eq token
        have clear : ∀ c ∈ before ++ token, (c != chrSlash) = true := by
          intro c member
          simp only [bne_iff_ne, ne_eq]
          rintro rfl
          rcases List.mem_append.mp member with early | late
          · exact spec.noSlash early
          · exact (spec.span.clean _ late).2 rfl
        have atSign : 0 < before.count chrAt := List.count_pos_iff.mpr (spec.userInfo scanned)
        have fewer := inside.sublist.count_le chrAt
        rw [lower, count_strdown, whole, ← List.append_assoc,
          List.takeWhile_append_of_pos clear, List.count_append, List.count_append]
        omega

end GnomeVfs
