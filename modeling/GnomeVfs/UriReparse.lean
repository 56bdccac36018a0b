import GnomeVfs.UriNormalize
import GnomeVfs.UriParsed

/- Parsing the printed form of a URI that was itself parsed. -/
namespace GnomeVfs

variable {Method : Type}

theorem isMethodChar_toLower (c : UInt8) : isMethodChar c = true → isMethodChar (toLower c) = true :=
  forall_byte (P := fun c => isMethodChar c = true → isMethodChar (toLower c) = true)
    (by decide +kernel) c

theorem getMethodString_name (s : Bytes) : SchemeName (getMethodString s).1 := by
  have file : SchemeName (ascii "file") := ⟨by decide, by decide⟩
  rw [getMethodString]
  split
  · split
    · refine ⟨fun c member => ?_, strdown_lower _⟩
      obtain ⟨d, inside, rfl⟩ := List.mem_map.mp member
      exact isMethodChar_toLower d (List.mem_takeWhile_imp inside)
    · exact file
  · exact file

theorem splitExtension_body (scanner : Bytes) :
    chrHash ∉ (splitExtension scanner).1 ∧ (splitExtension scanner).1 <+: scanner := by
  rw [splitExtension]
  cases found : strchr scanner chrHash with
  | none =>
    refine ⟨fun member => ?_, List.prefix_refl _⟩
    have := (scanTo_eq_none _).mp found chrHash member
    simp at this
  | some extension =>
    obtain ⟨front, c, back, rfl, rfl, -, clear⟩ := (scanTo_eq_some _).mp found
    simp only [strdupTo_append]
    refine ⟨fun member => ?_, List.prefix_append _ _⟩
    have := clear chrHash member
    simp at this

theorem parseUriSubstring_child (ctx : UriContext Method) {fuel : Nat} {substring : Bytes}
    {parent : Uri Method} : ∀ {uri : Uri Method},
    parseUriSubstring ctx fuel substring parent = some uri → ∃ e p, uri = .child e p := by
  induction fuel generalizing substring parent with
  | zero => intro uri parsed; simp [parseUriSubstring] at parsed
  | succ fuel ih =>
    intro uri parsed
    unfold parseUriSubstring at parsed
    split at parsed
    · cases parsed
    simp only at parsed
    split at parsed
    · cases parsed
    split at parsed
    · cases parsed
      exact ⟨_, _, rfl⟩
    split at parsed
    · cases parsed
      exact ⟨_, _, rfl⟩
    · cases parsed
      cases deeper : parseUriSubstring ctx fuel _ _ with
      | none => exact ⟨_, _, rfl⟩
      | some v => exact ih deeper

theorem parseToplevel_spec (ctx : UriContext Method) {scheme scanner : Bytes} {e : Element Method}
    {top : Toplevel} (parsed : parseToplevel ctx scheme scanner = .toplevel e top) :
    e.methodString = scheme ∧ e.method = ctx.methodGet scheme ∧
      (∀ rest, e.fragmentId = some rest → chrColon ∉ rest) ∧
      ∃ body after, body = (splitExtension scanner).1 ∧
        (e.text, top) = setUriElement ctx false scheme body after := by
  unfold parseToplevel at parsed
  simp only at parsed
  split at parsed
  · cases parsed
    exact ⟨rfl, rfl, by simp, _, _, rfl, rfl⟩
  split at parsed
  · rename_i noColon
    cases parsed
    exact ⟨rfl, rfl, by rintro rest ⟨⟩; exact noColon, _, _, rfl, rfl⟩
  · cases chained : parseUriSubstring ctx _ _ _ with
    | none =>
      rw [chained] at parsed
      cases parsed
      exact ⟨rfl, rfl, by simp, _, _, rfl, rfl⟩
    | some uri =>
      obtain ⟨inner, parent, rfl⟩ := parseUriSubstring_child ctx chained
      rw [chained] at parsed
      cases parsed

/-- The text of a parsed element is a normalised text without `#`. -/
structure ParsedText (ctx : UriContext Method) (scheme text : Bytes) : Prop where
  proper : (0 : UInt8) ∉ text
  noHash : chrHash ∉ text
  escaped : EscapedText scheme text

theorem normalizeText_parsed (ctx : UriContext Method) (scheme : Bytes) {raw : Bytes}
    (proper : (0 : UInt8) ∉ raw) (noHash : chrHash ∉ raw) :
    ParsedText ctx scheme (normalizeText ctx scheme raw) where
  proper := normalizeText_not_mem ctx scheme (by decide) (Or.inl proper)
  noHash := normalizeText_not_mem ctx scheme (by decide) (Or.inl noHash)
  escaped := normalizeText_escaped ctx scheme raw

theorem TextOrigin.not_mem {path text : Bytes} (origin : TextOrigin path text) {d : UInt8}
    (absent : d ∉ path) (other : d ≠ chrSlash) : d ∉ text := by
  rcases origin with rfl | rfl | ⟨suffix, -⟩
  · simp
  · simpa using other
  · exact fun member => absent (suffix.subset member)

theorem setUriElement_parsed (ctx : UriContext Method) (scheme : Bytes) {body : Bytes}
    (after : UInt8) (proper : (0 : UInt8) ∉ body) (noHash : chrHash ∉ body) :
    ParsedTop (setUriElement ctx false scheme body after).2 ∧
      ∀ text, (setUriElement ctx false scheme body after).1 = some text →
        ParsedText ctx scheme text := by
  rw [setUriElement]
  split
  · refine ⟨ParsedTop.empty, ?_⟩
    rintro text ⟨⟩
    exact ⟨by decide, by decide, fun _ => by decide⟩
  split
  · have properTail : (0 : UInt8) ∉ body.drop 2 := fun member => proper (List.mem_of_mem_drop member)
    have noHashTail : chrHash ∉ body.drop 2 := fun member => noHash (List.mem_of_mem_drop member)
    obtain ⟨top, texts, -⟩ := splitToplevelUri_parsed properTail after
    refine ⟨top noHashTail, fun text stored => ?_⟩
    obtain ⟨raw, origin, rfl⟩ := Option.map_eq_some_iff.mp stored
    have source := (texts raw origin).1
    exact normalizeText_parsed ctx scheme (source.not_mem properTail (by decide))
      (source.not_mem noHashTail (by decide))
  · refine ⟨ParsedTop.empty, ?_⟩
    rintro text ⟨⟩
    exact normalizeText_parsed ctx scheme proper noHash

/-- What is known of an unchained URI that the lenient parser returns. -/
structure ParsedUri (ctx : UriContext Method) (e : Element Method) (top : Toplevel) : Prop where
  scheme : SchemeName e.methodString
  method : e.method = ctx.methodGet e.methodString
  fragment : ∀ rest, e.fragmentId = some rest → chrColon ∉ rest
  top : ParsedTop top
  text : ∀ text, e.text = some text → ParsedText ctx e.methodString text

theorem uriNewPrivate_lenient (ctx : UriContext Method) {textUri : Bytes} (nonempty : textUri ≠ []) :
    uriNewPrivate ctx textUri true true false =
      some (parseToplevel ctx (getMethodString textUri).1 (getMethodString textUri).2) := by
  simp [uriNewPrivate, nonempty]

theorem uriNewPrivate_parsed (ctx : UriContext Method) {textUri : Bytes} {e : Element Method}
    {top : Toplevel} (proper : (0 : UInt8) ∉ textUri)
    (parsed : uriNewPrivate ctx textUri true true false = some (.toplevel e top)) :
    ParsedUri ctx e top := by
  have nonempty : textUri ≠ [] := by
    rintro rfl
    simp [uriNewPrivate] at parsed
  rw [uriNewPrivate_lenient ctx nonempty, Option.some.injEq] at parsed
  obtain ⟨scheme, method, fragment, body, after, rfl, stored⟩ := parseToplevel_spec ctx parsed
  obtain ⟨noHash, inside⟩ := splitExtension_body (getMethodString textUri).2
  have properBody : (0 : UInt8) ∉ (splitExtension (getMethodString textUri).2).1 := fun member =>
    proper ((getMethodString_suffix textUri).subset (inside.subset member))
  obtain ⟨topParsed, textParsed⟩ :=
    setUriElement_parsed ctx (getMethodString textUri).1 after properBody noHash
  rw [← stored] at topParsed textParsed
  refine ⟨scheme ▸ getMethodString_name textUri, scheme ▸ method, fragment, topParsed, ?_⟩
  rw [scheme]
  exact textParsed

theorem HostName.colonsFirst {host : Bytes} (name : HostName host) :
    ColonsFirst (printHost host) := by
  rcases printHost_split name with ⟨same, -, noClose⟩ | ⟨front, back, split, first, behind, -⟩
  · rw [same]
    exact .of_no_close noClose
  · rw [split]
    exact .of_bracket first behind

/-- An `@` that no bracket hides ends user information. -/
theorem hasUserInfo_at {front back : Bytes} (clean : ∀ c ∈ front, c ≠ 0 ∧ c ≠ chrSlash)
    (noAt : chrAt ∉ front) (colons : ColonsFirst front)
    (visible : chrClose ∈ front → chrColon ∈ front) :
    hasUserInfo (front ++ chrAt :: back) = true := by
  have apart : ∀ part, part ⊆ front → ∀ c ∈ part, c ≠ 0 ∧ c ∉ uriDelimiterUser := by
    intro part sub c member
    have := clean c (sub member)
    have other : c ≠ chrAt := by
      rintro rfl
      exact noAt (sub member)
    simp_all [uriDelimiterUser]
  have atSign : ∀ part, part ⊆ front →
      uriStrspnTo (part ++ chrAt :: back) uriDelimiterUser = some (chrAt :: back) := by
    intro part sub
    rw [uriStrspnTo_append (apart part sub), uriStrspnTo_cons (by decide) (by decide)]
  by_cases colon : chrColon ∈ front
  · obtain ⟨before, rest, rfl, first⟩ := List.eq_append_cons_of_mem colon
    have noClose : chrClose ∉ before := by
      intro member
      obtain ⟨left, right, rfl⟩ := List.append_of_mem member
      exact colons left (right ++ chrColon :: rest) (by simp) (by simp)
    have here : uriStrspnTo (before ++ chrColon :: rest ++ chrAt :: back) uriDelimiterAll =
        some (chrColon :: (rest ++ chrAt :: back)) := by
      rw [List.append_assoc, uriStrspnTo_append]
      · exact uriStrspnTo_cons (by decide) (by decide) _
      · exact apart_all (fun c member => clean c (by simp [member])) first (fun member => noAt (by simp [member])) noClose
    have user := atSign (before ++ chrColon :: rest) (List.Subset.refl _)
    have behind := atSign (chrColon :: rest) (by simp)
    rw [List.cons_append] at behind
    have scan : splitScan (before ++ chrColon :: rest ++ chrAt :: back) =
        some (chrColon :: (rest ++ chrAt :: back)) := by
      simp only [splitScan, here, user, pointsAt_cons]
      simp
    rw [hasUserInfo, scan]
    simp [endsUserName, behind]
  · have here : uriStrspnTo (front ++ chrAt :: back) uriDelimiterAll = some (chrAt :: back) := by
      rw [uriStrspnTo_append]
      · exact uriStrspnTo_cons (by decide) (by decide) _
      · exact apart_all clean colon noAt fun member => colon (visible member)
    have scan : splitScan (front ++ chrAt :: back) = some (chrAt :: back) := by
      simp only [splitScan, here, pointsAt_cons]
      simp
    rw [hasUserInfo, scan]
    simp [endsUserName]

/-- A host that is not bare is taken for user information when it is printed alone. -/
theorem hasUserInfo_printHost {host back : Bytes} (name : HostName host)
    (hidden : ¬ HostBare host) : hasUserInfo (printHost host ++ back) = true := by
  simp only [HostBare, not_or, not_not] at hidden
  obtain ⟨atSign, early⟩ := hidden
  obtain ⟨front, rest, split, noAt⟩ := List.eq_append_cons_of_mem (printHost_at.mpr atSign)
  have clean := printHost_clean name
  have colons := name.colonsFirst
  rw [split] at clean colons
  rw [split, List.append_assoc, List.cons_append]
  refine hasUserInfo_at (fun c member => clean c (by simp [member])) noAt
    (colons.of_infix ⟨[], chrAt :: rest, by simp⟩) fun close => ?_
  by_contra noColon
  obtain ⟨left, right, rfl, first⟩ := List.eq_append_cons_of_mem close
  by_cases colon : chrColon ∈ host
  · -- the colon would stand behind the bracket
    have printed : chrColon ∈ printHost host := by
      rw [printHost, if_pos colon]
      simp [colon]
    rw [split, List.mem_append] at printed
    have late := printed.resolve_left noColon
    exact colons left (right ++ chrAt :: rest) (by simp) (by
      rw [List.mem_append]
      exact Or.inr late)
  · rw [printHost, if_neg colon] at split
    have visible : chrAt ∈ host.takeWhile (· != chrClose) := by
      by_contra absent
      exact early ⟨colon, absent⟩
    have clear : ∀ c ∈ left, (c != chrClose) = true := by
      intro c member
      simp only [bne_iff_ne, ne_eq]
      rintro rfl
      exact first member
    rw [split, List.append_assoc, List.takeWhile_append_of_pos clear] at visible
    simp only [List.cons_append, List.takeWhile_cons, bne_self_eq_false, Bool.false_eq_true,
      if_false, List.append_nil] at visible
    exact noAt (by simp [visible])

theorem count_printHost (host : Bytes) : (printHost host).count chrAt = host.count chrAt := by
  rw [printHost]
  split
  · rw [List.count_cons, List.count_append]
    simp
  · rfl

/-- When the printed form stands for the same URI: nothing is left for the normaliser to
remove, the text can stand behind the authority, and the host cannot be taken for user
information. -/
structure Reparses (ctx : UriContext Method) (top : Toplevel) (text : Bytes) : Prop where
  escapes : (removeOptionalEscapes ctx.beyond text).1 = text
  settled : Settled text
  shape : TextAfter top.hostName top.hostPort text ∨ (text ≠ [] ∧ top = .empty)
  bare : top.userName = none → top.password = none → ∀ h, top.hostName = some h → HostBare h

section Reparse

variable {ctx : UriContext Method} {e : Element Method} {top : Toplevel} {text : Bytes}

theorem uriNewPrivate_uriToString (parsed : ParsedUri ctx e top) :
    uriNewPrivate ctx (uriToString .none (.toplevel e top)) true true false =
      some (parseToplevel ctx e.methodString (printBody e top ++ printFragment e.fragmentId .none)) := by
  rw [uriToString_toplevel, uriNewPrivate_lenient ctx (by simp),
    getMethodString_scheme parsed.scheme]

theorem printBody_hash (parsed : ParsedUri ctx e top) : chrHash ∉ printBody e top := by
  have authority := printAuthority_not_mem (by decide) (by decide) (by decide)
    fun h same => (parsed.top.host h same).2
  have bare : chrHash ∉ e.text.getD [] := by
    cases same : e.text with
    | none => simp
    | some text => exact (parsed.text text same).noHash
  rw [printBody, List.mem_append, List.mem_append]
  split <;> simp_all

theorem reparse_eq_iff (parsed : ParsedUri ctx e top) :
    uriNewPrivate ctx (uriToString .none (.toplevel e top)) true true false =
        some (.toplevel e top) ↔
      setUriElement ctx false e.methodString (printBody e top) (fragmentAfter e.fragmentId) =
        (e.text, top) := by
  rw [uriNewPrivate_uriToString parsed,
    parseToplevel_printed ctx e.methodString (printBody_hash parsed) parsed.fragment, ← parsed.method]
  cases e
  simp [Prod.ext_iff]

theorem printAuthority_slash (parsed : ParsedTop top) : chrSlash ∉ printAuthority top .none :=
  printAuthority_not_mem (by decide) (by decide) (by decide)
    fun h same member => ((parsed.host h same).1.clean _ member).2 rfl

theorem printAuthority_proper (parsed : ParsedTop top) (proper : (0 : UInt8) ∉ text) :
    (0 : UInt8) ∉ printAuthority top .none ++ text := by
  have authority := printAuthority_not_mem (d := 0) (by decide) (by decide) (by decide)
    fun h same member => ((parsed.host h same).1.clean _ member).1 rfl
  rw [List.mem_append]
  exact fun member => member.elim authority proper

/-- A host that was read back has not been taken for user information. -/
theorem bare_of_split (parsed : ParsedTop top) (proper : (0 : UInt8) ∉ text) {after : UInt8}
    (start : text = [] ∨ ∃ rest, text = chrSlash :: rest)
    (same : (splitToplevelUri (printAuthority top .none ++ text) after).host = top.hostName)
    (noUser : top.userName = none) (noPassword : top.password = none) {h : Bytes}
    (named : top.hostName = some h) : HostBare h := by
  by_contra hidden
  have name := (parsed.host h named).1
  have path : printAuthority top .none ++ text =
      printHost h ++ (printPort top.hostPort ++ text) := by
    simp [printAuthority_none, printUserInfo, noUser, noPassword, named, hostText]
  have properPath := printAuthority_proper parsed proper
  have tail : HostTail (printPort top.hostPort) text := ⟨
    (@printPort_tail top.hostPort (some []) _ (Or.inl ⟨[], rfl⟩)).portHead,
    (@printPort_tail top.hostPort (some []) _ (Or.inl ⟨[], rfl⟩)).portClean, start⟩
  have scanned : hasUserInfo (printAuthority top .none ++ text) = true := by
    rw [path]
    exact hasUserInfo_printHost name hidden
  have fewer := (splitToplevelUri_parsed properPath after).2.2 scanned h (same.trans named)
  have clear : ∀ c ∈ printHost h ++ printPort top.hostPort, (c != chrSlash) = true := by
    intro c member
    simp only [bne_iff_ne, ne_eq]
    rintro rfl
    rcases List.mem_append.mp member with inHost | inPort
    · exact (printHost_clean name _ inHost).2 rfl
    · exact (tail.portClean _ inPort).2.2.2 rfl
  have stopped : text.takeWhile (· != chrSlash) = [] := by
    rcases start with rfl | ⟨rest, rfl⟩ <;> simp
  have portClear : (printPort top.hostPort).count chrAt = 0 := by
    rw [List.count_eq_zero]
    exact fun member => (tail.portClean _ member).2.1 rfl
  rw [path, ← List.append_assoc, List.takeWhile_append_of_pos clear, stopped, List.append_nil,
    List.count_append, portClear, count_printHost] at fewer
  omega

theorem printable_of_reparses (parsed : ParsedTop top) (shape : TextAfter top.hostName top.hostPort text)
    (bare : top.userName = none → top.password = none → ∀ h, top.hostName = some h → HostBare h) :
    Printable top text where
  user := parsed.user
  password := parsed.password
  host := fun h same => (parsed.host h same).1
  port := parsed.port
  hostless := parsed.hostless
  text := shape
  bare := bare

/-- A text that does not start with a slash is not read back behind an authority. -/
theorem relative_not_split (parsed : ParsedTop top) {scheme : Bytes}
    (known : ParsedText ctx scheme text) (nonempty : text ≠ [])
    (relative : ¬ ∃ rest, text = chrSlash :: rest) {after : UInt8} :
    (splitToplevelUri (printAuthority top .none ++ text) after).text.map
      (normalizeText ctx scheme) ≠ some text := by
  intro same
  obtain ⟨raw, stored, normal⟩ := Option.map_eq_some_iff.mp same
  have noSlash := printAuthority_slash parsed
  have proper := printAuthority_proper parsed known.proper
  rcases ((splitToplevelUri_parsed proper after).2.1 raw stored).1 with rfl | rfl | ⟨suffix, rest, rfl⟩
  · rw [normalizeText_nil] at normal
    exact nonempty normal.symm
  · rw [normalizeText_root] at normal
    exact relative ⟨[], normal.symm⟩
  · -- the slash that the text is cut at lies inside the old text, so the new one is shorter
    obtain ⟨front, whole⟩ := suffix
    have inside : ∃ before, before ≠ [] ∧ text = before ++ chrSlash :: rest := by
      rcases List.append_eq_append_iff.mp whole with ⟨more, split, tail⟩ | ⟨more, -, tail⟩
      · cases more with
        | nil => exact absurd ⟨rest, by simpa using tail.symm⟩ relative
        | cons c more =>
          simp only [List.cons_append, List.cons.injEq] at tail
          refine absurd ?_ noSlash
          rw [split, tail.1]
          simp
      · refine ⟨more, ?_, tail⟩
        rintro rfl
        exact relative ⟨rest, by simpa using tail⟩
    obtain ⟨before, present, split⟩ := inside
    have escaped : EscapedText scheme (chrSlash :: rest) := fun applies c member there =>
      known.escaped applies c member (by rw [split]; simp [there])
    have shorter := normalizeText_length ctx scheme escaped
    have positive : 0 < before.length := List.length_pos_iff.mpr present
    rw [normal, split] at shorter
    simp only [List.length_append] at shorter
    omega

theorem setUriElement_slashes (scheme rest : Bytes) (after : UInt8) :
    setUriElement ctx false scheme (chrSlash :: chrSlash :: rest) after =
      ((splitToplevelUri rest after).text.map (normalizeText ctx scheme),
        (splitToplevelUri rest after).top) := by
  simp [setUriElement, SplitUri.top]

theorem setUriElement_relative (scheme : Bytes) {body : Bytes} (after : UInt8) (nonempty : body ≠ [])
    (relative : body.head? ≠ some chrSlash) :
    setUriElement ctx false scheme body after = (some (normalizeText ctx scheme body), .empty) := by
  have notSlashes : body.take 2 ≠ [chrSlash, chrSlash] := by
    cases body with
    | nil => simp
    | cons c rest => simp_all
  simp [setUriElement, nonempty, notSlashes]

theorem reparses_of_split (parsed : ParsedUri ctx e top) (present : e.text = some text)
    (same : setUriElement ctx false e.methodString (printBody e top) (fragmentAfter e.fragmentId) =
      (some text, top)) : Reparses ctx top text := by
  have known := parsed.text text present
  have fixed := normalizeText_eq_self ctx e.methodString known.escaped known.proper
  by_cases shown : printsSlashes e top = true
  · have body : printBody e top = chrSlash :: chrSlash :: (printAuthority top .none ++ text) := by
      simp [printBody, shown, present]
    rw [body, setUriElement_slashes, Prod.mk.injEq] at same
    obtain ⟨sameText, sameTop⟩ := same
    have start : text = [] ∨ ∃ rest, text = chrSlash :: rest := by
      by_contra relative
      rw [not_or] at relative
      exact relative_not_split parsed.top known relative.1 relative.2 sameText
    have sameHost := congrArg Toplevel.hostName sameTop
    have bare := fun noUser noPassword h named => bare_of_split (h := h) parsed.top known.proper start
      sameHost noUser noPassword named
    have shape : TextAfter top.hostName top.hostPort text := by
      rcases start with rfl | absolute
      · obtain ⟨raw, stored, normal⟩ := Option.map_eq_some_iff.mp sameText
        have proper := printAuthority_proper parsed.top known.proper
        obtain ⟨origin, after⟩ := (splitToplevelUri_parsed proper _).2.1 raw stored
        rcases origin with rfl | rfl | ⟨suffix, rest, rfl⟩
        · rw [← sameTop]
          exact after
        · rw [normalizeText_root] at normal
          exact absurd normal (by simp)
        · have := suffix.subset (List.mem_cons_self ..)
          exact absurd (by simpa using this) (printAuthority_slash parsed.top)
      · exact Or.inl absolute
    have split := splitToplevelUri_printed (printable_of_reparses parsed.top shape bare)
      (fragmentAfter e.fragmentId)
    rw [split, Option.map_some, Option.some.injEq, fixed] at sameText
    exact ⟨sameText.1, sameText.2, Or.inl shape, bare⟩
  · have hidden : top.userName = none ∧ top.hostName = none ∧ text.head? ≠ some chrSlash := by
      simpa [printsSlashes, present, not_or, and_assoc] using shown
    obtain ⟨noUser, noHost, relative⟩ := hidden
    have authority : printAuthority top .none = printUserInfo none top.password := by
      simp [printAuthority_none, noUser, noHost, hostText, parsed.top.hostless noHost, printPort]
    have body : printBody e top = printUserInfo none top.password ++ text := by
      simp [printBody, shown, present, authority]
    rw [body] at same
    by_cases nonempty : printUserInfo none top.password ++ text = []
    · obtain ⟨-, rfl⟩ := List.append_eq_nil_iff.mp nonempty
      rw [nonempty, setUriElement, if_pos rfl, Prod.mk.injEq] at same
      exact absurd same.1 (by simp)
    · have notSlash : (printUserInfo none top.password ++ text).head? ≠ some chrSlash := by
        cases top.password with
        | none => simpa [printUserInfo] using relative
        | some p => simp [printUserInfo]
      rw [setUriElement_relative _ _ nonempty notSlash, Prod.mk.injEq] at same
      obtain ⟨sameText, rfl⟩ := same
      simp only [Toplevel.empty, printUserInfo, Option.map_none, Option.getD_none, List.nil_append,
        Option.isSome_none, Bool.or_self, Bool.false_eq_true, if_false, Option.some.injEq]
        at sameText nonempty
      rw [fixed] at sameText
      exact ⟨sameText.1, sameText.2, Or.inr ⟨nonempty, rfl⟩, by simp [Toplevel.empty]⟩

theorem split_of_reparses (parsed : ParsedUri ctx e top) (present : e.text = some text)
    (stable : Reparses ctx top text) :
    setUriElement ctx false e.methodString (printBody e top) (fragmentAfter e.fragmentId) =
      (some text, top) := by
  have known := parsed.text text present
  have normal : normalizeText ctx e.methodString text = text :=
    (normalizeText_eq_self ctx e.methodString known.escaped known.proper).mpr
      ⟨stable.escapes, stable.settled⟩
  by_cases shape : TextAfter top.hostName top.hostPort text
  · have shown : printsSlashes e top = true := by
      rcases shape with ⟨rest, rfl⟩ | ⟨-, host, -⟩
      · simp [printsSlashes, present]
      · simp [printsSlashes, Option.isSome_iff_ne_none.mpr host]
    have body : printBody e top = chrSlash :: chrSlash :: (printAuthority top .none ++ text) := by
      simp [printBody, shown, present]
    rw [body, setUriElement_printed ctx e.methodString
      (printable_of_reparses parsed.top shape stable.bare), normal]
  · obtain ⟨nonempty, rfl⟩ := stable.shape.resolve_left shape
    have relative : text.head? ≠ some chrSlash := by
      intro slash
      cases text with
      | nil => exact nonempty rfl
      | cons c rest => exact shape (Or.inl ⟨rest, by simpa using slash⟩)
    have body : printBody e .empty = text := by
      simp [printBody, printsSlashes, present, Toplevel.empty, printAuthority, printUserInfo,
        printPort, HideOptions.none, relative]
    rw [body, setUriElement_relative _ _ nonempty relative, normal]

end Reparse

/-- Parsing what was printed for a parsed URI gives the URI back, and its canonical form is
canonical, exactly for the URIs that satisfy `Reparses`. -/
theorem uriNewPrivate_reparse_iff (ctx : UriContext Method) (textUri : Bytes) (e : Element Method)
    (top : Toplevel) (text : Bytes) (proper : (0 : UInt8) ∉ textUri)
    (parsed : uriNewPrivate ctx textUri true true false = some (.toplevel e top))
    (present : e.text = some text) :
    (uriNewPrivate ctx (uriToString .none (.toplevel e top)) true true false =
        some (.toplevel e top) ∧
      (makeUriCanonicalOld ctx textUri).bind (makeUriCanonicalOld ctx) =
        makeUriCanonicalOld ctx textUri) ↔ Reparses ctx top text := by
  have known := uriNewPrivate_parsed ctx proper parsed
  have reparse := reparse_eq_iff known
  rw [present] at reparse
  constructor
  · rintro ⟨same, -⟩
    exact reparses_of_split known present (reparse.mp same)
  · intro stable
    have same := reparse.mpr (split_of_reparses known present stable)
    refine ⟨same, ?_⟩
    simp only [makeUriCanonicalOld, parsed, Option.map_some, Option.bind_some, same]

theorem uriNewPrivate_reparse_iff_address :
    (uriNewPrivate plainContext (uriToString .none (.toplevel
          ⟨some (ascii "/b"), some (ascii "top"), ascii "ftp", some ()⟩
          ⟨some (ascii "::1"), 21, some (ascii "joe"), none⟩)) true true false =
        some (.toplevel ⟨some (ascii "/b"), some (ascii "top"), ascii "ftp", some ()⟩
          ⟨some (ascii "::1"), 21, some (ascii "joe"), none⟩) ∧
      (makeUriCanonicalOld plainContext (ascii "FTP://joe@[::1]:21/a/../b#top")).bind
          (makeUriCanonicalOld plainContext) =
        makeUriCanonicalOld plainContext (ascii "FTP://joe@[::1]:21/a/../b#top")) ↔
      Reparses plainContext ⟨some (ascii "::1"), 21, some (ascii "joe"), none⟩ (ascii "/b") :=
  uriNewPrivate_reparse_iff plainContext (ascii "FTP://joe@[::1]:21/a/../b#top") _ _ _ (by decide)
    (by decide +kernel) rfl

/-- `..` removes the slash in front of the text, and the text becomes part of the port. -/
theorem uriNewPrivate_reparse_loses_host :
    ∃ e top, uriNewPrivate plainContext (ascii "http://h:80/../x") true true false =
        some (.toplevel e top) ∧ e.text = some (ascii "x") ∧
      uriNewPrivate plainContext (uriToString .none (.toplevel e top)) true true false ≠
        some (.toplevel e top) ∧
      (makeUriCanonicalOld plainContext (ascii "http://h:80/../x")).bind
          (makeUriCanonicalOld plainContext) ≠
        makeUriCanonicalOld plainContext (ascii "http://h:80/../x") :=
  ⟨⟨some (ascii "x"), none, ascii "http", some ()⟩, ⟨some (ascii "h"), 80, none, none⟩,
    by decide +kernel⟩

end GnomeVfs
