import GnomeVfs.UriAuthority

/- Parsing what `gnome_vfs_uri_to_string` printed. -/
namespace GnomeVfs

variable {Method : Type}

/-- The names that `get_method_string` returns. -/
structure SchemeName (scheme : Bytes) : Prop where
  chars : ∀ c ∈ scheme, isMethodChar c = true
  lower : ∀ c ∈ scheme, isUpper c = false

theorem getMethodString_strdown {scheme : Bytes} (method : ∀ c ∈ scheme, isMethodChar c = true) (rest : Bytes) :
    getMethodString (scheme ++ chrColon :: rest) = (strdown scheme, rest) := by
  have stop : isMethodChar chrColon = false := by decide
  have dropped : (scheme ++ chrColon :: rest).dropWhile isMethodChar = chrColon :: rest := by
    rw [List.dropWhile_append_of_pos method, List.dropWhile_cons, stop]
    simp
  have taken : (scheme ++ chrColon :: rest).takeWhile isMethodChar = scheme := by
    rw [List.takeWhile_append_of_pos method, List.takeWhile_cons, stop]
    simp
  rw [getMethodString, dropped, taken]
  simp

theorem getMethodString_scheme {scheme : Bytes} (name : SchemeName scheme) (rest : Bytes) :
    getMethodString (scheme ++ chrColon :: rest) = (scheme, rest) := by
  rw [getMethodString_strdown name.chars, strdown_of_lower name.lower]

theorem getMethodString_suffix (s : Bytes) : (getMethodString s).2 <:+ s := by
  rw [getMethodString]
  split
  · rename_i c rest behind
    split
    · exact (List.suffix_cons c rest).trans (behind ▸ List.dropWhile_suffix _)
    · exact List.suffix_refl _
  · exact List.suffix_refl _

/-- The byte behind the body of a printed element. -/
def fragmentAfter (fragment : Option Bytes) : UInt8 := if fragment.isSome then chrHash else 0

theorem splitExtension_printed {body : Bytes} (clear : chrHash ∉ body) (fragment : Option Bytes) :
    splitExtension (body ++ printFragment fragment .none) =
      (body, fragmentAfter fragment, fragment) := by
  have apart : ∀ c ∈ body, (c == chrHash) = false := by
    intro c member
    simp only [beq_eq_false_iff_ne, ne_eq]
    rintro rfl
    exact clear member
  cases fragment with
  | none =>
    have absent : strchr body chrHash = none := (scanTo_eq_none _).mpr apart
    simp [printFragment, splitExtension, absent, fragmentAfter]
  | some rest =>
    have found : strchr (body ++ chrHash :: rest) chrHash = some (chrHash :: rest) := by
      rw [strchr, scanTo_append_of_clear _ apart, scanTo_cons_of_pos _ (by simp)]
    simp only [printFragment, HideOptions.none, Bool.false_eq_true, if_false, Option.map_some,
      Option.getD_some, splitExtension, found, strdupTo_append]
    rfl

theorem parseToplevel_printed (ctx : UriContext Method) (scheme : Bytes) {body : Bytes}
    {fragment : Option Bytes} (clear : chrHash ∉ body)
    (unchained : ∀ rest, fragment = some rest → chrColon ∉ rest) :
    parseToplevel ctx scheme (body ++ printFragment fragment .none) =
      .toplevel ⟨(setUriElement ctx false scheme body (fragmentAfter fragment)).1, fragment, scheme,
          ctx.methodGet scheme⟩
        (setUriElement ctx false scheme body (fragmentAfter fragment)).2 := by
  rw [parseToplevel, splitExtension_printed clear]
  cases fragment with
  | none => rfl
  | some rest =>
    have noColon := unchained rest rfl
    simp only [if_pos noColon]

/-- What is printed between the method and the fragment. -/
def printBody (e : Element Method) (top : Toplevel) : Bytes :=
  (if printsSlashes e top then [chrSlash, chrSlash] else []) ++
    (printAuthority top .none ++ e.text.getD [])

theorem uriToString_toplevel (e : Element Method) (top : Toplevel) :
    uriToString .none (.toplevel e top) =
      e.methodString ++ chrColon :: (printBody e top ++ printFragment e.fragmentId .none) := by
  simp [uriToString, printBody, HideOptions.none]

/-- A byte that neither an escaped string nor a number holds is in the authority only if
it is one of its own delimiters or in the host. -/
theorem printAuthority_not_mem {top : Toplevel} {d : UInt8} (escaped : isEscapedByte d = false)
    (digit : isDigit d = false) (delimiter : d ∉ [chrColon, chrAt, chrOpen, chrClose])
    (host : ∀ h, top.hostName = some h → d ∉ h) : d ∉ printAuthority top .none := by
  have field : ∀ f : Option Bytes, d ∉ fieldText f := by
    intro f member
    cases f with
    | none => simp [fieldText] at member
    | some s => simp [escapeString_escaped s d member] at escaped
  have info : d ∉ printUserInfo top.userName top.password := by
    by_cases some_user : top.userName ≠ none ∨ top.password ≠ none
    · have user := field top.userName
      have password := field top.password
      rcases printUserInfo_cases some_user with ⟨-, printed⟩ | ⟨p, -, printed⟩ <;>
        rw [printed] <;> simp_all
    · have absent : top.userName = none ∧ top.password = none := by
        simpa [not_or] using some_user
      simp [printUserInfo, absent.1, absent.2]
  have name : d ∉ hostText top.hostName := by
    cases same : top.hostName with
    | none => simp [hostText]
    | some h =>
      have := host h same
      simp only [hostText, Option.map_some, Option.getD_some, printHost]
      split <;> simp_all
  have port : d ∉ printPort top.hostPort := by
    rw [printPort]
    split
    · intro member
      rcases List.mem_cons.mp member with rfl | inside
      · exact delimiter (by simp)
      · simp [decimal_isDigit _ _ inside] at digit
    · simp
  rw [printAuthority_none, List.mem_append, List.mem_append]
  exact fun member => member.elim info (Or.elim · name port)

theorem setUriElement_printed (ctx : UriContext Method) (scheme : Bytes) {top : Toplevel}
    {text : Bytes} (printable : Printable top text) (after : UInt8) :
    setUriElement ctx false scheme (chrSlash :: chrSlash :: (printAuthority top .none ++ text)) after =
      (some (normalizeText ctx scheme text), top) := by
  simp [setUriElement, splitToplevelUri_printed printable after]

theorem parseToplevel_printBody (ctx : UriContext Method) {e : Element Method} {top : Toplevel}
    {text : Bytes} (present : e.text = some text) (printable : Printable top text)
    (shown : printsSlashes e top = true) (host : ∀ h, top.hostName = some h → chrHash ∉ h)
    (clear : chrHash ∉ text) (unchained : ∀ rest, e.fragmentId = some rest → chrColon ∉ rest) :
    parseToplevel ctx e.methodString (printBody e top ++ printFragment e.fragmentId .none) =
      .toplevel ⟨some (normalizeText ctx e.methodString text), e.fragmentId, e.methodString,
        ctx.methodGet e.methodString⟩ top := by
  have body : printBody e top = chrSlash :: chrSlash :: (printAuthority top .none ++ text) := by
    simp [printBody, shown, present]
  have hashes : chrHash ∉ printBody e top := by
    rw [body]
    have := printAuthority_not_mem (d := chrHash) (by decide) (by decide) (by decide) host
    simp_all
  rw [parseToplevel_printed ctx e.methodString hashes unchained, body,
    setUriElement_printed ctx e.methodString printable]

theorem uriNew_scheme (ctx : UriContext Method) {scheme : Bytes} (name : SchemeName scheme)
    (safe : scheme ≠ ascii "pipe") (registered : (ctx.methodGet scheme).isSome = true)
    (untransformed : ctx.transformGet scheme = none) (rest : Bytes) :
    uriNew ctx (scheme ++ chrColon :: rest) = some (parseToplevel ctx scheme rest) := by
  have nonempty : scheme ++ chrColon :: rest ≠ [] := by simp
  have known : ctx.methodGet scheme ≠ none := Option.isSome_iff_ne_none.mp registered
  simp only [uriNew, uriNewPrivate, if_neg nonempty, getMethodString_scheme name, applyTransform,
    untransformed]
  simp [safe, known]

/-- A host without brackets and `@` is a name the printer can put out bare. -/
theorem hostName_of_chars {host : Bytes} (nonempty : host ≠ [])
    (chars : ∀ c ∈ host, c ≠ 0 ∧ isUpper c = false ∧
      c ∉ [chrSlash, chrAt, chrHash, chrOpen, chrClose]) : HostName host ∧ HostBare host := by
  refine ⟨⟨nonempty, ?_, fun c member => (chars c member).2.1, ?_⟩, Or.inl ?_⟩
  · intro c member
    have := chars c member
    simp_all
  · rintro front back rfl
    exact absurd (by simp) (chars chrClose (by simp)).2.2
  · intro member
    exact absurd (by simp) (chars chrAt member).2.2

/-- Printing a toplevel URI and parsing the text yields the URI again. The scheme is
registered and has no transform; the authority may hold any user name and password, and any
host without the delimiters of the authority. -/
theorem uriNew_uriToString (ctx : UriContext Method) (e : Element Method) (top : Toplevel)
    (text : Bytes) (scheme : SchemeName e.methodString) (safe : e.methodString ≠ ascii "pipe")
    (registered : (ctx.methodGet e.methodString).isSome = true)
    (untransformed : ctx.transformGet e.methodString = none)
    (unfragmented : e.fragmentId = none) (present : e.text = some text)
    (user : ∀ u, top.userName = some u → u ≠ [] ∧ (0 : UInt8) ∉ u)
    (password : ∀ p, top.password = some p → p ≠ [] ∧ (0 : UInt8) ∉ p)
    (host : ∀ h, top.hostName = some h → h ≠ [] ∧ ∀ c ∈ h, c ≠ 0 ∧ isUpper c = false ∧
      c ∉ [chrSlash, chrAt, chrHash, chrOpen, chrClose])
    (port : top.hostPort ≤ 65535) (hostless : top.hostName = none → top.hostPort = 0)
    (absolute : ∃ rest, text = chrSlash :: rest) (clear : chrHash ∉ text)
    (normal : normalizeText ctx e.methodString text = text) :
    uriNew ctx (uriToString .none (.toplevel e top)) =
      some (.toplevel { e with method := ctx.methodGet e.methodString } top) := by
  have name := fun h same => hostName_of_chars (host h same).1 (host h same).2
  have printable : Printable top text := {
    user := user
    password := password
    host := fun h same => (name h same).1
    port := port
    hostless := hostless
    text := Or.inl absolute
    bare := fun _ _ h same => (name h same).2 }
  have shown : printsSlashes e top = true := by
    obtain ⟨rest, rfl⟩ := absolute
    simp [printsSlashes, present]
  have noHash : ∀ h, top.hostName = some h → chrHash ∉ h := by
    intro h same member
    exact absurd (by simp) ((host h same).2 chrHash member).2.2
  rw [uriToString_toplevel, uriNew_scheme ctx scheme safe registered untransformed,
    parseToplevel_printBody ctx present printable shown noHash clear (by simp [unfragmented]),
    normal, ← present]

/-- Every method registered, no transforms. -/
def plainContext : UriContext Unit := ⟨fun _ => some (), fun _ => none, fun _ => .control⟩

end GnomeVfs
