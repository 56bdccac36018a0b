import GnomeVfs.CanonicalizeCase
import GnomeVfs.CanonicalizeRoot

/- `gnome_vfs_make_uri_canonical` on a path and on the path behind `file://`. -/
namespace GnomeVfs

variable {c : UInt8}

section Plain

/-- The bytes of the paths: unreserved characters, `:` and `/`. -/
def isPlain (c : UInt8) : Bool :=
  c = chrColon || c = chrSlash || (c < 128 && uriCharacterKindTable.getD c.toNat .control == .unreserved)

theorem plain_not_mem {text : Bytes} (plain : ∀ c ∈ text, isPlain c = true) {d : UInt8} (other : isPlain d = false) :
    d ∉ text := by
  intro member
  rw [plain d member] at other
  cases other

theorem isPlain_legal (plain : isPlain c = true) (beyond : UInt8 → CharacterKind) :
    ¬ (127 < c ∨ uriCharacterKind beyond c = .delimiters ∨ uriCharacterKind beyond c = .unwise ∨
      uriCharacterKind beyond c = .control) := by
  rw [isPlain, Bool.or_eq_true, Bool.or_eq_true, decide_eq_true_eq, decide_eq_true_eq, Bool.and_eq_true,
    decide_eq_true_eq, beq_iff_eq] at plain
  rcases plain with (rfl | rfl) | ⟨low, unreserved⟩
  · rw [uriCharacterKind, if_pos (by decide)]
    decide
  · rw [uriCharacterKind, if_pos (by decide)]
    decide
  · rw [uriCharacterKind, if_pos low, unreserved]
    have := UInt8.lt_iff_toNat_lt.mp low
    simp [UInt8.lt_iff_toNat_lt]
    exact Nat.lt_succ_iff.mp this

theorem removeOptionalEscapes_plain (beyond : UInt8 → CharacterKind) {text : Bytes}
    (plain : ∀ c ∈ text, isPlain c = true) : (removeOptionalEscapes beyond text).1 = text := by
  induction text with
  | nil => rfl
  | cons c rest ih =>
    have first := plain c (List.mem_cons_self ..)
    have percent : c ≠ chrPercent := by
      rintro rfl
      exact absurd first (by decide)
    rw [removeOptionalEscapes.eq_def]
    dsimp only
    rw [if_neg percent, if_neg (isPlain_legal first beyond)]
    dsimp only
    rw [ih fun d member => plain d (List.mem_cons_of_mem _ member)]

variable {Method : Type} (ctx : UriContext Method)

theorem normalizeText_plain {text : Bytes} (plain : ∀ c ∈ text, isPlain c = true) :
    normalizeText ctx (ascii "file") text = canonicalizePathname text := by
  have other : ascii "file" ∉ unescapedMethods := by decide
  have reserved : ∀ d ∈ escapedCharacters, isPlain d = false := by decide
  rw [normalizeText, if_neg other, escapeSet_of_clear fun d member => plain_not_mem plain (reserved d member),
    removeOptionalEscapes_plain ctx.beyond plain]

end Plain

section Printed

variable {Method : Type} (ctx : UriContext Method)

/-- The URI of a path. -/
def pathUri (path : Bytes) : Bytes := ascii "file:" ++ ((if isRooted path then [chrSlash, chrSlash] else []) ++ path)

theorem pathUri_inj {path other : Bytes} : pathUri path = pathUri other ↔ path = other := by
  have rooted : ∀ {path other : Bytes}, isRooted path = true → isRooted other = false → pathUri path ≠ pathUri other := by
    intro path other absolute relative same
    rw [pathUri, pathUri, if_pos absolute, relative, List.append_cancel_left_eq, if_neg Bool.false_ne_true,
      List.nil_append] at same
    rw [← same] at relative
    cases relative
  refine ⟨fun same => ?_, congrArg pathUri⟩
  by_cases first : isRooted path = true
  · by_cases second : isRooted other = true
    · rw [pathUri, pathUri, if_pos first, if_pos second] at same
      simpa using same
    · exact absurd same (rooted first (Bool.eq_false_iff.mpr second))
  · by_cases second : isRooted other = true
    · exact absurd same.symm (rooted second (Bool.eq_false_iff.mpr first))
    · rw [pathUri, pathUri, if_neg first, if_neg second] at same
      simpa using same

theorem fileSlashes_pathUri (path : Bytes) : fileSlashes (pathUri path) = pathUri path := by
  rw [fileSlashes]
  refine if_neg ?_
  rintro ⟨two, three⟩
  rw [Bool.not_eq_true', Bool.eq_false_iff, ne_eq, List.isPrefixOf_iff_prefix] at three
  rw [List.isPrefixOf_iff_prefix] at two
  by_cases rooted : isRooted path = true
  · obtain ⟨rest, rfl⟩ := isRooted_iff.mp rooted
    exact three ⟨rest, rfl⟩
  · rw [pathUri, if_neg rooted, List.nil_append] at two
    have slashes : [chrSlash, chrSlash] <+: path := (List.prefix_append_right_inj (ascii "file:")).mp two
    obtain ⟨rest, rfl⟩ := slashes
    exact rooted rfl

theorem makeUriCanonicalOld_file {text body : Bytes} (nonempty : text ≠ []) (clear : chrHash ∉ body)
    (method : getMethodString text = (ascii "file", body)) :
    makeUriCanonicalOld ctx text = some (uriToString .none
      (.toplevel ⟨(setUriElement ctx false (ascii "file") body 0).1, none, ascii "file", ctx.methodGet (ascii "file")⟩
        (setUriElement ctx false (ascii "file") body 0).2)) := by
  have parsed := @parseToplevel_printed Method ctx (ascii "file") body none clear (by simp)
  rw [printFragment, Option.map_none, Option.getD_none, ite_self, List.append_nil] at parsed
  rw [makeUriCanonicalOld, uriNewPrivate_lenient ctx nonempty, method, Option.map_some, parsed]
  rfl

theorem uriToString_path (path : Bytes) :
    uriToString .none (.toplevel ⟨some path, none, ascii "file", ctx.methodGet (ascii "file")⟩ .empty) = pathUri path := by
  have shown : @printsSlashes Method ⟨some path, none, ascii "file", ctx.methodGet (ascii "file")⟩ .empty =
      isRooted path := by
    cases path with
    | nil => rfl
    | cons c rest => simp [printsSlashes, isRooted, Toplevel.empty, Bool.beq_eq_decide_eq]
  have colon : ascii "file:" = ascii "file" ++ [chrColon] := by decide
  rw [uriToString_toplevel, printBody, shown, pathUri, colon]
  simp [printAuthority, Toplevel.empty, printUserInfo, printPort, HideOptions.none, printFragment]

end Printed

variable {front : Bytes}

section Handled

variable {before : UInt8} {core : Bytes} {n : Nat}

theorem isLocalScheme_slash (rest : Bytes) : isLocalScheme (chrSlash :: rest) = false := rfl

theorem isLocalScheme_file (rest : Bytes) : isLocalScheme (ascii "file:" ++ rest) = true := by
  rw [isLocalScheme, localSchemes, List.any_cons, istrHasPrefix_append, Bool.true_or]

/-- What is left of a path behind `file://`. -/
def localPath (core : Bytes) (n : Nat) : Bytes :=
  if core = [] then [chrSlash]
  else if core.getLast? = some chrColon then core ++ List.replicate (min n 3) chrSlash
  else core

theorem exists_last (nonempty : core ≠ []) (last : core.getLast? ≠ some chrSlash) :
    ∃ front c, core = front ++ [c] ∧ c ≠ chrSlash := by
  rcases List.eq_nil_or_concat core with rfl | ⟨front, c, rfl⟩
  · exact absurd rfl nonempty
  · rw [List.concat_eq_append] at last ⊢
    refine ⟨front, c, rfl, ?_⟩
    rintro rfl
    exact last List.getLast?_concat

theorem segments_getLast (nonempty : core ≠ []) (last : core.getLast? ≠ some chrSlash) : (segments core).getLast? ≠ some [] := by
  obtain ⟨front, c, rfl, other⟩ := exists_last nonempty last
  obtain ⟨part, ends⟩ := segments_concat other front
  rw [ends]
  simp

theorem handleTrailingSlashes_last (long : 2 < front.length + 1 + n) (other : c ≠ chrSlash) :
    handleTrailingSlashes before (front ++ c :: List.replicate n chrSlash) =
      some (front ++ c :: if n = 0 then [] else if c = chrColon then List.replicate (min n 3) chrSlash
        else if isLocalScheme (front ++ c :: List.replicate n chrSlash) then [] else [chrSlash]) := by
  have length : ¬ (front ++ c :: List.replicate n chrSlash).length ≤ 2 := by
    rw [List.length_append, List.length_cons, List.length_replicate]
    omega
  rw [handleTrailingSlashes, if_neg length]
  cases n with
  | zero =>
    have flags : (front ++ c :: List.replicate 0 chrSlash).foldl SlashFlags.step .start = ⟨c = chrColon, false, false⟩ := by
      rw [List.replicate_zero, List.foldl_append, List.foldl_cons, List.foldl_nil, step_other other]
    rw [flags]
    rfl
  | succ n =>
    have back : (front ++ c :: List.replicate (n + 1) chrSlash).reverse =
        List.replicate (n + 1) chrSlash ++ c :: front.reverse := by
      simp
    rw [flags_slashes front other, back, if_neg (Nat.succ_ne_zero n)]
    by_cases colon : c = chrColon
    · subst colon
      rw [removeSlashesButThree_slashes]
      simp
    · rw [if_neg colon, decide_eq_true colon, decide_eq_false colon, removeSlashes_slashes other,
        removeSlashesButOne_slashes other]
      by_cases scheme : isLocalScheme (front ++ c :: List.replicate (n + 1) chrSlash) = true
      · rw [if_pos scheme]
        simp [scheme]
      · rw [if_neg scheme]
        simp [scheme]

theorem handleTrailingSlashes_file (last : core.getLast? ≠ some chrSlash) (absolute : core = [] → n ≠ 0) :
    handleTrailingSlashes before (ascii "file://" ++ (core ++ List.replicate n chrSlash)) =
      some (ascii "file://" ++ localPath core n) := by
  by_cases empty : core = []
  · have colon : ascii "file://" = ascii "file" ++ chrColon :: List.replicate 2 chrSlash := by decide
    have long : 2 < (ascii "file").length + 1 + (2 + n) := by
      have : (ascii "file").length = 4 := rfl
      omega
    rw [localPath, if_pos empty, empty, List.nil_append, colon, List.append_assoc, List.cons_append, ← List.replicate_add,
      handleTrailingSlashes_last long (by decide)]
    have some_slashes : 2 + n ≠ 0 := by omega
    have three : min (2 + n) 3 = 2 + 1 := by
      have := absolute empty
      omega
    rw [if_neg some_slashes, if_pos rfl, three, List.replicate_add]
    rfl
  · obtain ⟨front, c, rfl, other⟩ := exists_last empty last
    have scheme : isLocalScheme ((ascii "file://" ++ front) ++ c :: List.replicate n chrSlash) = true := by
      have colon : ascii "file://" = ascii "file:" ++ ascii "//" := by decide
      rw [colon, List.append_assoc, List.append_assoc, isLocalScheme_file]
    have shape : ascii "file://" ++ ((front ++ [c]) ++ List.replicate n chrSlash) =
        (ascii "file://" ++ front) ++ c :: List.replicate n chrSlash := by
      simp
    have long : 2 < (ascii "file://" ++ front).length + 1 + n := by
      have : (ascii "file://").length = 7 := rfl
      rw [List.length_append]
      omega
    rw [shape, handleTrailingSlashes_last long other, scheme, localPath, if_neg empty, List.getLast?_concat]
    by_cases colon : c = chrColon
    · rw [colon, if_pos rfl, if_pos rfl]
      by_cases none : n = 0
      · simp [none]
      · simp [none]
    · rw [if_neg fun same => colon (Option.some.inj same), if_neg colon]
      simp

/-- What is left of the path alone. -/
theorem handleTrailingSlashes_path (last : core.getLast? ≠ some chrSlash) (absolute : core.head? = some chrSlash) :
    handleTrailingSlashes before (core ++ List.replicate n chrSlash) =
      some (if n ≠ 0 ∧ core.getLast? ≠ some chrColon then core ++ [chrSlash] else localPath core n) := by
  have nonempty : core ≠ [] := by
    rintro rfl
    cases absolute
  obtain ⟨front, c, rfl, other⟩ := exists_last nonempty last
  have some_front : front ≠ [] := by
    rintro rfl
    exact other (Option.some.inj absolute)
  obtain ⟨d, more, rfl⟩ := List.exists_cons_of_ne_nil some_front
  have root : d = chrSlash := Option.some.inj absolute
  subst root
  have shape : (chrSlash :: more ++ [c]) ++ List.replicate n chrSlash = chrSlash :: more ++ c :: List.replicate n chrSlash := by
    simp
  rw [shape, localPath, if_neg nonempty, List.getLast?_concat]
  by_cases short : (chrSlash :: more).length + 1 + n ≤ 2
  · have none : n = 0 := by
      rw [List.length_cons] at short
      omega
    subst none
    have length : (chrSlash :: more ++ c :: List.replicate 0 chrSlash).length ≤ 2 := by
      simpa using short
    rw [handleTrailingSlashes, if_pos length, if_neg fun both => both.1 rfl]
    simp
  · have scheme : isLocalScheme (chrSlash :: more ++ c :: List.replicate n chrSlash) = false := isLocalScheme_slash _
    rw [handleTrailingSlashes_last (Nat.lt_of_not_le short) other, scheme]
    by_cases none : n = 0
    · simp [none]
    · by_cases colon : c = chrColon
      · simp [none, colon]
      · simp [none, colon]

theorem handleTrailingSlashes_slashes (n : Nat) : handleTrailingSlashes before (List.replicate (n + 1) chrSlash) =
    if n < 2 then some (List.replicate (n + 1) chrSlash) else if before = chrSlash then none else some [chrSlash] := by
  by_cases short : n < 2
  · rw [handleTrailingSlashes, if_pos (by rw [List.length_replicate]; omega), if_pos short]
  · have long : ¬ (List.replicate (n + 1) chrSlash).length ≤ 2 := by
      rw [List.length_replicate]
      omega
    have scheme : isLocalScheme (List.replicate (n + 1) chrSlash) = false := isLocalScheme_slash _
    rw [handleTrailingSlashes, if_neg long, if_neg short, flags_all_slashes, scheme, List.reverse_replicate,
      removeSlashesButOne_all]
    dsimp only
    rw [if_pos rfl, if_neg Bool.false_ne_true]
    by_cases outside : before = chrSlash
    · rw [if_pos outside]
      rfl
    · rw [if_neg outside]
      rfl

end Handled

section Element

variable {Method : Type} (ctx : UriContext Method) {before : UInt8} {text : Bytes}

/-- Whether the text has two slashes and an authority behind them. -/
def hasAuthority : Bytes → Bool
  | c :: d :: e :: _ => c = chrSlash && d = chrSlash && e ≠ chrSlash
  | _ => false

theorem canonicalizePathname_slashes {rest : Bytes} (proper : (0 : UInt8) ∉ rest) :
    canonicalizePathname (chrSlash :: chrSlash :: rest) = canonicalizePathname (chrSlash :: rest) := by
  have proper' : (0 : UInt8) ∉ chrSlash :: rest := by simpa using proper
  have proper'' : (0 : UInt8) ∉ chrSlash :: chrSlash :: rest := by simpa using proper
  obtain ⟨next, more, shape⟩ := List.exists_cons_of_ne_nil (segments_ne_nil rest)
  rw [canonicalizePathname_walk proper'', canonicalizePathname_walk proper', segments_slash, segments_slash, shape]
  rfl

theorem splitToplevelUri_slash (rest : Bytes) (after : UInt8) :
    splitToplevelUri (chrSlash :: rest) after = ⟨some (chrSlash :: rest), none, none, 0, none⟩ := by
  have scanned : splitScan (chrSlash :: rest) = some (chrSlash :: rest) := by
    rw [splitScan, uriStrspnTo_cons (by decide) (by decide)]
    rfl
  have no_user : endsUserName (chrSlash :: rest) = false := by
    rw [endsUserName, uriStrspnTo_cons (by decide) (by decide)]
    rfl
  have nothing : strdupTo (chrSlash :: rest) (chrSlash :: rest) = [] := by simp [strdupTo]
  rw [splitToplevelUri, if_neg (List.cons_ne_nil _ _), scanned]
  dsimp only
  rw [no_user, if_neg Bool.false_ne_true, splitFinish, splitHost, nothing]
  rfl

theorem setUriElement_path (plain : ∀ c ∈ text, isPlain c = true) (absolute : text.head? = some chrSlash)
    (path : hasAuthority text = false) :
    setUriElement ctx false (ascii "file") text 0 = (some (canonicalizePathname text), .empty) := by
  have normal := normalizeText_plain ctx plain
  have proper : (0 : UInt8) ∉ text := plain_not_mem plain (by decide)
  cases text with
  | nil => cases absolute
  | cons c rest =>
    cases absolute
    rw [setUriElement, if_neg (List.cons_ne_nil _ _)]
    cases rest with
    | nil => rw [if_neg (by simp), normal]
    | cons d more =>
      by_cases slash : d = chrSlash
      · subst slash
        rw [if_pos (by simp)]
        cases more with
        | nil =>
          have root := @normalizeText_plain Method ctx [chrSlash] (by decide)
          have whole : splitToplevelUri [] 0 = ⟨some [chrSlash], none, none, 0, none⟩ := rfl
          have same : canonicalizePathname [chrSlash] = canonicalizePathname [chrSlash, chrSlash] := by decide
          rw [List.drop_succ_cons, List.drop_succ_cons, List.drop_zero, whole]
          dsimp only
          rw [Option.map_some, root, same]
          rfl
        | cons e more =>
          have third : e = chrSlash := by simpa [hasAuthority] using path
          subst third
          have behind : (0 : UInt8) ∉ chrSlash :: more := fun member => proper (by simp at member; simp [member])
          have shorter := @normalizeText_plain Method ctx (chrSlash :: more) fun c member =>
            plain c (List.mem_cons_of_mem _ (List.mem_cons_of_mem _ member))
          rw [List.drop_succ_cons, List.drop_succ_cons, List.drop_zero, splitToplevelUri_slash]
          dsimp only
          rw [Option.map_some, shorter, canonicalizePathname_slashes behind,
            canonicalizePathname_slashes fun member => behind (List.mem_cons_of_mem _ member)]
          rfl
      · rw [if_neg (by simp [slash]), normal]

/-- The path with everything in front of its first colon in lower case. -/
def loweredPath (text : Bytes) : Bytes := if chrColon ∈ text then lowerScheme text else text

theorem isPlain_toLower (plain : isPlain c = true) : isPlain (toLower c) = true := by
  rw [toLower]
  split
  case isFalse => exact plain
  case isTrue upper =>
    have letters : ∀ n ∈ List.range 26, isPlain (UInt8.ofNat (97 + n)) = true := by decide
    rw [isUpper, Bool.and_eq_true, decide_eq_true_eq, decide_eq_true_eq, UInt8.le_iff_toNat_le, UInt8.le_iff_toNat_le] at upper
    have low : 65 ≤ c.toNat := upper.1
    have high : c.toNat ≤ 90 := upper.2
    have same : c + 32 = UInt8.ofNat (97 + (c.toNat - 65)) := by
      apply UInt8.toNat_inj.mp
      rw [UInt8.toNat_add, UInt8.toNat_ofNat']
      change (c.toNat + 32) % 2 ^ 8 = _ % 2 ^ 8
      omega
    rw [same]
    exact letters _ (List.mem_range.mpr (by omega))

theorem isPlain_lowerScheme (plain : ∀ c ∈ text, isPlain c = true) : ∀ c ∈ lowerScheme text, isPlain c = true := by
  intro c member
  rcases List.mem_append.mp member with front | back
  · obtain ⟨d, inside, rfl⟩ := List.mem_map.mp front
    exact isPlain_toLower (plain d ((List.takeWhile_prefix _).mem inside))
  · exact plain c ((List.dropWhile_suffix _).mem back)

theorem toLower_eq_slash : toLower c = chrSlash ↔ c = chrSlash := by
  constructor
  · intro same
    by_contra other
    exact toLower_ne (by decide) other same
  · rintro rfl
    rfl

theorem lowerScheme_slash (rest : Bytes) : lowerScheme (chrSlash :: rest) = chrSlash :: lowerScheme rest := by
  rw [lowerScheme_cons, if_neg (by decide)]
  rfl

theorem hasAuthority_lowerScheme (rest : Bytes) :
    hasAuthority (lowerScheme (chrSlash :: rest)) = hasAuthority (chrSlash :: rest) := by
  rw [lowerScheme_slash]
  cases rest with
  | nil => rfl
  | cons d more =>
    by_cases slash : d = chrSlash
    · subst slash
      rw [lowerScheme_slash]
      cases more with
      | nil => rfl
      | cons e more =>
        rw [lowerScheme_cons]
        split
        case isTrue => rfl
        case isFalse => simp [hasAuthority, toLower_eq_slash]
    · have other : ∀ tail : Bytes, ∀ c : UInt8, c ≠ chrSlash → hasAuthority (chrSlash :: c :: tail) = false := by
        intro tail c differ
        cases tail with
        | nil => rfl
        | cons e tail => simp [hasAuthority, differ]
      rw [lowerScheme_cons, other more d slash]
      split
      case isTrue => exact other _ d slash
      case isFalse => exact other _ _ fun same => slash (toLower_eq_slash.mp same)

theorem getMethodString_slash (rest : Bytes) : getMethodString (chrSlash :: rest) = (ascii "file", chrSlash :: rest) := by
  rfl

theorem getMethodString_file (rest : Bytes) : getMethodString (ascii "file:" ++ rest) = (ascii "file", rest) := by
  have colon : ascii "file:" ++ rest = ascii "file" ++ chrColon :: rest := by
    have : ascii "file:" = ascii "file" ++ [chrColon] := by decide
    rw [this, List.append_assoc]
    rfl
  have lower : strdown (ascii "file") = ascii "file" := by decide
  rw [colon, getMethodString_strdown (by decide), lower]

theorem lowerScheme_file (rest : Bytes) : lowerScheme (ascii "file:" ++ rest) = ascii "file:" ++ rest := by
  rfl

/-- The URI of a `file` element that is parsed from this text. -/
def fileUri (body : Bytes) : Bytes :=
  uriToString .none
    (.toplevel ⟨(setUriElement ctx false (ascii "file") body 0).1, none, ascii "file", ctx.methodGet (ascii "file")⟩
      (setUriElement ctx false (ascii "file") body 0).2)

theorem fileUri_path (plain : ∀ c ∈ text, isPlain c = true) (absolute : text.head? = some chrSlash)
    (path : hasAuthority text = false) : fileUri ctx text = pathUri (canonicalizePathname text) := by
  rw [fileUri, setUriElement_path ctx plain absolute path]
  exact uriToString_path ctx _

theorem isPlain_loweredPath (plain : ∀ c ∈ text, isPlain c = true) : ∀ c ∈ loweredPath text, isPlain c = true := by
  rw [loweredPath]
  split
  · exact isPlain_lowerScheme plain
  · exact plain

/-- The canonical URI of a text that starts with a slash. -/
theorem makeUriCanonical_absolute {p : Bytes} (handled : handleTrailingSlashes before p = some text)
    (plain : ∀ c ∈ text, isPlain c = true) (absolute : text.head? = some chrSlash) :
    makeUriCanonical ctx before p = some (fileSlashes (fileUri ctx (loweredPath text))) := by
  have clear : chrHash ∉ loweredPath text := plain_not_mem (isPlain_loweredPath plain) (by decide)
  obtain ⟨rest, rfl⟩ : ∃ rest, text = chrSlash :: rest := isRooted_iff.mp (decide_eq_true absolute)
  rw [makeUriCanonical, handled, Option.bind_eq_bind, Option.bind_some]
  by_cases colon : chrColon ∈ chrSlash :: rest
  · rw [loweredPath, if_pos colon] at clear ⊢
    have nonempty : lowerScheme (chrSlash :: rest) ≠ [] := by
      rw [lowerScheme_slash]
      exact List.cons_ne_nil _ _
    have method : getMethodString (lowerScheme (chrSlash :: rest)) = (ascii "file", lowerScheme (chrSlash :: rest)) := by
      rw [lowerScheme_slash]
      exact getMethodString_slash _
    rw [if_neg (not_not_intro colon)]
    dsimp only
    rw [makeUriCanonicalOld_file ctx nonempty clear method]
    rfl
  · rw [loweredPath, if_neg colon] at clear ⊢
    have nonempty : ascii "file:" ++ chrSlash :: rest ≠ [] := List.append_ne_nil_of_right_ne_nil _ (List.cons_ne_nil _ _)
    rw [if_pos colon, if_neg (not_not_intro absolute), lowerScheme_file]
    dsimp only
    rw [makeUriCanonicalOld_file ctx nonempty clear (getMethodString_file _)]
    rfl

/-- The canonical URI of a path behind `file://`. -/
theorem makeUriCanonical_file {p : Bytes}
    (handled : handleTrailingSlashes before (ascii "file://" ++ p) = some (ascii "file://" ++ text))
    (plain : ∀ c ∈ text, isPlain c = true) (absolute : text.head? = some chrSlash) :
    makeUriCanonical ctx before (ascii "file://" ++ p) = some (pathUri (canonicalizePathname text)) := by
  obtain ⟨rest, rfl⟩ : ∃ rest, text = chrSlash :: rest := isRooted_iff.mp (decide_eq_true absolute)
  have split : ascii "file://" ++ chrSlash :: rest = ascii "file:" ++ chrSlash :: chrSlash :: chrSlash :: rest := by rfl
  have plain' : ∀ c ∈ chrSlash :: chrSlash :: chrSlash :: rest, isPlain c = true := by
    intro c member
    rcases List.mem_cons.mp member with rfl | member
    · rfl
    · rcases List.mem_cons.mp member with rfl | member
      · rfl
      · exact plain c member
  have clear : chrHash ∉ chrSlash :: chrSlash :: chrSlash :: rest := plain_not_mem plain' (by decide)
  have colon : chrColon ∈ ascii "file:" ++ chrSlash :: chrSlash :: chrSlash :: rest := List.mem_append_left _ (by decide)
  have nonempty : ascii "file:" ++ chrSlash :: chrSlash :: chrSlash :: rest ≠ [] := List.ne_nil_of_mem colon
  have proper : (0 : UInt8) ∉ chrSlash :: rest := plain_not_mem plain (by decide)
  have same := fileUri_path ctx plain' rfl rfl
  rw [canonicalizePathname_slashes proper, canonicalizePathname_slashes fun member => proper (List.mem_cons_of_mem _ member)]
    at same
  rw [makeUriCanonical, handled, Option.bind_eq_bind, Option.bind_some, split, if_neg (not_not_intro colon),
    lowerScheme_file]
  dsimp only
  rw [makeUriCanonicalOld_file ctx nonempty clear (getMethodString_file _), Option.getD_some, ← fileUri, same,
    fileSlashes_pathUri]

end Element

section Trailing

variable {stack : List Bytes} {last : Bytes}

/-- The entries that are left when a slash stands behind the last segment. -/
def closedStack (walked : List Bytes × Bytes) : List Bytes :=
  if walked.2 = [chrDot] then walked.1
  else if walked.2 = [chrDot, chrDot] ∧ walked.1 ≠ [] then walked.1.tail
  else walked.2 :: walked.1

theorem walkSegments_closed (segs : List Bytes) : ∀ (collapse : Bool) (stack : List Bytes), segs ≠ [] →
    segs.getLast? ≠ some [] →
      walkSegments collapse stack (segs ++ [[]]) = (closedStack (walkSegments collapse stack segs), []) := by
  induction segs with
  | nil => exact fun _ _ none => absurd rfl none
  | cons part rest ih =>
    intro collapse stack _ nonempty
    cases rest with
    | nil =>
      have some_part : part ≠ [] := by
        rintro rfl
        exact nonempty rfl
      have kept : ¬ (part = [] ∧ collapse = true) := fun both => some_part both.1
      have alone : walkSegments collapse stack [part] = (stack, part) := rfl
      rw [alone, List.cons_append, List.nil_append, walkSegments, if_neg kept, closedStack]
      dsimp only
      split
      · rfl
      split
      · rfl
      · rfl
    | cons next more =>
      rw [List.getLast?_cons_cons] at nonempty
      have later := fun collapse stack => ih collapse stack (List.cons_ne_nil next more) nonempty
      rw [List.cons_append, List.cons_append, walkSegments, walkSegments, ← List.cons_append, later, later, later, later]
      split
      · rfl
      split
      · rfl
      split
      · rfl
      · rfl

/-- The path is as long as the one with a slash behind it only where that leaves nothing but the root. -/
theorem walkText_closed (nonempty : last ≠ []) :
    ((stackText false (closedStack (stack, last))).length = (walkText (stack, last)).length ↔
      (stackText false (closedStack (stack, last))).length ≤ 1) ∧
    ((stackText false (closedStack (stack, last))).length ≤ 1 →
      stackText false (closedStack (stack, last)) = walkText (stack, last)) ∧
    (walkText (stack, last)).length ≤ (stackText false (closedStack (stack, last))).length := by
  have shorter : ∀ front : Bytes, (front.length = (trimmed front).length ↔ front.length ≤ 1) ∧
      (front.length ≤ 1 → front = trimmed front) ∧ (trimmed front).length ≤ front.length := by
    intro front
    rw [trimmed_eq_take, List.length_take]
    refine ⟨?_, fun short => ?_, Nat.min_le_right _ _⟩
    · split
      · omega
      · omega
    · rw [if_neg (Nat.not_lt.mpr short), List.take_length]
  rw [closedStack, walkText]
  dsimp only
  split
  case isTrue => exact shorter _
  case isFalse =>
    split
    case isTrue => exact shorter _
    case isFalse =>
      have some_last := List.length_pos_iff.mpr nonempty
      rw [stackText_cons]
      simp only [List.length_append, List.length_singleton]
      refine ⟨?_, ?_, ?_⟩
      · omega
      · omega
      · omega

theorem walkSegments_last (segs : List Bytes) : ∀ (collapse : Bool) (stack : List Bytes), segs ≠ [] →
    segs.getLast? = some (walkSegments collapse stack segs).2 := by
  induction segs with
  | nil => exact fun _ _ none => absurd rfl none
  | cons part rest ih =>
    intro collapse stack _
    cases rest with
    | nil => rfl
    | cons next more =>
      have later := fun collapse stack => ih collapse stack (List.cons_ne_nil next more)
      rw [List.getLast?_cons_cons, walkSegments]
      split
      · exact later _ _
      split
      · exact later _ _
      split
      · exact later _ _
      · exact later _ _

/-- The number of entries that a walk leaves. -/
def entriesLeft : Bool → Nat → List Bytes → Nat
  | _, entries, [] => entries
  | _, entries, [_] => entries
  | collapse, entries, part :: next :: more =>
    if part = [] ∧ collapse then entriesLeft true entries (next :: more)
    else if part = [chrDot] then entriesLeft (entries == 0) entries (next :: more)
    else if part = [chrDot, chrDot] ∧ entries ≠ 0 then entriesLeft true (entries - 1) (next :: more)
    else entriesLeft true (entries + 1) (next :: more)

theorem walkSegments_entriesLeft (segs : List Bytes) : ∀ (collapse : Bool) (stack : List Bytes),
    (walkSegments collapse stack segs).1.length = entriesLeft collapse stack.length segs := by
  induction segs with
  | nil => exact fun _ _ => rfl
  | cons part rest ih =>
    intro collapse stack
    cases rest with
    | nil => rfl
    | cons next more =>
      have none : (stack.length == 0) = stack.isEmpty := by cases stack <;> rfl
      have height : stack.length ≠ 0 ↔ stack ≠ [] := List.length_eq_zero_iff.not
      rw [walkSegments, entriesLeft, none]
      simp only [height]
      split
      · exact ih _ _
      split
      · exact ih _ _
      split
      · rw [ih, List.length_tail]
      · rw [ih, List.length_cons]

/-- Whether an absolute path with a slash at its end is canonically the root, or nothing at all. -/
def leavesRoot (segs : List Bytes) : Bool :=
  entriesLeft false 0 segs = 0 || (entriesLeft false 0 segs = 1 && stays 0 true 0 segs.tail)

theorem canonicalizePathname_slash (proper : (0 : UInt8) ∉ front) :
    canonicalizePathname (front ++ [chrSlash]) =
      stackText false (walkSegments false [] (segments front ++ [[]])).1 := by
  have proper' : (0 : UInt8) ∉ front ++ [chrSlash] := by simpa using proper
  have parts : segments (front ++ [chrSlash]) = segments front ++ [[]] := segments_append_slash front []
  have ends := walkSegments_last (segments front ++ [[]]) false [] (by simp)
  rw [List.getLast?_concat, Option.some.injEq] at ends
  rw [canonicalizePathname_walk proper', parts, walkText, ← ends, if_neg (by decide), if_neg (by simp),
    List.append_nil]

theorem leavesRoot_iff {core : Bytes} (proper : (0 : UInt8) ∉ core) (absolute : core.head? = some chrSlash) :
    leavesRoot (segments (core ++ [chrSlash])) = true ↔ (canonicalizePathname (core ++ [chrSlash])).length ≤ 1 := by
  have proper' : (0 : UInt8) ∉ core ++ [chrSlash] := by simpa using proper
  have parts : segments (core ++ [chrSlash]) = segments core ++ [[]] := segments_append_slash core []
  have entries := walkSegments_entriesLeft (segments core ++ [[]]) false []
  have clear := (walkSegments_entries (segments core ++ [[]]) false [] ⟨by simp, by simp, by simp⟩ (by
    rw [← parts]
    exact segments_clear _ (Nat.le_refl _))).1.clear
  have rooted : isRooted (canonicalizePathname (core ++ [chrSlash])) = stays 0 true 0 (segments (core ++ [chrSlash])).tail := by
    obtain ⟨rest, rfl⟩ : ∃ rest, core = chrSlash :: rest := isRooted_iff.mp (decide_eq_true absolute)
    rw [isRooted_canonicalizePathname proper' rfl, List.cons_append, segments_slash]
    rfl
  rw [canonicalizePathname_slash proper] at rooted ⊢
  rw [List.length_nil] at entries
  rw [leavesRoot, ← rooted, parts, ← entries]
  generalize (walkSegments false [] (segments core ++ [[]])).1 = stack at *
  have bottom : stackText false [] = [] := rfl
  cases stack with
  | nil => simp [bottom]
  | cons top below =>
    cases below with
    | nil =>
      rw [stackText_cons, bottom, List.nil_append]
      by_cases empty : top = []
      · simp [empty, isRooted]
      · have some_top := List.length_pos_iff.mpr empty
        rw [isRooted_clear (clear top (List.mem_cons_self ..)) empty [chrSlash]]
        simp
        omega
    | cons next more =>
      have two : ¬ (stackText false (top :: next :: more)).length ≤ 1 := by
        rw [stackText_cons, stackText_cons]
        simp
        omega
      simp [two]

theorem canonicalizePathname_closed {core : Bytes} (proper : (0 : UInt8) ∉ core) (nonempty : core ≠ [])
    (last : core.getLast? ≠ some chrSlash) :
    ((canonicalizePathname (core ++ [chrSlash])).length = (canonicalizePathname core).length ↔
      (canonicalizePathname (core ++ [chrSlash])).length ≤ 1) ∧
    ((canonicalizePathname (core ++ [chrSlash])).length ≤ 1 →
      canonicalizePathname (core ++ [chrSlash]) = canonicalizePathname core) ∧
    (canonicalizePathname core).length ≤ (canonicalizePathname (core ++ [chrSlash])).length := by
  have some_last : (walkSegments false [] (segments core)).2 ≠ [] := by
    intro empty
    have ends := walkSegments_last (segments core) false [] (segments_ne_nil core)
    rw [empty] at ends
    exact segments_getLast nonempty last ends
  rw [canonicalizePathname_slash proper, canonicalizePathname_walk proper,
    walkSegments_closed (segments core) false [] (segments_ne_nil core) (segments_getLast nonempty last)]
  exact walkText_closed some_last

theorem length_le_one_of_slash {front other : Bytes} (proper : (0 : UInt8) ∉ front) (proper' : (0 : UInt8) ∉ other)
    (length : (canonicalizePathname (front ++ [chrSlash])).length = (canonicalizePathname (other ++ [chrSlash])).length)
    (short : (canonicalizePathname (front ++ [chrSlash])).length ≤ 1) :
    canonicalizePathname (front ++ [chrSlash]) = canonicalizePathname (other ++ [chrSlash]) := by
  have ended : ∀ stack : List Bytes, (stackText false stack).length ≤ 1 →
      stackText false stack = List.replicate (stackText false stack).length chrSlash := by
    intro stack short
    cases stack with
    | nil => rfl
    | cons top below =>
      rw [stackText_cons, List.length_append, List.length_append, List.length_singleton] at short
      have none_below := List.length_eq_zero_iff.mp (show (stackText false below).length = 0 by omega)
      have none_top := List.length_eq_zero_iff.mp (show top.length = 0 by omega)
      rw [stackText_cons, none_below, none_top]
      rfl
  rw [canonicalizePathname_slash proper] at length short ⊢
  rw [canonicalizePathname_slash proper'] at length ⊢
  rw [ended _ short, length, ← ended _ (length ▸ short)]

/-- With one slash left behind it, a path has the canonical URI of the path without it only where that is the root
or nothing at all. -/
theorem loweredPath_slash_iff {core : Bytes} (proper : (0 : UInt8) ∉ core) (absolute : core.head? = some chrSlash)
    (last : core.getLast? ≠ some chrSlash) :
    canonicalizePathname (loweredPath (core ++ [chrSlash])) = canonicalizePathname core ↔
      leavesRoot (segments (core ++ [chrSlash])) = true := by
  have nonempty : core ≠ [] := by
    rintro rfl
    cases absolute
  have proper' : (0 : UInt8) ∉ core ++ [chrSlash] := by simpa using proper
  have closed := canonicalizePathname_closed proper nonempty last
  have colon : chrColon ∈ core ++ [chrSlash] ↔ chrColon ∈ core := by simp
  rw [leavesRoot_iff proper absolute, loweredPath]
  split
  case isFalse =>
    exact ⟨fun same => closed.1.mp (congrArg List.length same), closed.2.1⟩
  case isTrue scheme =>
    have length := (canonicalizePathname_lowerScheme proper' scheme).2
    rw [lowerScheme_append (colon.mp scheme)] at length ⊢
    constructor
    · intro same
      exact closed.1.mp (length.trans (congrArg List.length same))
    · intro short
      rw [← length_le_one_of_slash proper (lowerScheme_not_mem (by decide) proper) length short]
      exact closed.2.1 short

end Trailing

section Path

variable {Method : Type} (ctx : UriContext Method) {core p : Bytes} {n : Nat}

/-- The path without the slashes at its end. -/
def pathCore (p : Bytes) : Bytes := (p.reverse.dropWhile (· == chrSlash)).reverse

theorem pathCore_slashes (last : core.getLast? ≠ some chrSlash) (n : Nat) :
    pathCore (core ++ List.replicate n chrSlash) = core := by
  rw [pathCore, List.reverse_append, List.reverse_replicate, List.dropWhile_append_of_pos fun c member => by
    simp [List.eq_of_mem_replicate member]]
  by_cases empty : core = []
  · rw [empty]
    rfl
  · obtain ⟨front, c, rfl, other⟩ := exists_last empty last
    rw [List.reverse_append, List.reverse_singleton, List.singleton_append, List.dropWhile_cons, if_neg (by simpa using other),
      List.reverse_cons, List.reverse_reverse]

theorem hasAuthority_core (last : core.getLast? ≠ some chrSlash) (nonempty : core ≠ []) (back : Bytes) :
    hasAuthority (core ++ back) = hasAuthority core := by
  have short : ∀ {c d : UInt8} {tail : Bytes}, c ≠ chrSlash ∨ d ≠ chrSlash → hasAuthority (c :: d :: tail) = false := by
    rintro c d tail (other | other)
    · cases tail <;> simp [hasAuthority, other]
    · cases tail <;> simp [hasAuthority, other]
  match core with
  | [] => exact absurd rfl nonempty
  | [c] =>
    have other : c ≠ chrSlash := fun same => last (congrArg some same)
    cases back with
    | nil => rfl
    | cons d tail => exact short (Or.inl other)
  | [c, d] =>
    have other : d ≠ chrSlash := fun same => last (congrArg some same)
    exact short (Or.inr other)
  | c :: d :: e :: tail => rfl

theorem localPath_plain (plain : ∀ c ∈ core, isPlain c = true) (n : Nat) : ∀ c ∈ localPath core n, isPlain c = true := by
  intro c member
  rw [localPath] at member
  split at member
  · cases List.mem_singleton.mp member
    rfl
  split at member
  · rcases List.mem_append.mp member with inside | slash
    · exact plain c inside
    · rw [List.eq_of_mem_replicate slash]
      rfl
  · exact plain c member

theorem loweredPath_iff (plain : ∀ c ∈ p, isPlain c = true) :
    canonicalizePathname (loweredPath p) = canonicalizePathname p ↔ keepsUpper p = false := by
  rw [loweredPath]
  split
  case isTrue colon =>
    rw [← (canonicalizePathname_lowerScheme (plain_not_mem plain (by decide)) colon).1, eq_comm]
  case isFalse clear => simp [keepsUpper_of_no_colon clear]

/-- Whether the URI of a path that is read as a path is the one of the path behind `file://`. -/
def pathAgrees (before : UInt8) (p : Bytes) : Bool :=
  if pathCore p = [] then p.length ≤ 2 || before ≠ chrSlash
  else if pathCore p ≠ p ∧ (pathCore p).getLast? ≠ some chrColon then leavesRoot (segments (pathCore p ++ [chrSlash]))
  else !keepsUpper p

theorem makeUriCanonical_path_iff (before1 before2 : UInt8) (plain : ∀ c ∈ p, isPlain c = true)
    (absolute : p.head? = some chrSlash) (path : hasAuthority p = false) :
    (∃ uri, makeUriCanonical ctx before1 p = some uri ∧ makeUriCanonical ctx before2 (ascii "file://" ++ p) = some uri) ↔
      pathAgrees before1 p = true := by
  obtain ⟨core, n, rfl, last⟩ := exists_core p
  have nonempty : core = [] → n ≠ 0 := by
    rintro rfl rfl
    cases absolute
  have core_plain : ∀ c ∈ core, isPlain c = true := fun c member => plain c (List.mem_append_left _ member)
  have trimmed_plain := localPath_plain core_plain n
  have core_absolute : core ≠ [] → core.head? = some chrSlash := by
    intro some_core
    rwa [List.head?_append_of_ne_nil _ some_core] at absolute
  have trimmed_absolute : (localPath core n).head? = some chrSlash := by
    rw [localPath]
    split
    · rfl
    split
    · rw [List.head?_append_of_ne_nil _ ‹_›]
      exact core_absolute ‹_›
    · exact core_absolute ‹_›
  have file := makeUriCanonical_file ctx (@handleTrailingSlashes_file before2 core n last nonempty) trimmed_plain
    trimmed_absolute
  rw [file, pathAgrees, pathCore_slashes last]
  simp only [Option.some.injEq, ↓existsAndEq, and_true]
  -- a text that is read as a path, whatever is left of its slashes
  have read : ∀ {text : Bytes}, handleTrailingSlashes before1 (core ++ List.replicate n chrSlash) = some text →
      (∀ c ∈ text, isPlain c = true) → text.head? = some chrSlash → hasAuthority text = false →
        (makeUriCanonical ctx before1 (core ++ List.replicate n chrSlash) =
            some (pathUri (canonicalizePathname (localPath core n))) ↔
          canonicalizePathname (loweredPath text) = canonicalizePathname (localPath core n)) := by
    intro text handled plain absolute path
    obtain ⟨rest, rfl⟩ : ∃ rest, text = chrSlash :: rest := isRooted_iff.mp (decide_eq_true absolute)
    have lowered_path : hasAuthority (loweredPath (chrSlash :: rest)) = false := by
      rw [loweredPath]
      split
      · rw [hasAuthority_lowerScheme, path]
      · exact path
    have lowered_absolute : (loweredPath (chrSlash :: rest)).head? = some chrSlash := by
      rw [loweredPath]
      split
      · rw [lowerScheme_slash]
        rfl
      · rfl
    rw [makeUriCanonical_absolute ctx handled plain rfl, fileUri_path ctx (isPlain_loweredPath plain) lowered_absolute lowered_path,
      fileSlashes_pathUri, Option.some.injEq, pathUri_inj]
  by_cases empty : core = []
  · subst empty
    obtain ⟨m, rfl⟩ := Nat.exists_eq_succ_of_ne_zero (nonempty rfl)
    have handled := @handleTrailingSlashes_slashes before1 m
    rw [if_pos rfl, List.nil_append, List.length_replicate, Bool.or_eq_true, decide_eq_true_eq, decide_eq_true_eq]
    rw [List.nil_append] at read
    by_cases short : m < 2
    · rw [if_pos short] at handled
      rw [read handled plain absolute path]
      refine iff_of_true ?_ (Or.inl short)
      match m, short with
      | 0, _ => rfl
      | 1, _ => decide
    · rw [if_neg short] at handled
      by_cases outside : before1 = chrSlash
      · rw [if_pos outside] at handled
        have nothing : makeUriCanonical ctx before1 (List.replicate (m + 1) chrSlash) = none := by
          rw [makeUriCanonical, handled]
          rfl
        rw [nothing]
        refine iff_of_false (by simp) ?_
        rintro (long | other)
        · exact short long
        · exact other outside
      · rw [if_neg outside] at handled
        rw [read handled (by decide) rfl rfl]
        exact iff_of_true rfl (Or.inr outside)
  · have handled := @handleTrailingSlashes_path before1 core n last (core_absolute empty)
    have core_path : hasAuthority core = false := by rwa [hasAuthority_core last empty] at path
    have other : core ≠ core ++ List.replicate n chrSlash ↔ n ≠ 0 := by simp
    rw [if_neg empty]
    simp only [other]
    by_cases slash : n ≠ 0 ∧ core.getLast? ≠ some chrColon
    · rw [if_pos slash] at handled
      have left : localPath core n = core := by rw [localPath, if_neg empty, if_neg slash.2]
      have plain' : ∀ c ∈ core ++ [chrSlash], isPlain c = true := by
        intro c member
        rcases List.mem_append.mp member with inside | same
        · exact core_plain c inside
        · cases List.mem_singleton.mp same
          rfl
      have absolute' : (core ++ [chrSlash]).head? = some chrSlash := by
        rw [List.head?_append_of_ne_nil _ empty, core_absolute empty]
      have path' : hasAuthority (core ++ [chrSlash]) = false := by rw [hasAuthority_core last empty, core_path]
      rw [read handled plain' absolute' path', if_pos slash, left]
      exact loweredPath_slash_iff (plain_not_mem core_plain (by decide)) (core_absolute empty) last
    · rw [if_neg slash] at handled
      have path' : hasAuthority (localPath core n) = false := by
        rw [localPath, if_neg empty]
        split
        · rw [hasAuthority_core last empty, core_path]
        · exact core_path
      have same : keepsUpper (localPath core n) = keepsUpper (core ++ List.replicate n chrSlash) := by
        rw [localPath, if_neg empty, keepsUpper_slashes]
        split
        · exact keepsUpper_slashes core _
        · rfl
      rw [read handled trimmed_plain trimmed_absolute path', if_neg slash, loweredPath_iff trimmed_plain, same,
        Bool.not_eq_true']

end Path

end GnomeVfs
