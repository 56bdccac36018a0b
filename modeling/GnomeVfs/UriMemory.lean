import GnomeVfs.CanonicalizeNormal
import GnomeVfs.EscapeOptional
import GnomeVfs.UriAncestor

/- URIs with what printing and parsing them takes: the memory for what is escaped, and the `int`s with which
a text is normalised. -/
namespace GnomeVfs

variable {Method : Type}

/-- There is memory for what is escaped of the user name and the password. -/
def Toplevel.escapes (top : Toplevel) (hide : HideOptions) : Bool :=
  (hide.userName || top.userName.all fun user => (escapeStringChecked .all user).isSome) &&
    (hide.password || top.password.all fun password => (escapeStringChecked .all password).isSome)

def uriToStringChecked (hide : HideOptions) (uri : Uri Method) : Option Bytes :=
  if uri.getToplevel.escapes hide then some (uriToString hide uri) else none

/-- `gnome_vfs_uri_append_file_name`; it prints the URI. -/
def uriAppendFileNameChecked (ctx : UriContext Method) (uri : Uri Method) (filename : Bytes) : Option (Uri Method) := do
  let escaped ← escapeStringChecked .all filename
  let _ ← uriToStringChecked .none uri
  uriAppendString ctx uri escaped

/-- `gnome_vfs_uri_is_parent`. A possible parent without a text is printed, where there is something to compare it to. -/
def uriIsParentChecked [DecidableEq Method] (ctx : UriContext Method) (fuel : Nat) (possibleParent possibleChild : Uri Method)
    (recursive : Bool) : Option Bool :=
  if possibleParent.element.text.getD [] = [] ∧ (uriGetParent possibleChild).isSome then do
    let _ ← uriToStringChecked .none possibleParent
    uriIsParent ctx fuel possibleParent possibleChild recursive
  else uriIsParent ctx fuel possibleParent possibleChild recursive

/-- What `set_uri_element` does to a text, with the `int`s of both scans: `none` where an assertion fails, or a move goes
out of the text. -/
def normalizeTextInt (ctx : UriContext Method) (methodString text : Bytes) : Option Bytes := do
  let escaped := if unescapedMethods.contains methodString then text else escapeSet text escapedCharacters
  let scanned ← removeOptionalEscapesChecked ctx.beyond escaped
  makePathNameCanonicalInt scanned.1

section Short

variable {ctx : UriContext Method} {e : Element Method} {top : Toplevel} {text : Bytes}

/-- A text in normal form stays as it is with the `int`s, too. -/
theorem normalizeTextInt_eq_self {methodString : Bytes} (normal : normalizeText ctx methodString text = text)
    (short : text.length < 2 ^ 31) : normalizeTextInt ctx methodString text = some text := by
  have escaped := normalizeText_escaped ctx methodString text
  rw [normal] at escaped
  have same : (if methodString ∈ unescapedMethods then text else escapeSet text escapedCharacters) = text := by
    split
    · rfl
    · rename_i applies
      exact escapeSet_of_clear (escaped applies)
  have near : OptionalEscapesNear ctx.beyond text := by
    intro front first second back d split _ _ _
    have length := congrArg List.length split
    simp only [List.length_append, List.length_cons] at length
    omega
  have scanned : (removeOptionalEscapes ctx.beyond text).1.length ≤ text.length := by
    rcases removeOptionalEscapes_cases ctx.beyond text with kept | shorter
    · rw [kept]
    · exact Nat.le_of_lt shorter
  rw [normalizeText, same] at normal
  simp only [normalizeTextInt, List.contains_iff_mem]
  rw [same, removeOptionalEscapesChecked, (removeOptionalEscapesLoop_eq text).1 near]
  show makePathNameCanonicalInt (removeOptionalEscapes ctx.beyond text).1 = some text
  rw [makePathNameCanonicalInt_eq (by omega), makePathNameCanonical_eq, normal]

theorem uriToString_longer (e : Element Method) (top : Toplevel) :
    (∀ user, top.userName = some user → (escapeString user).length ≤ (uriToString .none (.toplevel e top)).length) ∧
      (∀ password, top.password = some password →
        (escapeString password).length ≤ (uriToString .none (.toplevel e top)).length) ∧
      (e.text.getD []).length ≤ (uriToString .none (.toplevel e top)).length := by
  refine ⟨fun user named => ?_, fun password given => ?_, ?_⟩
  · simp [uriToString, printAuthority, printUserInfo, HideOptions.none, named]
    omega
  · simp [uriToString, printAuthority, printUserInfo, HideOptions.none, given]
    omega
  · simp [uriToString]
    omega

theorem Toplevel.escapes_of_short (short : (uriToString .none (.toplevel e top)).length < 2 ^ 31) :
    top.escapes .none = true := by
  obtain ⟨user, password, -⟩ := uriToString_longer e top
  have user_fits : top.userName.all fun user => (escapeStringChecked .all user).isSome := by
    cases named : top.userName with
    | none => rfl
    | some name =>
      have longer := user name named
      rw [Option.all_some, escapeStringChecked_short (Nat.lt_of_le_of_lt longer short)]
      rfl
  have password_fits : top.password.all fun password => (escapeStringChecked .all password).isSome := by
    cases given : top.password with
    | none => rfl
    | some word =>
      have longer := password word given
      rw [Option.all_some, escapeStringChecked_short (Nat.lt_of_le_of_lt longer short)]
      rfl
  rw [Toplevel.escapes, user_fits, password_fits]
  rfl

theorem uriToStringChecked_eq (escapes : top.escapes .none = true) (e : Element Method) :
    uriToStringChecked .none (.toplevel e top) = some (uriToString .none (.toplevel e top)) := if_pos escapes

/-- The round trip of a URI whose string is shorter than 2^31 bytes. -/
theorem uriNew_uriToStringChecked (ctx : UriContext Method) (e : Element Method) (top : Toplevel)
    (text : Bytes) (scheme : SchemeName e.methodString) (safe : e.methodString ≠ ascii "pipe")
    (registered : (ctx.methodGet e.methodString).isSome = true)
    (untransformed : ctx.transformGet e.methodString = none)
    (unfragmented : e.fragmentId = none) (present : e.text = some text)
    (user : ∀ u, top.userName = some u → u ≠ [] ∧ (0 : UInt8) ∉ u)
    (password : ∀ p, top.password = some p → p ≠ [] ∧ (0 : UInt8) ∉ p)
    (host : ∀ h, top.hostName = some h → h ≠ [] ∧ ∀ c ∈ h, c ≠ 0 ∧ isUpper c = false ∧
      c ∉ [chrSlash, chrAt, chrHash, chrOpen, chrClose])
    (port : top.hostPort ≤ 65535) (hostless : top.hostName = none → top.hostPort = 0)
    (absolute : ∃ rest, text = chrSlash :: rest) (clear : chrHash ∉ text)
    (normal : normalizeText ctx e.methodString text = text)
    (short : (uriToString .none (.toplevel e top)).length < 2 ^ 31) :
    (uriToStringChecked .none (.toplevel e top)).bind (uriNew ctx) =
        some (.toplevel { e with method := ctx.methodGet e.methodString } top) ∧
      normalizeTextInt ctx e.methodString text = some text := by
  have longer := (uriToString_longer e top).2.2
  rw [present, Option.getD_some] at longer
  refine ⟨?_, normalizeTextInt_eq_self normal (Nat.lt_of_le_of_lt longer short)⟩
  rw [uriToStringChecked_eq (Toplevel.escapes_of_short short), Option.bind_some]
  exact uriNew_uriToString ctx e top text scheme safe registered untransformed unfragmented present user password host
    port hostless absolute clear normal

def pubElement : Element Unit := ⟨some (ascii "/pub/a%20b"), none, ascii "ftp", some ()⟩

def addressSite : Toplevel := ⟨some (ascii "fe80::1"), 8021, some (ascii "j@e"), some (ascii ":/")⟩

theorem uriNew_uriToStringChecked_address :
    (uriToStringChecked .none (.toplevel pubElement addressSite)).bind (uriNew plainContext) =
        some (.toplevel pubElement addressSite) ∧
      normalizeTextInt plainContext (ascii "ftp") (ascii "/pub/a%20b") = some (ascii "/pub/a%20b") :=
  uriNew_uriToStringChecked plainContext pubElement addressSite (ascii "/pub/a%20b") ⟨by decide, by decide⟩ (by decide) rfl rfl rfl rfl
    (by rintro u ⟨⟩; decide) (by rintro p ⟨⟩; decide) (by rintro h ⟨⟩; decide)
    (by decide) (by rintro ⟨⟩) ⟨_, rfl⟩ (by decide) (by decide +kernel) (by decide +kernel)

/-- There is no memory to print a user name with a gigabyte of bytes that are escaped. -/
theorem uriToStringChecked_runs_over :
    (List.replicate (2 ^ 30) (0x80 : UInt8) ≠ [] ∧ (0 : UInt8) ∉ List.replicate (2 ^ 30) (0x80 : UInt8)) ∧
      uriToStringChecked .none (.toplevel ⟨some [chrSlash], none, ascii "ftp", some ()⟩
        ⟨some (ascii "h"), 0, some (List.replicate (2 ^ 30) 0x80), none⟩) = none := by
  have count : unacceptableCount .all (List.replicate (2 ^ 30) 0x80) = 2 ^ 30 :=
    unacceptableCount_replicate (by decide) (by decide) _
  refine ⟨⟨fun empty => ?_, fun zero => ?_⟩, ?_⟩
  · have length := congrArg List.length empty
    rw [List.length_replicate] at length
    cases length
  · cases (List.mem_replicate.mp zero).2
  · rw [uriToStringChecked, Uri.getToplevel, Toplevel.escapes, Option.all_some,
      escapeStringChecked_eq_none (Nat.le_of_eq count.symm)]
    rfl

end Short

section Names

variable {ctx : UriContext Method} {e : Element Method} {top : Toplevel} {text name : Bytes}

theorem uriAppendFileNameChecked_eq (escapes : top.escapes .none = true)
    (short : (escapeString name).length < 2 ^ 31) (e : Element Method) :
    uriAppendFileNameChecked ctx (.toplevel e top) name = uriAppendFileName ctx (.toplevel e top) name := by
  rw [uriAppendFileNameChecked, escapeStringChecked_short short, uriToStringChecked_eq escapes]
  rfl

theorem childText_length (text name : Bytes) :
    name.length ≤ (childText text name).length ∧ text.length ≤ (childText text name).length := by
  rw [childText, stem, List.length_append, List.length_cons]
  split
  · rename_i root
    rw [root, List.length_singleton]
    omega
  · omega

/-- A file name that is appended can be read back, and so can the URI, where the string of the child is shorter than
2^31 bytes. -/
theorem uriAppendFileNameChecked_inverse (ctx : UriContext Method) (e : Element Method) (top : Toplevel)
    (text name : Bytes) (place : Place ctx e top) (present : e.text = some text)
    (directory : DirectoryText ctx e.methodString text) (file : FileName name)
    (short : (uriToString .none (.toplevel { e with text := some (childText text (escapeString name)) } top)).length <
      2 ^ 31) :
    (∃ c, uriAppendFileNameChecked ctx (.toplevel e top) name = some c ∧
      uriGetParent c = some (.toplevel e top) ∧ uriExtractShortName c = some name) ∧
      normalizeTextInt ctx e.methodString (childText text (escapeString name)) =
        some (childText text (escapeString name)) := by
  have longer := (uriToString_longer { e with text := some (childText text (escapeString name)) } top).2.2
  rw [Option.getD_some] at longer
  have inside := (childText_length text (escapeString name)).1
  have ready : Appendable ctx e.methodString top text := Or.inl directory
  have normal := ready.childText_normal file.escaped (file.kept ctx.beyond)
  refine ⟨?_, normalizeTextInt_eq_self normal (by omega)⟩
  rw [uriAppendFileNameChecked_eq (Toplevel.escapes_of_short short) (by omega)]
  exact uriAppendFileName_inverse ctx e top text name place present directory file

theorem uriAppendFileNameChecked_inverse_reserved :
    (∃ c, uriAppendFileNameChecked plainContext (.toplevel pubElement addressSite) (ascii "?#1 %2F") = some c ∧
      uriGetParent c = some (.toplevel pubElement addressSite) ∧ uriExtractShortName c = some (ascii "?#1 %2F")) ∧
      normalizeTextInt plainContext (ascii "ftp") (ascii "/pub/a%20b/%3F%231%20%252F") =
        some (ascii "/pub/a%20b/%3F%231%20%252F") :=
  uriAppendFileNameChecked_inverse plainContext pubElement addressSite (ascii "/pub/a%20b") (ascii "?#1 %2F")
    ⟨⟨by decide, by decide⟩, by decide, rfl, rfl, rfl, rfl, by rintro u ⟨⟩; decide,
      by rintro p ⟨⟩; decide, by rintro h ⟨⟩; decide, by decide, by rintro ⟨⟩⟩
    rfl ⟨⟨_, rfl⟩, by decide, by decide, by decide +kernel, by decide⟩
    ⟨by decide, by decide, by decide, by decide, by decide⟩ (by decide +kernel)

/-- A file name of a gigabyte of `%`. -/
theorem percents_fileName : FileName (List.replicate (2 ^ 30) chrPercent) := by
  have all : ∀ c ∈ List.replicate (2 ^ 30) chrPercent, c = chrPercent := fun c member => (List.mem_replicate.mp member).2
  have longer : ∀ {other : Bytes}, other.length < 3 → List.replicate (2 ^ 30) chrPercent ≠ other := by
    rintro other short same
    have length := congrArg List.length same
    rw [List.length_replicate] at length
    omega
  refine ⟨longer (by decide), fun c member => ?_, fun slash => ?_, longer (by decide), longer (by decide)⟩
  · rw [all c member]
    decide
  · cases all _ slash

theorem uriAppendFileNameChecked_percents (uri : Uri Method) :
    uriAppendFileNameChecked ctx uri (List.replicate (2 ^ 30) chrPercent) = none := by
  have count : unacceptableCount .all (List.replicate (2 ^ 30) chrPercent) = 2 ^ 30 :=
    unacceptableCount_replicate (by decide) (by decide) _
  rw [uriAppendFileNameChecked, escapeStringChecked_eq_none (Nat.le_of_eq count.symm)]
  rfl

/-- There is no memory to escape it. -/
theorem uriAppendFileNameChecked_runs_over : FileName (List.replicate (2 ^ 30) chrPercent) ∧
    ¬ ∃ c, uriAppendFileNameChecked plainContext (.toplevel ⟨some [chrSlash], none, ascii "ftp", some ()⟩
      ⟨some (ascii "h"), 0, none, none⟩) (List.replicate (2 ^ 30) chrPercent) = some c := by
  refine ⟨percents_fileName, ?_⟩
  rw [uriAppendFileNameChecked_percents]
  rintro ⟨c, never⟩
  cases never

theorem foldlM_uriAppendFileNameChecked (place : Place ctx e top) (escapes : top.escapes .none = true)
    (names : List Bytes) : ∀ text, Appendable ctx e.methodString top text → (∀ name ∈ names, FileName name) →
      (∀ name ∈ names, (escapeString name).length < 2 ^ 31) →
        names.foldlM (uriAppendFileNameChecked ctx) (.toplevel { e with text := some text } top) =
          names.foldlM (uriAppendFileName ctx) (.toplevel { e with text := some text } top) := by
  induction names with
  | nil => exact fun _ _ _ _ => rfl
  | cons name rest ih =>
    intro text ready files short
    have file := files name List.mem_cons_self
    have first := uriAppendFileName_child (place.withText text) ready rfl file
    have directory := ready.child file.escaped (file.kept ctx.beyond)
    rw [List.foldlM_cons, List.foldlM_cons, uriAppendFileNameChecked_eq escapes (short name List.mem_cons_self), first]
    exact ih _ (Or.inl directory) (fun other member => files other (List.mem_cons_of_mem _ member)) fun other member =>
      short other (List.mem_cons_of_mem _ member)

theorem namesText_length (front back : List Bytes) :
    (namesText text front).length ≤ (namesText text (front ++ back)).length := by
  induction back using List.reverseRecOn with
  | nil => rw [List.append_nil]
  | append_singleton back name ih =>
    have longer := (childText_length (namesText text (front ++ back)) (escapeString name)).2
    rw [← List.append_assoc, namesText_concat]
    omega

theorem escapeString_length_le {names : List Bytes} (member : name ∈ names) :
    (escapeString name).length ≤ (namesText text names).length := by
  obtain ⟨front, back, rfl⟩ := List.append_of_mem member
  have inside := (childText_length (namesText text front) (escapeString name)).1
  have longer := @namesText_length text (front ++ [name]) back
  rw [namesText_concat, List.append_assoc, List.singleton_append] at longer
  omega

section Ancestor

variable [DecidableEq Method]

theorem uriIsParentChecked_eq (escapes : top.escapes .none = true) (fuel : Nat) (possibleChild : Uri Method)
    (recursive : Bool) : uriIsParentChecked ctx fuel (.toplevel e top) possibleChild recursive =
      uriIsParent ctx fuel (.toplevel e top) possibleChild recursive := by
  rw [uriIsParentChecked, uriToStringChecked_eq escapes]
  split
  · rfl
  · rfl

/-- A URI is an ancestor of what is appended to it, as long as the string of that is shorter than 2^31 bytes. -/
theorem uriIsParentChecked_appended (ctx : UriContext Method) (e : Element Method) (top : Toplevel) (text : Bytes)
    (names : List Bytes) (place : Place ctx e top) (present : e.text = some text)
    (ready : Appendable ctx e.methodString top text) (nonempty : names ≠ [])
    (files : ∀ name ∈ names, FileName name)
    (short : (uriToString .none (.toplevel { e with text := some (namesText text names) } top)).length < 2 ^ 31) :
    (∃ d, names.foldlM (uriAppendFileNameChecked ctx) (.toplevel e top) = some d ∧
      ∃ enough, ∀ fuel, enough ≤ fuel →
        uriIsParentChecked ctx fuel (.toplevel e top) d true = some true ∧
        uriIsParentChecked ctx fuel (.toplevel e top) d false = some (decide (names.length = 1)) ∧
        uriIsParentChecked ctx fuel d (.toplevel e top) true = some false) ∧
      (∀ front, front <+: names → front ≠ [] →
        normalizeTextInt ctx e.methodString (namesText text front) = some (namesText text front)) ∧
      ∀ possibleParent possibleChild : Uri Method, possibleParent.parent = none →
        possibleChild.parent = none → ∃ enough, ∀ fuel, enough ≤ fuel →
          ∃ answer, uriIsParent ctx fuel possibleParent possibleChild true = some answer := by
  have escapes := Toplevel.escapes_of_short short
  have longer := (uriToString_longer { e with text := some (namesText text names) } top).2.2
  rw [Option.getD_some] at longer
  obtain ⟨⟨d, appended, enough, answers⟩, ends⟩ :=
    uriIsParent_appended ctx e top text names place present ready nonempty files
  refine ⟨⟨d, ?_, enough, fun fuel more => ?_⟩, ?_, ends⟩
  · have same := foldlM_uriAppendFileNameChecked place escapes names text ready files fun name member =>
      Nat.lt_of_le_of_lt (Nat.le_trans (escapeString_length_le member) longer) short
    rw [← present] at same
    rw [← appended]
    exact same
  · obtain ⟨rfl⟩ : some d = some (.toplevel { e with text := some (namesText text names) } top) := by
      rw [← appended, ← foldlM_uriAppendFileName place names text ready files, ← present]
    rw [uriIsParentChecked_eq escapes, uriIsParentChecked_eq escapes, uriIsParentChecked_eq escapes]
    exact answers fuel more
  · rintro front ⟨back, rfl⟩ some_front
    have inner : ∀ name ∈ front, FileName name := fun name member => files name (List.mem_append_left _ member)
    have directory := (namesText_ready ready front inner).2 some_front
    have less := @namesText_length text front back
    exact normalizeTextInt_eq_self directory.normal (by omega)

def bareElement : Element Unit := ⟨some [], none, ascii "ftp", some ()⟩

def plainSite : Toplevel := ⟨some (ascii "host"), 0, none, none⟩

theorem uriIsParentChecked_appended_site :
    ∃ d, [ascii "pub", ascii "a b"].foldlM (uriAppendFileNameChecked plainContext) (.toplevel bareElement plainSite) = some d ∧
      ∃ enough, ∀ fuel, enough ≤ fuel →
        uriIsParentChecked plainContext fuel (.toplevel bareElement plainSite) d true = some true ∧
        uriIsParentChecked plainContext fuel (.toplevel bareElement plainSite) d false = some (decide (2 = 1)) ∧
        uriIsParentChecked plainContext fuel d (.toplevel bareElement plainSite) true = some false :=
  (uriIsParentChecked_appended plainContext bareElement plainSite [] [ascii "pub", ascii "a b"]
    ⟨⟨by decide, by decide⟩, by decide, rfl, rfl, rfl, rfl, by rintro u ⟨⟩, by rintro p ⟨⟩,
      by rintro h ⟨⟩; decide, by decide, by rintro ⟨⟩⟩
    rfl (Or.inr ⟨rfl, rfl⟩) (by decide) (by
      intro name member
      simp only [List.mem_cons, List.not_mem_nil, or_false] at member
      rcases member with rfl | rfl
      · exact ⟨by decide, by decide, by decide, by decide, by decide⟩
      · exact ⟨by decide, by decide, by decide, by decide, by decide⟩) (by decide +kernel)).1

/-- What cannot be escaped cannot be appended. -/
theorem uriIsParentChecked_runs_over : (∀ name ∈ [List.replicate (2 ^ 30) chrPercent], FileName name) ∧
    ¬ ∃ d, [List.replicate (2 ^ 30) chrPercent].foldlM (uriAppendFileNameChecked plainContext)
      (.toplevel ⟨some [chrSlash], none, ascii "ftp", some ()⟩ ⟨some (ascii "h"), 0, none, none⟩) = some d := by
  constructor
  · intro name member
    rw [List.mem_singleton.mp member]
    exact percents_fileName
  · rw [List.foldlM_cons, uriAppendFileNameChecked_percents]
    rintro ⟨d, never⟩
    cases never

end Ancestor

end Names

end GnomeVfs
