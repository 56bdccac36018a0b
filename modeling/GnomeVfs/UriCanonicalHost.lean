import GnomeVfs.CanonicalizeAbove
import GnomeVfs.UriAuthority
import GnomeVfs.UriCanonicalPath
import GnomeVfs.UriPort

/- A path that starts with two slashes and a name. Alone it is read as a host, a port and a path, and behind `file://`
as a path. -/
namespace GnomeVfs

section Read

/-- A plain text in front of which two slashes stand, as the parser takes it apart. -/
structure AuthorityText (host port rest : Bytes) : Prop where
  plain : ∀ c ∈ host ++ (port ++ rest), isPlain c = true
  hostClean : ∀ c ∈ host, c ≠ chrColon ∧ c ≠ chrSlash
  portHead : port = [] ∨ ∃ digits, port = chrColon :: digits
  portClear : chrSlash ∉ port
  restHead : rest = [] ∨ ∃ tail, rest = chrSlash :: tail
  nonempty : host ++ port ≠ []

/-- What makes the parser give up. -/
def AuthorityFails (host port rest : Bytes) : Prop :=
  host = [] ∨ (port ≠ [] ∧
    (port.tail ++ rest = [] ∨ (∃ c ∈ port.tail, isDigit c = false) ∨ 0xffff < scanPort port.tail))

instance (host port rest : Bytes) : Decidable (AuthorityFails host port rest) :=
  inferInstanceAs (Decidable (_ ∨ (_ ∧ (_ ∨ _ ∨ _))))

variable {host port rest : Bytes}

theorem AuthorityText.tail (text : AuthorityText host port rest) : HostTail port rest := by
  refine ⟨text.portHead, fun c member => ?_, text.restHead⟩
  have plain := text.plain c (List.mem_append_right _ (List.mem_append_left _ member))
  refine ⟨?_, ?_, ?_, ?_⟩
  · rintro rfl
    exact absurd plain (by decide)
  · rintro rfl
    exact absurd plain (by decide)
  · rintro rfl
    exact absurd plain (by decide)
  · rintro rfl
    exact text.portClear member

theorem AuthorityText.name (text : AuthorityText host port rest) : ∀ d ∈ [0, chrSlash, chrColon, chrClose, chrAt, chrOpen], d ∉ host := by
  have other : ∀ d ∈ [0, chrClose, chrAt, chrOpen], isPlain d = false := by decide
  intro d delimiter member
  have clean := text.hostClean d member
  have plain := text.plain d (List.mem_append_left _ member)
  by_cases hidden : d ∈ [0, chrClose, chrAt, chrOpen]
  · rw [other d hidden] at plain
    cases plain
  · simp only [List.mem_cons, List.not_mem_nil, or_false, not_or] at delimiter hidden
    rcases delimiter with rfl | rfl | rfl | rfl | rfl | rfl
    · exact hidden.1 rfl
    · exact clean.2 rfl
    · exact clean.1 rfl
    · exact hidden.2.1 rfl
    · exact hidden.2.2.1 rfl
    · exact hidden.2.2.2 rfl

theorem scanPort_stop {digits : Bytes} (all : ∀ c ∈ digits, isDigit c = true) (tail : rest = [] ∨ ∃ more, rest = chrSlash :: more) :
    scanPort (digits ++ rest) = scanPort digits ∧ (digits ++ rest).dropWhile isDigit = rest := by
  rcases tail with rfl | ⟨more, rfl⟩
  · rw [List.append_nil]
    refine ⟨rfl, ?_⟩
    rw [List.dropWhile_eq_nil_iff]
    exact all
  · have whole : digits.takeWhile isDigit = digits := List.takeWhile_eq_self_iff.mpr all
    rw [scanPort, (takeWhile_digits all more).1, (takeWhile_digits all more).2, scanPort, whole]
    exact ⟨rfl, rfl⟩

theorem exists_other {digits : Bytes} (some_other : ¬ ∀ c ∈ digits, isDigit c = true) :
    ∃ front d back, digits = front ++ d :: back ∧ (∀ c ∈ front, isDigit c = true) ∧ isDigit d = false := by
  induction digits with
  | nil => exact absurd (by simp) some_other
  | cons c more ih =>
    by_cases digit : isDigit c = true
    · obtain ⟨front, d, back, rfl, all, other⟩ := ih fun all => some_other (List.forall_mem_cons.mpr ⟨digit, all⟩)
      exact ⟨c :: front, d, back, rfl, List.forall_mem_cons.mpr ⟨digit, all⟩, other⟩
    · exact ⟨[], c, more, rfl, by simp, Bool.eq_false_iff.mpr digit⟩

/-- The path that is left behind the host and the port. -/
def behindPort (port rest : Bytes) : Bytes := if port ≠ [] ∧ rest = [] then [chrSlash] else rest

theorem AuthorityText.splitHost (text : AuthorityText host port rest) :
    (AuthorityFails host port rest → splitHost (host ++ (port ++ rest)) (pointer (port ++ rest)) 0 = none) ∧
    (¬ AuthorityFails host port rest → splitHost (host ++ (port ++ rest)) (pointer (port ++ rest)) 0 =
      some ⟨some host, if port = [] then 0 else scanPort port.tail, behindPort port rest⟩) := by
  rcases text.portHead with rfl | ⟨digits, rfl⟩
  · have some_host : host ≠ [] := by simpa using text.nonempty
    have fine : ¬ AuthorityFails host [] rest := by
      rintro (none | ⟨some_port, -⟩)
      · exact some_host none
      · exact some_port rfl
    refine ⟨fun fails => absurd fails fine, fun _ => ?_⟩
    rcases text.restHead with rfl | ⟨tail, rfl⟩
    · have last : host.getLast? ≠ some chrSlash := fun ends => text.name chrSlash (by decide) (List.mem_of_getLast? ends)
      rw [List.append_nil, List.append_nil, pointer, GnomeVfs.splitHost, if_neg some_host, if_neg last]
      rfl
    · rw [List.nil_append, pointer, GnomeVfs.splitHost]
      dsimp only
      rw [pointsAt_cons, if_neg (by decide), strdupTo_append, if_neg some_host]
      simp [behindPort]
  · rw [List.cons_append, pointer, GnomeVfs.splitHost]
    dsimp only
    rw [pointsAt_cons, if_pos (by decide), strdupTo_append, List.tail_cons]
    by_cases empty : host = [] ∨ digits ++ rest = []
    · rw [if_pos empty]
      refine ⟨fun _ => rfl, fun fine => absurd ?_ fine⟩
      exact empty.imp_right fun none => ⟨List.cons_ne_nil _ _, Or.inl none⟩
    rw [if_neg empty]
    rw [not_or] at empty
    by_cases all : ∀ c ∈ digits, isDigit c = true
    · rw [(scanPort_stop all text.restHead).1, (scanPort_stop all text.restHead).2]
      have stop : ¬ (rest.head?.getD 0 ≠ 0 ∧ rest.head?.getD 0 ≠ chrSlash) := by
        rcases text.restHead with rfl | ⟨tail, rfl⟩
        · exact fun both => both.1 rfl
        · exact fun both => both.2 rfl
      rw [if_neg stop]
      by_cases above : 0xffff < scanPort digits
      · rw [if_pos above]
        exact ⟨fun _ => rfl, fun fine => absurd (Or.inr ⟨List.cons_ne_nil _ _, Or.inr (Or.inr above)⟩) fine⟩
      · rw [if_neg above]
        refine ⟨fun fails => ?_, fun _ => ?_⟩
        · rcases fails with none | ⟨-, none | ⟨c, member, other⟩ | above'⟩
          · exact absurd none empty.1
          · exact absurd none empty.2
          · rw [all c member] at other
            cases other
          · exact absurd above' above
        · rcases text.restHead with rfl | ⟨tail, rfl⟩
          · rfl
          · rfl
    · obtain ⟨front, d, back, rfl, front_digits, other⟩ := exists_other all
      have stop : ((front ++ d :: back) ++ rest).dropWhile isDigit = d :: (back ++ rest) := by
        rw [List.append_assoc, List.dropWhile_append_of_pos front_digits, List.cons_append, List.dropWhile_cons,
          if_neg (by simp [other])]
      have member : d ∈ chrColon :: (front ++ d :: back) := by simp
      have clean := text.tail.portClean d member
      rw [stop, List.head?_cons, Option.getD_some, if_pos ⟨clean.1, clean.2.2.2⟩]
      refine ⟨fun _ => rfl, fun fine => absurd ?_ fine⟩
      exact Or.inr ⟨List.cons_ne_nil _ _, Or.inr (Or.inl ⟨d, by simp, other⟩)⟩

theorem AuthorityText.splitToplevelUri (text : AuthorityText host port rest) :
    (AuthorityFails host port rest → splitToplevelUri (host ++ (port ++ rest)) 0 = .failed) ∧
    (¬ AuthorityFails host port rest → splitToplevelUri (host ++ (port ++ rest)) 0 =
      ⟨some (behindPort port rest), some (strdown host), none, if port = [] then 0 else scanPort port.tail, none⟩) := by
  have scanned : splitScan (host ++ (port ++ rest)) = pointer (port ++ rest) := by
    refine splitScan_plain text.tail (fun c member => ?_) (text.name _ (by decide)) (text.name _ (by decide))
      (text.name _ (by decide))
    refine ⟨?_, (text.hostClean c member).2⟩
    rintro rfl
    exact text.name 0 (by decide) member
  have some_text : host ++ (port ++ rest) ≠ [] := by
    rw [← List.append_assoc]
    exact List.append_ne_nil_of_left_ne_nil text.nonempty _
  have finish : GnomeVfs.splitToplevelUri (host ++ (port ++ rest)) 0 =
      splitFinish ⟨none, none, host ++ (port ++ rest), pointer (port ++ rest)⟩ 0 := by
    rw [GnomeVfs.splitToplevelUri, if_neg some_text, scanned]
    cases here : pointer (port ++ rest) with
    | none => rfl
    | some cur =>
      dsimp only
      rw [text.tail.not_endsUserName here, if_neg Bool.false_ne_true]
  rw [finish, splitFinish]
  dsimp only
  constructor
  · intro fails
    rw [text.splitHost.1 fails]
  · intro fine
    have plainHost : splitHostName host = strdown host := by
      rw [splitHostName]
      exact if_neg fun both => text.name chrOpen (by decide) both.1
    rw [text.splitHost.2 fine]
    dsimp only
    rw [Option.map_some, plainHost]

variable {Method : Type} (ctx : UriContext Method)

/-- The host and the port as they are printed. -/
def printedAuthority (host port : Bytes) : Bytes :=
  strdown host ++ printPort (if port = [] then 0 else scanPort port.tail)

theorem behindPort_plain (text : AuthorityText host port rest) : ∀ c ∈ behindPort port rest, isPlain c = true := by
  intro c member
  rw [behindPort] at member
  split at member
  · cases List.mem_singleton.mp member
    rfl
  · exact text.plain c (List.mem_append_right _ (List.mem_append_right _ member))

/-- The canonical URI of a text with an authority. The slash that is missing is added behind `file:`. -/
theorem fileUri_authority (text : AuthorityText host port rest) :
    (AuthorityFails host port rest →
      fileSlashes (fileUri ctx (chrSlash :: chrSlash :: (host ++ (port ++ rest)))) = pathUri []) ∧
    (¬ AuthorityFails host port rest →
      fileSlashes (fileUri ctx (chrSlash :: chrSlash :: (host ++ (port ++ rest)))) =
        pathUri (chrSlash :: (printedAuthority host port ++ canonicalizePathname (behindPort port rest)))) := by
  have element : setUriElement ctx false (ascii "file") (chrSlash :: chrSlash :: (host ++ (port ++ rest))) 0 =
      ((splitToplevelUri (host ++ (port ++ rest)) 0).text.map (normalizeText ctx (ascii "file")),
        ⟨(splitToplevelUri (host ++ (port ++ rest)) 0).host, (splitToplevelUri (host ++ (port ++ rest)) 0).port,
          (splitToplevelUri (host ++ (port ++ rest)) 0).user, (splitToplevelUri (host ++ (port ++ rest)) 0).password⟩) := by
    rw [setUriElement, if_neg (List.cons_ne_nil _ _), if_pos ⟨rfl, rfl⟩]
    rfl
  constructor
  · intro fails
    rw [fileUri, element, text.splitToplevelUri.1 fails]
    rfl
  · intro fine
    have some_host : host ≠ [] := fun none => fine (Or.inl none)
    have noColon : chrColon ∉ strdown host := by
      rw [mem_strdown_iff (by decide)]
      exact text.name _ (by decide)
    have printed : fileUri ctx (chrSlash :: chrSlash :: (host ++ (port ++ rest))) =
        ascii "file://" ++ (printedAuthority host port ++ canonicalizePathname (behindPort port rest)) := by
      have scheme : ascii "file://" = ascii "file" ++ chrColon :: [chrSlash, chrSlash] := by decide
      rw [fileUri, element, text.splitToplevelUri.2 fine, Option.map_some, normalizeText_plain ctx (behindPort_plain text),
        uriToString_toplevel, printBody, printAuthority_none, scheme, printedAuthority]
      simp [printsSlashes, printUserInfo, hostText, printHost, noColon, printFragment, HideOptions.none]
    have two : (ascii "file://").isPrefixOf
        (ascii "file://" ++ (printedAuthority host port ++ canonicalizePathname (behindPort port rest))) = true := by
      rw [List.isPrefixOf_iff_prefix]
      exact List.prefix_append _ _
    have three : (!(ascii "file:///").isPrefixOf
        (ascii "file://" ++ (printedAuthority host port ++ canonicalizePathname (behindPort port rest)))) = true := by
      rw [Bool.not_eq_true', Bool.eq_false_iff, ne_eq, List.isPrefixOf_iff_prefix]
      intro slashes
      have slash : [chrSlash] <+: printedAuthority host port ++ canonicalizePathname (behindPort port rest) :=
        (List.prefix_append_right_inj (ascii "file://")).mp slashes
      cases host with
      | nil => exact some_host rfl
      | cons c more =>
        obtain ⟨back, same⟩ := slash
        have first : chrSlash = toLower c := (List.cons.inj same).1
        exact (text.hostClean c (List.mem_cons_self ..)).2 (toLower_eq_slash.mp first.symm)
    rw [printed, fileSlashes, if_pos ⟨two, three⟩]
    rfl

end Read

section Lowered

variable {host port rest : Bytes}

/-- The path behind the authority once everything in front of the first colon is in lower case. -/
def loweredRest (port rest : Bytes) : Bytes := if port = [] then loweredPath rest else rest

theorem lowerScheme_append_clear {front : Bytes} (clear : chrColon ∉ front) (back : Bytes) :
    lowerScheme (front ++ back) = strdown front ++ lowerScheme back := by
  induction front with
  | nil => rfl
  | cons c more ih =>
    rw [List.mem_cons, not_or] at clear
    rw [List.cons_append, lowerScheme_cons, if_neg (Ne.symm clear.1), ih clear.2]
    rfl

/-- The host in lower case, where there is a colon. -/
theorem AuthorityText.loweredPath (text : AuthorityText host port rest) : ∃ host',
    loweredPath (chrSlash :: chrSlash :: (host ++ (port ++ rest))) =
      chrSlash :: chrSlash :: (host' ++ (port ++ loweredRest port rest)) ∧ strdown host' = strdown host ∧
        AuthorityText host' port (loweredRest port rest) := by
  have plain : ∀ c ∈ chrSlash :: chrSlash :: (host ++ (port ++ rest)), isPlain c = true :=
    List.forall_mem_cons.mpr ⟨rfl, List.forall_mem_cons.mpr ⟨rfl, text.plain⟩⟩
  have lower_plain := isPlain_loweredPath plain
  by_cases colon : chrColon ∈ chrSlash :: chrSlash :: (host ++ (port ++ rest))
  · have clear : chrColon ∉ chrSlash :: chrSlash :: host := by
      simpa using text.name chrColon (by decide)
    have shape : GnomeVfs.loweredPath (chrSlash :: chrSlash :: (host ++ (port ++ rest))) =
        chrSlash :: chrSlash :: (strdown host ++ (port ++ loweredRest port rest)) := by
      have whole := lowerScheme_append_clear clear (port ++ rest)
      rw [GnomeVfs.loweredPath, if_pos colon, ← List.cons_append, ← List.cons_append, whole]
      have behind : lowerScheme (port ++ rest) = port ++ loweredRest port rest := by
        rcases text.portHead with rfl | ⟨digits, rfl⟩
        · have later : chrColon ∈ rest := by
            simpa [text.name chrColon (by decide)] using colon
          rw [loweredRest, if_pos rfl, GnomeVfs.loweredPath, if_pos later]
          rfl
        · rw [List.cons_append, lowerScheme_cons, if_pos rfl, loweredRest, if_neg (List.cons_ne_nil _ _), List.cons_append]
      rw [behind]
      rfl
    rw [shape] at lower_plain
    refine ⟨strdown host, shape, strdown_strdown host, ?_, ?_, text.portHead, text.portClear, ?_, ?_⟩
    · exact fun c member => lower_plain c (List.mem_cons_of_mem _ (List.mem_cons_of_mem _ member))
    · intro c member
      refine ⟨?_, ?_⟩
      · rintro rfl
        exact text.name chrColon (by decide) ((mem_strdown_iff (by decide) host).mp member)
      · rintro rfl
        exact text.name chrSlash (by decide) ((mem_strdown_iff (by decide) host).mp member)
    · rw [loweredRest, GnomeVfs.loweredPath]
      rcases text.restHead with rfl | ⟨tail, rfl⟩
      · left
        split
        · rfl
        · rfl
      · right
        rw [lowerScheme_slash]
        split
        · split
          · exact ⟨_, rfl⟩
          · exact ⟨_, rfl⟩
        · exact ⟨_, rfl⟩
    · intro none
      obtain ⟨none_host, rfl⟩ := List.append_eq_nil_iff.mp none
      refine text.nonempty ?_
      rw [List.map_eq_nil_iff.mp none_host]
      rfl
  · have none_port : port = [] := by
      rcases text.portHead with none | ⟨digits, rfl⟩
      · exact none
      · exact absurd (by simp) colon
    have same : loweredRest port rest = rest := by
      have clear : chrColon ∉ rest := fun member => colon (by simp [member])
      rw [loweredRest, if_pos none_port, GnomeVfs.loweredPath, if_neg clear]
    rw [same]
    refine ⟨host, ?_, rfl, text⟩
    rw [GnomeVfs.loweredPath, if_neg colon]

/-- Whether the parser gives up does not depend on the case of letters. -/
theorem AuthorityText.fails_lowered (text : AuthorityText host port rest) {host' : Bytes}
    (same : strdown host' = strdown host) :
    AuthorityFails host' port (loweredRest port rest) ↔ AuthorityFails host port rest := by
  have length : host'.length = host.length := by rw [← strdown_length host', same, strdown_length]
  have none_host : host' = [] ↔ host = [] := by
    rw [← List.length_eq_zero_iff, length, List.length_eq_zero_iff]
  rw [AuthorityFails, AuthorityFails, none_host]
  refine or_congr_right (and_congr_right fun some_port => ?_)
  have rest_same : loweredRest port rest = rest := if_neg some_port
  rw [rest_same]

variable {Method : Type} (ctx : UriContext Method) {before : UInt8}

theorem makeUriCanonical_authority {p : Bytes} (text : AuthorityText host port rest)
    (handled : handleTrailingSlashes before p = some (chrSlash :: chrSlash :: (host ++ (port ++ rest)))) :
    (AuthorityFails host port rest → makeUriCanonical ctx before p = some (pathUri [])) ∧
    (¬ AuthorityFails host port rest → makeUriCanonical ctx before p =
      some (pathUri (chrSlash :: (printedAuthority host port ++
        canonicalizePathname (behindPort port (loweredRest port rest)))))) := by
  have plain : ∀ c ∈ chrSlash :: chrSlash :: (host ++ (port ++ rest)), isPlain c = true :=
    List.forall_mem_cons.mpr ⟨rfl, List.forall_mem_cons.mpr ⟨rfl, text.plain⟩⟩
  obtain ⟨host', shape, same, text'⟩ := text.loweredPath
  have printed : printedAuthority host' port = printedAuthority host port := by
    rw [printedAuthority, printedAuthority, same]
  have uri := fileUri_authority ctx text'
  rw [text.fails_lowered same, printed] at uri
  rw [makeUriCanonical_absolute ctx handled plain rfl, shape]
  exact ⟨fun fails => congrArg some (uri.1 fails), fun fine => congrArg some (uri.2 fine)⟩

end Lowered

section Same

variable {part other text back rest : Bytes}

/-- Two names in front of absolute paths. -/
theorem append_path_inj (clear : chrSlash ∉ part) (clear' : chrSlash ∉ other) (rooted : isRooted text = true)
    (rooted' : isRooted back = true) : part ++ text = other ++ back ↔ part = other ∧ text = back := by
  obtain ⟨tail, rfl⟩ := isRooted_iff.mp rooted
  obtain ⟨tail', rfl⟩ := isRooted_iff.mp rooted'
  have front : ∀ {name : Bytes}, chrSlash ∉ name → ∀ tail, (name ++ chrSlash :: tail).takeWhile (· != chrSlash) = name := by
    intro name clear tail
    rw [List.takeWhile_append_of_pos fun c member => by
      rw [bne_iff_ne]
      rintro rfl
      exact clear member]
    simp
  constructor
  · intro same
    have names := congrArg (List.takeWhile (· != chrSlash)) same
    rw [front clear, front clear'] at names
    subst names
    exact ⟨rfl, List.append_cancel_left same⟩
  · rintro ⟨rfl, same⟩
    rw [same]

/-- A canonical path with a name in front of it that is printed otherwise. -/
theorem canonicalizePathname_entry_iff (clear : chrSlash ∉ part) (nonempty : part ≠ []) (proper : (0 : UInt8) ∉ part)
    (proper' : (0 : UInt8) ∉ rest) (clear' : chrSlash ∉ other) (nonempty' : other ≠ [])
    (long : (canonicalizePathname (chrSlash :: rest)).length ≤ text.length)
    (rooted : stays 0 true 0 (segments rest) = true → isRooted text = true) :
    canonicalizePathname (chrSlash :: (part ++ chrSlash :: rest)) = chrSlash :: (other ++ text) ↔
      IsName part ∧ stays 1 true 0 (segments rest) = true ∧ part = other ∧ canonicalizePathname (chrSlash :: rest) = text := by
  rcases canonicalizePathname_entry clear nonempty proper proper' with
    ⟨name, kept, whole⟩ | ⟨name, kept, short, whole, -⟩ | ⟨gone, left⟩
  · have root : isRooted (canonicalizePathname (chrSlash :: rest)) = true := by
      rw [isRooted_canonicalizePathname (by simpa using proper') rfl]
      exact stays_weaken _ _ _ kept
    rw [whole, List.cons_append, List.cons.injEq, append_path_inj clear clear' root (rooted (stays_weaken _ _ _ kept))]
    exact ⟨fun same => ⟨name, kept, same.2⟩, fun same => ⟨rfl, same.2.2⟩⟩
  · refine iff_of_false (fun same => clear ?_) fun same => ?_
    · obtain ⟨tail, rfl⟩ := isRooted_iff.mp (rooted kept)
      rw [whole] at same
      rw [(List.cons.inj same).2]
      simp
    · rw [short] at same
      cases same.2.1
  · refine iff_of_false (fun same => ?_) fun same => gone ⟨same.1, stays_weaken _ _ _ same.2.1⟩
    rw [same] at left
    rcases left with relative | doubled | short
    · cases relative
    · obtain ⟨c, more, rfl⟩ := List.exists_cons_of_ne_nil nonempty'
      have second : c = chrSlash := by simpa using doubled
      exact clear' (second ▸ List.mem_cons_self ..)
    · have := List.length_pos_iff.mpr nonempty'
      rw [List.length_cons, List.length_append] at short
      omega

variable {host port : Bytes}

theorem printedAuthority_clear (text : AuthorityText host port rest) : chrSlash ∉ printedAuthority host port := by
  rw [printedAuthority, List.mem_append, not_or]
  constructor
  · rw [mem_strdown_iff (by decide)]
    exact text.name chrSlash (by decide)
  · generalize (if port = [] then 0 else scanPort port.tail) = number
    rw [printPort]
    split
    · intro member
      rcases List.mem_cons.mp member with same | inside
      · exact absurd same (by decide)
      · exact absurd (decimal_isDigit _ _ inside) (by decide)
    · simp

theorem printedAuthority_nonempty (fine : ¬ AuthorityFails host port rest) : printedAuthority host port ≠ [] := by
  refine List.append_ne_nil_of_left_ne_nil (fun none => fine (Or.inl ?_)) _
  exact List.map_eq_nil_iff.mp none

theorem loweredRest_behind (port tail : Bytes) :
    behindPort port (loweredRest port (chrSlash :: tail)) = loweredRest port (chrSlash :: tail) := by
  refine if_neg fun both => ?_
  rw [loweredRest, loweredPath, lowerScheme_slash] at both
  split at both
  · split at both
    · exact absurd both.2 (List.cons_ne_nil _ _)
    · exact absurd both.2 (List.cons_ne_nil _ _)
  · exact absurd both.2 (List.cons_ne_nil _ _)

theorem loweredRest_length (port : Bytes) (proper : (0 : UInt8) ∉ rest) :
    (canonicalizePathname (loweredRest port rest)).length = (canonicalizePathname rest).length := by
  rw [loweredRest, loweredPath]
  split
  · split
    case isTrue colon => exact (canonicalizePathname_lowerScheme proper colon).2.symm
    case isFalse => rfl
  · rfl

theorem loweredRest_rooted (port : Bytes) (proper : (0 : UInt8) ∉ rest) :
    isRooted (canonicalizePathname (loweredRest port (chrSlash :: rest))) = stays 0 true 0 (segments rest) := by
  have proper' : (0 : UInt8) ∉ chrSlash :: rest := by simpa using proper
  have same : isRooted (canonicalizePathname (chrSlash :: rest)) = stays 0 true 0 (segments rest) :=
    isRooted_canonicalizePathname proper' rfl
  rw [loweredRest, loweredPath]
  split
  · split
    case isTrue colon =>
      have lower := lowerScheme_stays 0 colon
      have proper'' := lowerScheme_not_mem (d := 0) (by decide) proper'
      rw [lowerScheme_slash] at lower proper'' ⊢
      rw [isRooted_canonicalizePathname proper'' rfl, List.tail_cons]
      rw [segments_slash, segments_slash, List.tail_cons, List.tail_cons] at lower
      exact lower.symm
    case isFalse => exact same
  · exact same

theorem AuthorityText.clean (text : AuthorityText host port rest) : chrSlash ∉ host ++ port ∧ (0 : UInt8) ∉ host ++ port ∧
    (0 : UInt8) ∉ rest := by
  refine ⟨?_, ?_, ?_⟩
  · rw [List.mem_append, not_or]
    exact ⟨text.name chrSlash (by decide), text.portClear⟩
  · rw [List.mem_append, not_or]
    exact ⟨text.name 0 (by decide), fun member => (text.tail.portClean 0 member).1 rfl⟩
  · intro member
    exact absurd (text.plain 0 (by simp [member])) (by decide)

/-- Where the path is left as it is, both readings agree exactly when the host and the port are printed as they are
written, the name stays, and lower case makes no difference behind it. -/
theorem authority_same_iff (text : AuthorityText host port rest) (fine : ¬ AuthorityFails host port rest) :
    canonicalizePathname (chrSlash :: chrSlash :: (host ++ (port ++ rest))) =
        chrSlash :: (printedAuthority host port ++ canonicalizePathname (behindPort port (loweredRest port rest))) ↔
      IsName (host ++ port) ∧ (rest = [] → port = []) ∧ (rest ≠ [] → stays 1 true 0 (segments rest.tail) = true) ∧
        host ++ port = printedAuthority host port ∧ canonicalizePathname rest = canonicalizePathname (loweredRest port rest) := by
  obtain ⟨clear, proper, proper'⟩ := text.clean
  have proper_whole : (0 : UInt8) ∉ host ++ (port ++ rest) := plain_not_mem text.plain (by decide)
  rw [canonicalizePathname_slashes proper_whole, ← List.append_assoc]
  rcases text.restHead with rfl | ⟨tail, rfl⟩
  · have alone := canonicalizePathname_alone clear proper
    have nothing : loweredRest port [] = [] := by
      rw [loweredRest, loweredPath]
      simp
    rw [List.append_nil, nothing]
    by_cases special : host ++ port = [chrDot] ∨ host ++ port = [chrDot, chrDot]
    · refine iff_of_false (fun same => ?_) fun same => special.elim same.1.dot same.1.dots
      have short := alone.2 special
      have := List.length_pos_iff.mpr (printedAuthority_nonempty fine)
      rw [same, List.length_cons, List.length_append] at short
      omega
    · rw [not_or] at special
      rw [alone.1 special.1 special.2, List.cons.injEq, behindPort]
      have name : IsName (host ++ port) := ⟨text.nonempty, special.1, special.2⟩
      by_cases none_port : port = []
      · rw [if_neg fun both => both.1 none_port]
        have empty : canonicalizePathname [] = [] := rfl
        rw [empty, List.append_nil]
        exact ⟨fun same => ⟨name, fun _ => none_port, fun other => absurd rfl other, same.2, rfl⟩,
          fun same => ⟨rfl, same.2.2.2.1⟩⟩
      · rw [if_pos ⟨none_port, rfl⟩]
        refine iff_of_false (fun same => clear ?_) fun same => none_port (same.2.1 rfl)
        have root : canonicalizePathname [chrSlash] = [chrSlash] := by decide
        rw [same.2, root]
        simp
  · have proper_tail : (0 : UInt8) ∉ tail := fun member => proper' (List.mem_cons_of_mem _ member)
    rw [loweredRest_behind, canonicalizePathname_entry_iff clear text.nonempty proper proper_tail (printedAuthority_clear text)
      (printedAuthority_nonempty fine) (Nat.le_of_eq (loweredRest_length port proper').symm)
      fun kept => (loweredRest_rooted port proper_tail).trans kept]
    simp only [List.cons_ne_nil, false_implies, ne_eq, not_false_eq_true, true_implies, List.tail_cons, true_and]

/-- With a slash left behind the path the two readings never agree. -/
theorem authority_slash (text : AuthorityText host port rest) (fine : ¬ AuthorityFails host port rest)
    (last : (host ++ (port ++ rest)).getLast? ≠ some chrSlash) :
    canonicalizePathname (chrSlash :: chrSlash :: (host ++ (port ++ rest))) ≠
      chrSlash :: (printedAuthority host port ++ canonicalizePathname (behindPort port (loweredRest port (rest ++ [chrSlash])))) := by
  obtain ⟨clear, proper, proper'⟩ := text.clean
  have proper_whole : (0 : UInt8) ∉ host ++ (port ++ rest) := plain_not_mem text.plain (by decide)
  rw [canonicalizePathname_slashes proper_whole, ← List.append_assoc]
  intro same
  rcases text.restHead with rfl | ⟨tail, rfl⟩
  · have alone := canonicalizePathname_alone clear proper
    have lowered : loweredRest port [chrSlash] = [chrSlash] := by
      rw [loweredRest, loweredPath]
      simp
    have behind : behindPort port [chrSlash] = [chrSlash] := if_neg fun both => absurd both.2 (List.cons_ne_nil _ _)
    have root : canonicalizePathname [chrSlash] = [chrSlash] := by decide
    rw [List.append_nil, List.nil_append, lowered, behind, root] at same
    by_cases special : host ++ port = [chrDot] ∨ host ++ port = [chrDot, chrDot]
    · have short := alone.2 special
      rw [same] at short
      simp at short
    · rw [not_or] at special
      rw [alone.1 special.1 special.2] at same
      refine clear ?_
      rw [(List.cons.inj same).2]
      simp
  · have proper_tail : (0 : UInt8) ∉ tail := fun member => proper' (List.mem_cons_of_mem _ member)
    have proper_slash : (0 : UInt8) ∉ tail ++ [chrSlash] := by simpa using proper_tail
    have last_rest : (chrSlash :: tail).getLast? ≠ some chrSlash := by
      rwa [← List.append_assoc, List.getLast?_append_of_ne_nil _ (List.cons_ne_nil _ _)] at last
    have rest_closed := canonicalizePathname_closed proper' (List.cons_ne_nil _ _) last_rest
    have parts : segments (tail ++ [chrSlash]) = segments tail ++ [[]] := segments_append_slash tail []
    have length := @loweredRest_length (chrSlash :: tail ++ [chrSlash]) port (by simpa using proper_tail)
    have some_rest : behindPort port (loweredRest port (chrSlash :: tail ++ [chrSlash])) =
        loweredRest port (chrSlash :: tail ++ [chrSlash]) := loweredRest_behind port _
    rw [some_rest] at same
    obtain ⟨name, kept, names, whole⟩ := (canonicalizePathname_entry_iff clear text.nonempty proper proper_tail
      (printedAuthority_clear text) (printedAuthority_nonempty fine) (rest_closed.2.2.trans (Nat.le_of_eq length.symm))
      (fun kept => by
        rw [List.cons_append, loweredRest_rooted port proper_slash, parts, stays_append_empty]
        exact kept)).mp same
    -- the name stays with the slash behind the path as well, so both paths are as long
    have proper_core : (0 : UInt8) ∉ chrSlash :: (host ++ port ++ chrSlash :: tail) := by
      rw [List.append_assoc]
      simpa using proper_whole
    have last_core : (chrSlash :: (host ++ port ++ chrSlash :: tail)).getLast? ≠ some chrSlash := by
      rw [List.append_assoc, ← List.singleton_append, List.getLast?_append_of_ne_nil _ (by simp)]
      exact last
    have core_closed := canonicalizePathname_closed proper_core (List.cons_ne_nil _ _) last_core
    have core_slash : chrSlash :: (host ++ port ++ chrSlash :: tail) ++ [chrSlash] =
        chrSlash :: (host ++ port ++ chrSlash :: (tail ++ [chrSlash])) := by simp
    have still : stays 1 true 0 (segments (tail ++ [chrSlash])) = true := by
      rw [parts, stays_append_empty]
      exact stays_weaken _ _ _ kept
    rw [core_slash] at core_closed
    rcases canonicalizePathname_entry clear text.nonempty proper proper_slash with
      ⟨-, -, entry⟩ | ⟨-, -, short, -⟩ | ⟨gone, -⟩
    · have equal : (canonicalizePathname (chrSlash :: (host ++ port ++ chrSlash :: (tail ++ [chrSlash])))).length =
          (canonicalizePathname (chrSlash :: (host ++ port ++ chrSlash :: tail))).length := by
        rw [entry, same, ← names]
        simp only [List.cons_append, List.length_cons, List.length_append] at length ⊢
        rw [length]
      have short := core_closed.1.mp equal
      have := List.length_pos_iff.mpr text.nonempty
      rw [entry] at short
      simp only [List.cons_append, List.length_cons, List.length_append] at short this
      omega
    · rw [still] at short
      cases short
    · exact gone ⟨name, stays_weaken _ _ _ still⟩

end Same

section Nothing

variable {core : Bytes}

theorem walkSegments_empties (stack : List Bytes) (k : Nat) :
    walkSegments true stack (List.replicate (k + 1) []) = (stack, []) := by
  induction k with
  | zero => rfl
  | succ k ih => rw [List.replicate_succ, List.replicate_succ, walkSegments, if_pos ⟨rfl, rfl⟩, ← List.replicate_succ, ih]

theorem walkSegments_run (segs : List Bytes) (k : Nat) : ∀ (collapse : Bool) (stack : List Bytes) (last : Bytes),
    segs.getLast? = some last → IsName last →
      walkSegments collapse stack (segs ++ List.replicate (k + 1) []) =
        (last :: (walkSegments collapse stack segs).1, []) := by
  induction segs with
  | nil => exact fun _ _ _ none => by cases none
  | cons part rest ih =>
    intro collapse stack last ends name
    cases rest with
    | nil =>
      have same : part = last := Option.some.inj ends
      subst same
      have named : ¬ (part = [] ∧ collapse = true) := fun both => name.nonempty both.1
      have alone : walkSegments collapse stack [part] = (stack, part) := rfl
      rw [alone, List.cons_append, List.nil_append, List.replicate_succ, walkSegments, if_neg named, if_neg name.dot,
        if_neg fun both => name.dots both.1, ← List.replicate_succ, walkSegments_empties]
    | cons next more =>
      rw [List.getLast?_cons_cons] at ends
      have later := fun collapse stack => ih collapse stack last ends name
      rw [List.cons_append, List.cons_append, walkSegments, walkSegments, ← List.cons_append, later, later, later, later]
      split
      · rfl
      split
      · rfl
      split
      · rfl
      · rfl

theorem segments_slashes (front : Bytes) (k : Nat) :
    segments (front ++ List.replicate k chrSlash) = segments front ++ List.replicate k [] := by
  induction k with
  | zero => simp
  | succ k ih =>
    have one := segments_append_slash (front ++ List.replicate k chrSlash) []
    rw [List.replicate_succ', ← List.append_assoc, one, ih, List.replicate_succ', List.append_assoc]
    rfl

theorem trimmed_eq_nil {front : Bytes} : trimmed front = [] ↔ front = [] := by
  rw [trimmed]
  split
  case isTrue long =>
    refine iff_of_false (fun none => ?_) fun none => ?_
    · have := congrArg List.length none
      rw [List.length_dropLast, List.length_nil] at this
      omega
    · rw [none] at long
      cases long
  case isFalse => rfl

/-- Nothing is left of the path behind `file://` exactly when nothing is left of it with a slash behind it. -/
theorem localPath_nothing (proper : (0 : UInt8) ∉ core) (nonempty : core ≠ []) (last : core.getLast? ≠ some chrSlash) (n : Nat) :
    canonicalizePathname (localPath core n) = [] ↔ entriesLeft false 0 (segments (core ++ [chrSlash])) = 0 := by
  have parts : segments (core ++ [chrSlash]) = segments core ++ [[]] := segments_append_slash core []
  have entries := walkSegments_entriesLeft (segments core ++ [[]]) false []
  rw [List.length_nil] at entries
  rw [parts, ← entries, List.length_eq_zero_iff, localPath, if_neg nonempty]
  have closed := walkSegments_closed (segments core) false [] (segments_ne_nil core) (segments_getLast nonempty last)
  have alone : canonicalizePathname core = [] ↔ (walkSegments false [] (segments core ++ [[]])).1 = [] := by
    have some_last : (walkSegments false [] (segments core)).2 ≠ [] := by
      intro empty
      have ends := walkSegments_last (segments core) false [] (segments_ne_nil core)
      rw [empty] at ends
      exact segments_getLast nonempty last ends
    rw [canonicalizePathname_walk proper, closed, walkText, closedStack]
    dsimp only
    split
    · rw [trimmed_eq_nil, stackText_eq_nil]
    split
    · rw [trimmed_eq_nil, stackText_eq_nil]
    · exact iff_of_false (List.append_ne_nil_of_right_ne_nil _ some_last) (List.cons_ne_nil _ _)
  split
  case isFalse => exact alone
  case isTrue colon =>
    cases slashes : min n 3 with
    | zero => rw [List.replicate_zero, List.append_nil, alone]
    | succ k =>
      obtain ⟨front, c, rfl, other⟩ := exists_last nonempty last
      rw [List.getLast?_concat, Option.some.injEq] at colon
      obtain ⟨part, ends⟩ := segments_concat other front
      have name : IsName (part ++ [c]) := by
        subst colon
        refine ⟨by simp, fun same => ?_, fun same => ?_⟩
        · have := congrArg List.getLast? same
          simp at this
        · have := congrArg List.getLast? same
          simp at this
      have one := walkSegments_run (segments (front ++ [c])) 0 false [] (part ++ [c]) ends name
      have run := walkSegments_run (segments (front ++ [c])) k false [] (part ++ [c]) ends name
      have proper' : (0 : UInt8) ∉ front ++ [c] ++ List.replicate (k + 1) chrSlash := by
        rw [List.mem_append, not_or]
        exact ⟨proper, fun member => by cases List.eq_of_mem_replicate member⟩
      rw [canonicalizePathname_walk proper', segments_slashes, run]
      refine iff_of_false ?_ ?_
      · have text : ∀ stack : List Bytes, walkText (stack, []) = stackText false stack := fun stack => List.append_nil _
        rw [text, stackText_eq_nil]
        exact List.cons_ne_nil _ _
      · have single : List.replicate (0 + 1) ([] : Bytes) = [[]] := rfl
        rw [single] at one
        rw [one]
        exact List.cons_ne_nil _ _

end Nothing

section Agree

/-- The path as it is left behind `file://`. -/
def trimmedPath (p : Bytes) : Bytes := localPath (pathCore p) (p.length - (pathCore p).length)

/-- The parts of a text that starts with two slashes. -/
def authorityName (p : Bytes) : Bytes := (p.drop 2).takeWhile (· != chrSlash)
def authorityHost (p : Bytes) : Bytes := (authorityName p).takeWhile (· != chrColon)
def authorityPort (p : Bytes) : Bytes := (authorityName p).dropWhile (· != chrColon)
def authorityRest (p : Bytes) : Bytes := (p.drop 2).dropWhile (· != chrSlash)

/-- The authority is printed as it is written, and the path keeps it as its first entry. -/
structure AuthorityKept (q : Bytes) : Prop where
  name : IsName (authorityName q)
  lower : ∀ c ∈ authorityHost q, isUpper c = false
  port : authorityPort q = [] ∨ ∃ n, 0 < n ∧ n ≤ 65535 ∧ authorityPort q = chrColon :: decimal n
  path : authorityRest q = [] → authorityPort q = []
  stays : authorityRest q ≠ [] → stays 1 true 0 (segments (authorityRest q).tail) = true

/-- Whether the URI of a path that is read as an authority is the one of the path behind `file://`. -/
def AuthorityAgrees (p : Bytes) : Prop :=
  if AuthorityFails (authorityHost (trimmedPath p)) (authorityPort (trimmedPath p)) (authorityRest (trimmedPath p)) then
    entriesLeft false 0 (segments (pathCore p ++ [chrSlash])) = 0
  else (pathCore p = p ∨ (pathCore p).getLast? = some chrColon) ∧ AuthorityKept (trimmedPath p) ∧ keepsUpper p = false

variable {p host port rest : Bytes}

theorem AuthorityText.parts (text : AuthorityText host port rest) :
    authorityName (chrSlash :: chrSlash :: (host ++ (port ++ rest))) = host ++ port ∧
    authorityHost (chrSlash :: chrSlash :: (host ++ (port ++ rest))) = host ∧
    authorityPort (chrSlash :: chrSlash :: (host ++ (port ++ rest))) = port ∧
    authorityRest (chrSlash :: chrSlash :: (host ++ (port ++ rest))) = rest := by
  have apart : ∀ c ∈ host ++ port, (c != chrSlash) = true := by
    intro c member
    rw [bne_iff_ne]
    rintro rfl
    exact text.clean.1 member
  have before : ∀ c ∈ host, (c != chrColon) = true := fun c member => bne_iff_ne.mpr (text.hostClean c member).1
  have name : authorityName (chrSlash :: chrSlash :: (host ++ (port ++ rest))) = host ++ port := by
    rw [authorityName, List.drop_succ_cons, List.drop_succ_cons, List.drop_zero, ← List.append_assoc,
      List.takeWhile_append_of_pos apart]
    rcases text.restHead with rfl | ⟨tail, rfl⟩
    · simp
    · simp
  refine ⟨name, ?_, ?_, ?_⟩
  · rw [authorityHost, name, List.takeWhile_append_of_pos before]
    rcases text.portHead with rfl | ⟨digits, rfl⟩
    · simp
    · simp
  · rw [authorityPort, name, List.dropWhile_append_of_pos before]
    rcases text.portHead with rfl | ⟨digits, rfl⟩
    · rfl
    · simp
  · rw [authorityRest, List.drop_succ_cons, List.drop_succ_cons, List.drop_zero, ← List.append_assoc,
      List.dropWhile_append_of_pos apart]
    rcases text.restHead with rfl | ⟨tail, rfl⟩
    · rfl
    · simp

theorem exists_delimited (stop : UInt8) (text : Bytes) : ∃ front back, text = front ++ back ∧ stop ∉ front ∧
    (back = [] ∨ ∃ tail, back = stop :: tail) := by
  by_cases member : stop ∈ text
  · obtain ⟨front, back, rfl, absent⟩ := List.eq_append_cons_of_mem member
    exact ⟨front, stop :: back, rfl, absent, Or.inr ⟨back, rfl⟩⟩
  · exact ⟨text, [], (List.append_nil _).symm, member, Or.inl rfl⟩

theorem exists_authorityText (plain : ∀ c ∈ p, isPlain c = true) (authority : hasAuthority p = true) :
    ∃ host port rest, p = chrSlash :: chrSlash :: (host ++ (port ++ rest)) ∧ AuthorityText host port rest := by
  match p with
  | [] => cases authority
  | [_] => cases authority
  | [_, _] => cases authority
  | c :: d :: e :: more =>
    simp only [hasAuthority, Bool.and_eq_true, decide_eq_true_eq, ne_eq] at authority
    obtain ⟨⟨rfl, rfl⟩, other⟩ := authority
    obtain ⟨name, rest, split, clear, rest_head⟩ := exists_delimited chrSlash (e :: more)
    obtain ⟨host, port, rfl, before, port_head⟩ := exists_delimited chrColon name
    rw [List.append_assoc] at split
    refine ⟨host, port, rest, by rw [split], ?_, fun c member => ⟨?_, ?_⟩, port_head, ?_, rest_head, ?_⟩
    · rw [← split]
      exact fun c member => plain c (List.mem_cons_of_mem _ (List.mem_cons_of_mem _ member))
    · rintro rfl
      exact before member
    · rintro rfl
      exact clear (List.mem_append_left _ member)
    · exact fun member => clear (List.mem_append_right _ member)
    · intro none
      rw [← List.append_assoc, none, List.nil_append] at split
      rcases rest_head with rfl | ⟨tail, rfl⟩
      · cases split
      · exact other (List.cons.inj split).1

/-- The host and the port are printed as they are written. -/
theorem printedAuthority_same_iff (text : AuthorityText host port rest) (fine : ¬ AuthorityFails host port rest) :
    host ++ port = printedAuthority host port ↔
      (∀ c ∈ host, isUpper c = false) ∧ (port = [] ∨ ∃ n, 0 < n ∧ n ≤ 65535 ∧ port = chrColon :: decimal n) := by
  have hosts : host = strdown host ↔ ∀ c ∈ host, isUpper c = false := by
    constructor
    · intro same
      rw [same]
      exact strdown_lower host
    · exact fun lower => (strdown_of_lower lower).symm
  have ports : port = printPort (if port = [] then 0 else scanPort port.tail) ↔
      port = [] ∨ ∃ n, 0 < n ∧ n ≤ 65535 ∧ port = chrColon :: decimal n := by
    rcases text.portHead with rfl | ⟨digits, rfl⟩
    · exact iff_of_true rfl (Or.inl rfl)
    · rw [if_neg (List.cons_ne_nil _ _), List.tail_cons, or_iff_right (List.cons_ne_nil _ _), printPort]
      constructor
      · intro same
        split at same
        case isTrue positive =>
          refine ⟨(scanPort digits).toNat, UInt32.lt_iff_toNat_lt.mp positive, ?_, same⟩
          have inside : ¬ 0xffff < scanPort digits := fun above => fine (Or.inr ⟨List.cons_ne_nil _ _, Or.inr (Or.inr above)⟩)
          rw [UInt32.lt_iff_toNat_lt] at inside
          exact Nat.le_of_not_lt inside
        case isFalse => cases same
      · rintro ⟨n, positive, small, same⟩
        obtain ⟨-, rfl⟩ := List.cons.inj same
        have scanned := (@scanPort_decimal n [] (by simp)).1
        have number : (UInt32.ofNat n).toNat = n := UInt32.toNat_ofNat_of_lt' (by change n < 2 ^ 32; omega)
        rw [List.append_nil] at scanned
        rw [scanned, if_pos (UInt32.lt_iff_toNat_lt.mpr (by rw [number]; exact positive)), number]
  rw [printedAuthority, ← hosts, ← ports]
  constructor
  · exact fun same => List.append_inj same (strdown_length host).symm
  · rintro ⟨host_same, port_same⟩
    rw [← host_same, ← port_same]

theorem loweredRest_same_iff (text : AuthorityText host port rest) (lower : ∀ c ∈ host, isUpper c = false) :
    canonicalizePathname rest = canonicalizePathname (loweredRest port rest) ↔
      keepsUpper (chrSlash :: chrSlash :: (host ++ (port ++ rest))) = false := by
  have front : ∀ c ∈ chrSlash :: chrSlash :: host, isUpper c = false ∧ c ≠ chrColon := by
    intro c member
    rcases List.mem_cons.mp member with rfl | member
    · decide
    · rcases List.mem_cons.mp member with rfl | member
      · decide
      · exact ⟨lower c member, (text.hostClean c member).1⟩
  rw [← List.cons_append, ← List.cons_append, keepsUpper_append front, loweredRest]
  rcases text.portHead with rfl | ⟨digits, rfl⟩
  · rw [if_pos rfl, List.nil_append, eq_comm]
    exact loweredPath_iff fun c member => text.plain c (by simp [member])
  · rw [if_neg (List.cons_ne_nil _ _), List.cons_append, keepsUpper]
    simp

variable {Method : Type} (ctx : UriContext Method)

theorem AuthorityText.slash (text : AuthorityText host port rest) : AuthorityText host port (rest ++ [chrSlash]) := by
  refine ⟨fun c member => ?_, text.hostClean, text.portHead, text.portClear, Or.inr ?_, text.nonempty⟩
  · rw [← List.append_assoc, ← List.append_assoc] at member
    rcases List.mem_append.mp member with inside | same
    · exact text.plain c (by rwa [List.append_assoc] at inside)
    · cases List.mem_singleton.mp same
      rfl
  · rcases text.restHead with rfl | ⟨tail, rfl⟩
    · exact ⟨[], rfl⟩
    · exact ⟨tail ++ [chrSlash], rfl⟩

theorem AuthorityText.kept_iff (text : AuthorityText host port rest) (fine : ¬ AuthorityFails host port rest) :
    canonicalizePathname (chrSlash :: chrSlash :: (host ++ (port ++ rest))) =
        chrSlash :: (printedAuthority host port ++ canonicalizePathname (behindPort port (loweredRest port rest))) ↔
      AuthorityKept (chrSlash :: chrSlash :: (host ++ (port ++ rest))) ∧
        keepsUpper (chrSlash :: chrSlash :: (host ++ (port ++ rest))) = false := by
  obtain ⟨name, host_part, port_part, rest_part⟩ := text.parts
  rw [authority_same_iff text fine, printedAuthority_same_iff text fine]
  constructor
  · rintro ⟨named, path, stay, ⟨lower, spelled⟩, same⟩
    refine ⟨⟨?_, ?_, ?_, ?_, ?_⟩, (loweredRest_same_iff text lower).mp same⟩
    · rwa [name]
    · rwa [host_part]
    · rwa [port_part]
    · rwa [port_part, rest_part]
    · rwa [rest_part]
  · rintro ⟨⟨named, lower, spelled, path, stay⟩, upper⟩
    rw [name] at named
    rw [host_part] at lower
    rw [port_part] at spelled path
    rw [rest_part] at path stay
    exact ⟨named, path, stay, ⟨lower, spelled⟩, (loweredRest_same_iff text lower).mpr upper⟩

theorem makeUriCanonical_authority_iff (before1 before2 : UInt8) (plain : ∀ c ∈ p, isPlain c = true)
    (absolute : p.head? = some chrSlash) (authority : hasAuthority p = true) :
    (∃ uri, makeUriCanonical ctx before1 p = some uri ∧ makeUriCanonical ctx before2 (ascii "file://" ++ p) = some uri) ↔
      AuthorityAgrees p := by
  obtain ⟨core, n, rfl, last⟩ := exists_core p
  have nonempty : core ≠ [] := by
    rintro rfl
    match n with
    | 0 => cases authority
    | 1 => cases authority
    | 2 => cases authority
    | _ + 3 => cases authority
  have core_plain : ∀ c ∈ core, isPlain c = true := fun c member => plain c (List.mem_append_left _ member)
  have core_absolute : core.head? = some chrSlash := by
    rwa [List.head?_append_of_ne_nil _ nonempty] at absolute
  have core_authority : hasAuthority core = true := by rwa [hasAuthority_core last nonempty] at authority
  have trimmed_path : trimmedPath (core ++ List.replicate n chrSlash) = localPath core n := by
    rw [trimmedPath, pathCore_slashes last, List.length_append, List.length_replicate, Nat.add_sub_cancel_left]
  have trimmed_plain := localPath_plain core_plain n
  have trimmed_upper : keepsUpper (localPath core n) = keepsUpper (core ++ List.replicate n chrSlash) := by
    rw [localPath, if_neg nonempty, keepsUpper_slashes]
    split
    · exact keepsUpper_slashes core _
    · rfl
  have trimmed_authority : hasAuthority (localPath core n) = true := by
    rw [localPath, if_neg nonempty]
    split
    · rw [hasAuthority_core last nonempty, core_authority]
    · exact core_authority
  have nothing := localPath_nothing (plain_not_mem core_plain (by decide)) nonempty last n
  have handled := @handleTrailingSlashes_path before1 core n last core_absolute
  obtain ⟨host, port, rest, shape, text⟩ := exists_authorityText trimmed_plain trimmed_authority
  obtain ⟨-, host_part, port_part, rest_part⟩ := text.parts
  have file := makeUriCanonical_file ctx (@handleTrailingSlashes_file before2 core n last fun none => absurd none nonempty)
    trimmed_plain (by rw [shape]; rfl)
  have other : core = core ++ List.replicate n chrSlash ↔ n = 0 := by simp
  rw [file, AuthorityAgrees, trimmed_path, pathCore_slashes last, ← nothing, ← trimmed_upper, other, shape, host_part,
    port_part, rest_part]
  simp only [Option.some.injEq, ↓existsAndEq, and_true]
  by_cases slash : n ≠ 0 ∧ core.getLast? ≠ some chrColon
  · -- one slash is left behind the path alone
    have left : localPath core n = core := by rw [localPath, if_neg nonempty, if_neg slash.2]
    rw [left] at shape
    have some_text : host ++ (port ++ rest) ≠ [] := by
      rw [← List.append_assoc]
      exact List.append_ne_nil_of_left_ne_nil text.nonempty _
    have text_last : (host ++ (port ++ rest)).getLast? = core.getLast? := by
      rw [shape, ← List.singleton_append, List.getLast?_append_of_ne_nil _ (List.cons_ne_nil _ _), ← List.singleton_append,
        List.getLast?_append_of_ne_nil _ some_text]
    have text' := text.slash
    have whole : core ++ [chrSlash] = chrSlash :: chrSlash :: (host ++ (port ++ (rest ++ [chrSlash]))) := by
      rw [shape]
      simp
    rw [if_pos slash, whole] at handled
    have uri := makeUriCanonical_authority ctx text' handled
    have same_fails : AuthorityFails host port (rest ++ [chrSlash]) ↔ AuthorityFails host port rest := by
      refine or_congr_right (and_congr_right fun some_port => or_congr_left (iff_of_false (by simp) fun none => slash.2 ?_))
      obtain ⟨digits, rfl⟩ := text.portHead.resolve_left some_port
      obtain ⟨none_digits, none_rest⟩ := List.append_eq_nil_iff.mp none
      have no_digits : digits = [] := none_digits
      rw [← text_last, none_rest, no_digits, List.append_nil, List.getLast?_concat]
    have other_kept : ¬ (n = 0 ∨ core.getLast? = some chrColon) := not_or.mpr slash
    by_cases fails : AuthorityFails host port rest
    · rw [if_pos fails, uri.1 (same_fails.mpr fails), Option.some.injEq, pathUri_inj, eq_comm]
    · rw [if_neg fails, uri.2 fun failed => fails (same_fails.mp failed), Option.some.injEq, pathUri_inj]
      refine iff_of_false (fun same => ?_) fun both => other_kept both.1
      exact authority_slash text fails (text_last ▸ last) same.symm
  · rw [if_neg slash, shape] at handled
    have uri := makeUriCanonical_authority ctx text handled
    have kept : n = 0 ∨ core.getLast? = some chrColon := by
      by_contra neither
      exact slash (not_or.mp neither)
    by_cases fails : AuthorityFails host port rest
    · rw [if_pos fails, uri.1 fails, Option.some.injEq, pathUri_inj, eq_comm]
    · rw [if_neg fails, uri.2 fails, Option.some.injEq, pathUri_inj, and_iff_right kept, ← text.kept_iff fails, eq_comm]

/-- Whether a path has the canonical URI of the path behind `file://`. -/
def NamesOneFile (before : UInt8) (p : Bytes) : Prop :=
  if hasAuthority p then AuthorityAgrees p else pathAgrees before p = true

/-- A path and the path behind `file://` have one canonical URI, and match, exactly when the text of the path keeps
its meaning in front of the parser: it is not lower-cased or read as a host with an effect, and no slash is left
behind it that the other spelling loses. -/
theorem makeUriCanonical_same_iff (before1 before2 : UInt8) (plain : ∀ c ∈ p, isPlain c = true)
    (absolute : p.head? = some chrSlash) :
    ((∃ uri, makeUriCanonical ctx before1 p = some uri ∧ makeUriCanonical ctx before2 (ascii "file://" ++ p) = some uri) ↔
      NamesOneFile before1 p) ∧
    (urisMatch ctx before1 before2 p (ascii "file://" ++ p) = some true ↔ NamesOneFile before1 p) := by
  have same : (∃ uri, makeUriCanonical ctx before1 p = some uri ∧
      makeUriCanonical ctx before2 (ascii "file://" ++ p) = some uri) ↔ NamesOneFile before1 p := by
    rw [NamesOneFile]
    split
    case isTrue authority => exact makeUriCanonical_authority_iff ctx before1 before2 plain absolute authority
    case isFalse path =>
      exact makeUriCanonical_path_iff ctx before1 before2 plain absolute (Bool.eq_false_iff.mpr path)
  refine ⟨same, ?_⟩
  rw [← same, urisMatch]
  cases first : makeUriCanonical ctx before1 p with
  | none => simp
  | some uri =>
    cases second : makeUriCanonical ctx before2 (ascii "file://" ++ p) with
    | none => simp
    | some uri' =>
      rw [Option.bind_eq_bind, Option.bind_some, Option.bind_some, Option.some.injEq, beq_iff_eq]
      constructor
      · rintro rfl
        exact ⟨uri, rfl, rfl⟩
      · rintro ⟨shared, one, two⟩
        exact (Option.some.inj one).trans (Option.some.inj two).symm

theorem makeUriCanonical_same_home :
    ((∃ uri, makeUriCanonical plainContext 0 (ascii "/home/a:b") = some uri ∧
        makeUriCanonical plainContext 0 (ascii "file://" ++ ascii "/home/a:b") = some uri) ↔
      NamesOneFile 0 (ascii "/home/a:b")) ∧
    (urisMatch plainContext 0 0 (ascii "/home/a:b") (ascii "file://" ++ ascii "/home/a:b") = some true ↔
      NamesOneFile 0 (ascii "/home/a:b")) :=
  makeUriCanonical_same_iff plainContext 0 0 (by decide) (by decide)

/-- An upper-case letter in front of a colon, a slash at the end, and a host. -/
theorem makeUriCanonical_differs :
    makeUriCanonical plainContext 0 (ascii "/Foo:bar") = some (ascii "file:///foo:bar") ∧
    makeUriCanonical plainContext 0 (ascii "file:///Foo:bar") = some (ascii "file:///Foo:bar") ∧
    urisMatch plainContext 0 0 (ascii "/Foo:bar") (ascii "file:///Foo:bar") = some false ∧
    urisMatch plainContext 0 0 (ascii "/a/") (ascii "file:///a/") = some false ∧
    urisMatch plainContext 0 0 (ascii "//A") (ascii "file:////A") = some false := by
  decide +kernel

end Agree

end GnomeVfs
