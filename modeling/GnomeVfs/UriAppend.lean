import Mathlib.Data.List.GetD
import GnomeVfs.UriNormalize
import GnomeVfs.UriPath

/- A file name that is appended to a URI is its short name, and the URI is its parent. -/
namespace GnomeVfs

variable {Method : Type}

/-- A file name of seven-bit characters. -/
structure FileName (name : Bytes) : Prop where
  nonempty : name ≠ []
  bytes : ∀ c ∈ name, c ≠ 0 ∧ c < 128
  slash : chrSlash ∉ name
  dot : name ≠ [chrDot]
  dots : name ≠ [chrDot, chrDot]

/-- What `gnome_vfs_escape_string` keeps may stand in a URI, and what it escapes is reserved. -/
theorem acceptableChar_kind (c : UInt8) (small : c < 128) :
    if acceptableChar .all c then
      uriCharacterKindTable.getD c.toNat .control ∉ [.delimiters, .unwise, .control] ∧
        c ∉ chrPercent :: escapedCharacters
    else uriCharacterKindTable.getD c.toNat .control ≠ .unreserved := by
  -- the two tables are walked along together
  have walked : ∀ entry ∈ (acceptable.zip (uriCharacterKindTable.drop 32)).zipIdx 32,
      if entry.1.1 &&& UnsafeCharacterSet.all.mask != 0 then
        entry.1.2 ∉ [CharacterKind.delimiters, .unwise, .control] ∧ entry.2 ∉ [37, 59, 63, 38, 61, 43, 36, 44]
      else entry.1.2 ≠ .unreserved := by decide +kernel
  have below : ∀ kind ∈ uriCharacterKindTable.take 32, kind ≠ .unreserved := by decide
  have length : acceptable.length = 96 := rfl
  have length' : uriCharacterKindTable.length = 128 := rfl
  have escaped : (chrPercent :: escapedCharacters).map UInt8.toNat = [37, 59, 63, 38, 61, 43, 36, 44] := by decide
  have bound : c.toNat < 128 := UInt8.lt_iff_toNat_lt.mp small
  obtain ⟨kind, kind_eq⟩ : ∃ kind, uriCharacterKindTable[c.toNat]? = some kind :=
    ⟨_, List.getElem?_eq_getElem (by omega)⟩
  rw [List.getD_eq_getElem?_getD, kind_eq, Option.getD_some]
  by_cases printing : 32 ≤ c.toNat
  · obtain ⟨mask, mask_eq⟩ : ∃ mask, acceptable[c.toNat - 32]? = some mask := ⟨_, List.getElem?_eq_getElem (by omega)⟩
    have inside : ((mask, kind), c.toNat) ∈ (acceptable.zip (uriCharacterKindTable.drop 32)).zipIdx 32 := by
      rw [List.mem_zipIdx_iff_le_and_getElem?_sub]
      refine ⟨printing, List.getElem?_zip_eq_some.mpr ⟨mask_eq, ?_⟩⟩
      rw [List.getElem?_drop, show 32 + (c.toNat - 32) = c.toNat by omega]
      exact kind_eq
    have entry := walked _ inside
    have accepts : acceptableChar .all c = (mask &&& UnsafeCharacterSet.all.mask != 0) := by
      rw [acceptableChar, List.getD_eq_getElem?_getD, mask_eq]
      have first : 32 ≤ c := UInt8.le_iff_toNat_le.mpr printing
      simp [first, small]
    rw [accepts]
    split at entry
    · rename_i kept
      rw [if_pos kept]
      refine ⟨entry.1, fun member => entry.2 ?_⟩
      rw [← escaped]
      exact List.mem_map_of_mem member
    · rename_i replaced
      rw [if_neg replaced]
      exact entry
  · have accepts : acceptableChar .all c = false := by
      have first : ¬ 32 ≤ c := fun never => printing (UInt8.le_iff_toNat_le.mp never)
      simp [acceptableChar, first]
    rw [accepts, if_neg (by decide)]
    apply below
    apply List.mem_of_getElem? (i := c.toNat)
    rw [List.getElem?_take_of_lt (by omega), kind_eq]

theorem removeOptionalEscapes_escapeString (beyond : UInt8 → CharacterKind) {name : Bytes}
    (sevenBit : ∀ c ∈ name, c < 128) :
    (removeOptionalEscapes beyond (escapeString name)).1 = escapeString name := by
  induction name with
  | nil => rfl
  | cons c rest ih =>
    have small : c < 128 := sevenBit c (by simp)
    have kind := acceptableChar_kind c small
    have tail := ih fun d member => sevenBit d (by simp [member])
    rw [escapeString] at tail ⊢
    rw [escapeStringInternal_all_cons]
    by_cases kept : acceptableChar .all c = true
    · rw [if_pos kept] at kind
      have plain : c ≠ chrPercent := by
        intro same
        exact kind.2 (by simp [same])
      have fine : ¬ (127 < c ∨ uriCharacterKind beyond c = .delimiters ∨
          uriCharacterKind beyond c = .unwise ∨ uriCharacterKind beyond c = .control) := by
        have bound : ¬ 127 < c := by
          rw [UInt8.lt_iff_toNat_lt] at small ⊢
          simp at small ⊢
          omega
        have allowed := kind.1
        simp only [List.mem_cons, List.not_mem_nil, or_false] at allowed
        rw [uriCharacterKind, if_pos small]
        exact fun bad => bad.elim bound allowed
      rw [if_pos kept, List.singleton_append]
      unfold removeOptionalEscapes
      rw [if_neg plain, if_neg fine]
      simp only [tail]
    · rw [if_neg kept] at kind ⊢
      have reserved : uriCharacterKind beyond c ≠ .unreserved := by
        rw [uriCharacterKind, if_pos small]
        exact kind
      simp only [escapeByte, List.cons_append, List.nil_append]
      unfold removeOptionalEscapes
      simp only [if_true, unescapeCharacter_hex, if_neg reserved, tail]

theorem unescapeCharacter_slash (first : UInt8) : unescapeCharacter chrSlash first = none := rfl

theorem unescapeCharacter_before_slash (first : UInt8) : unescapeCharacter first chrSlash = none := by
  rw [unescapeCharacter]
  split
  · rename_i absent
    cases absent
  · rfl

variable {back : Bytes}

/-- The text in front of a slash and the text behind it are unescaped on their own: an escape
that the end of the front cuts off is no escape in front of a slash either. -/
theorem removeOptionalEscapes_append (beyond : UInt8 → CharacterKind) (front : Bytes)
    (fixedBack : (removeOptionalEscapes beyond back).1 = back) :
    (removeOptionalEscapes beyond front).1 = front →
      (removeOptionalEscapes beyond (front ++ chrSlash :: back)).1 = front ++ chrSlash :: back := by
  fun_induction removeOptionalEscapes beyond front with
  | case1 =>
    intro _
    have plain : ¬ (127 < chrSlash ∨ uriCharacterKind beyond chrSlash = .delimiters ∨
        uriCharacterKind beyond chrSlash = .unwise ∨ uriCharacterKind beyond chrSlash = .control) := by
      simp [uriCharacterKind, uriCharacterKindTable]
    rw [List.nil_append]
    unfold removeOptionalEscapes
    rw [if_neg (by decide), if_neg plain]
    simp only [fixedBack]
  | case2 first second tail d decoded next removed ih =>
    intro fixed
    have length := congrArg List.length fixed
    have bound : next.1.length ≤ tail.length := by
      rcases removeOptionalEscapes_cases beyond tail with same | shorter
      · exact Nat.le_of_eq (congrArg List.length same)
      · exact Nat.le_of_lt shorter
    simp only [List.length_cons] at length
    omega
  | case3 first second tail d decoded next kept ih =>
    intro fixed
    simp only [List.cons.injEq, true_and] at fixed
    simp only [List.cons_append, removeOptionalEscapes, if_true, decoded, if_neg kept, ih fixed]
  | case4 first second tail undecoded =>
    intro _
    simp only [List.cons_append, removeOptionalEscapes, if_true, undecoded]
  | case5 rest short =>
    intro _
    cases rest with
    | nil =>
      cases back with
      | nil => rfl
      | cons first rest => simp only [List.cons_append, List.nil_append, removeOptionalEscapes,
          if_true, unescapeCharacter_slash]
    | cons first rest =>
      cases rest with
      | nil => simp only [List.cons_append, List.nil_append, removeOptionalEscapes, if_true,
          unescapeCharacter_before_slash]
      | cons second tail => exact absurd rfl (short first second tail)
  | case6 c rest plain illegal =>
    intro _
    rw [List.cons_append]
    unfold removeOptionalEscapes
    rw [if_neg plain, if_pos illegal]
  | case7 c rest plain legal next ih =>
    intro fixed
    simp only [List.cons.injEq, true_and] at fixed
    rw [List.cons_append]
    unfold removeOptionalEscapes
    rw [if_neg plain, if_neg legal]
    simp only [ih fixed]

theorem unescapeString_escapeString_legal {illegal s : Bytes} (legal : ∀ c ∈ s, c ≠ 0 ∧ c ∉ illegal) :
    unescapeString illegal (escapeString s) = some s := by
  induction s with
  | nil => rfl
  | cons c rest ih =>
    have here := legal c (by simp)
    have tail := ih fun d member => legal d (by simp [member])
    rw [escapeString] at tail ⊢
    rw [escapeStringInternal_all_cons]
    by_cases kept : acceptableChar .all c = true
    · have plain : c ≠ chrPercent := by
        intro same
        rw [same, acceptableChar_percent] at kept
        cases kept
      rw [if_pos kept, List.singleton_append, unescapeString_cons_of_ne illegal plain, tail,
        Option.map_some]
    · rw [if_neg kept, unescapeString_escapeByte illegal here.1 here.2, tail, Option.map_some]

/-- A name once it is escaped: one part of a path, and no `.` or `..`. -/
structure EscapedName (name : Bytes) : Prop where
  nonempty : name ≠ []
  escaped : ∀ c ∈ name, isEscapedByte c = true
  dot : name ≠ [chrDot]
  dots : name ≠ [chrDot, chrDot]

variable {d : UInt8}

theorem EscapedName.not_mem {name : Bytes} (part : EscapedName name) (special : isEscapedByte d = false) :
    d ∉ name := by
  intro member
  rw [part.escaped d member] at special
  cases special

theorem FileName.legal {name : Bytes} (file : FileName name) : ∀ c ∈ name, c ≠ 0 ∧ c ∉ [chrSlash] := by
  intro c member
  refine ⟨(file.bytes c member).1, ?_⟩
  intro slash
  rw [List.mem_singleton] at slash
  exact file.slash (slash ▸ member)

theorem FileName.escaped {name : Bytes} (file : FileName name) : EscapedName (escapeString name) := by
  have undone : ∀ s, escapeString name = s → unescapeString [chrSlash] s = some name := by
    intro s same
    rw [← same]
    exact unescapeString_escapeString_legal file.legal
  refine ⟨escapeString_ne_nil file.nonempty, escapeString_escaped name, ?_, ?_⟩
  · intro same
    have := undone _ same
    exact file.dot (Option.some.inj this).symm
  · intro same
    have := undone _ same
    exact file.dots (Option.some.inj this).symm

theorem tail_of_solid {first tail : Bytes} (last : (first ++ chrSlash :: tail).getLast? ≠ some chrSlash) :
    tail ≠ [] ∧ tail.getLast? ≠ some chrSlash := by
  have more : tail ≠ [] := by
    intro empty
    simp [empty] at last
  rw [List.getLast?_append_of_ne_nil _ (by simp), List.getLast?_cons_of_ne_nil more] at last
  exact ⟨more, last⟩

theorem settledRest_append {name : Bytes} (part : EscapedName name) (size : Nat) : ∀ path : Bytes,
    path.length ≤ size → path ≠ [] → path.getLast? ≠ some chrSlash → SettledRest path →
      SettledRest (path ++ chrSlash :: name) := by
  have slash : chrSlash ∉ name := part.not_mem (by decide)
  induction size with
  | zero =>
    intro path small nonempty
    exact absurd (List.length_eq_zero_iff.mp (by omega)) nonempty
  | succ size ih =>
    intro path small nonempty last settled
    rcases path_cases path with clear | ⟨first, tail, rfl, clear⟩
    · rw [settledRest_of_no_slash clear] at settled
      rw [settledRest_cons clear, settledRest_of_no_slash slash]
      exact ⟨nonempty, settled.1, settled.2, part.dot, part.dots⟩
    · rw [settledRest_cons clear] at settled
      rw [List.append_assoc, List.cons_append, settledRest_cons clear]
      have solid := tail_of_solid last
      simp only [List.length_append, List.length_cons] at small
      exact ⟨settled.1, settled.2.1, settled.2.2.1,
        ih tail (by omega) solid.1 solid.2 settled.2.2.2⟩

theorem settled_append {path name : Bytes} (part : EscapedName name) (last : path.getLast? ≠ some chrSlash)
    (settled : Settled path) (slash : chrSlash ∈ path) :
    Settled (path ++ chrSlash :: name) := by
  obtain ⟨first, tail, rfl, clear⟩ := List.eq_append_cons_of_mem slash
  rw [settled_cons clear] at settled
  rw [List.append_assoc, List.cons_append, settled_cons clear]
  have solid := tail_of_solid last
  exact ⟨settled.1, settledRest_append part tail.length tail (le_refl _) solid.1 solid.2 settled.2⟩

theorem skipSlashes_run (text : Bytes) (p k : Nat) (stop : byteAt text p ≠ chrSlash)
    (run : ∀ i, p < i → i ≤ p + k → byteAt text i = chrSlash) : skipSlashes text (p + k) = p := by
  induction k with
  | zero =>
    cases p with
    | zero => rfl
    | succ p => rw [Nat.add_zero, skipSlashes, if_neg stop]
  | succ k ih =>
    rw [← Nat.add_assoc, skipSlashes, if_pos (run _ (by omega) (by omega))]
    exact ih fun i above below => run i above (by omega)

theorem skipName_run (text : Bytes) (p k : Nat) (stop : byteAt text p = chrSlash)
    (run : ∀ i, p < i → i ≤ p + k → byteAt text i ≠ chrSlash) : skipName text (p + k) = p := by
  induction k with
  | zero =>
    cases p with
    | zero => rfl
    | succ p => rw [Nat.add_zero, skipName, if_neg (by simp [stop])]
  | succ k ih =>
    rw [← Nat.add_assoc, skipName, if_pos (run _ (by omega) (by omega))]
    exact ih fun i above below => run i above (by omega)

theorem byteAt_last {text : Bytes} (solid : text.getLast? ≠ some chrSlash) :
    byteAt text (text.length - 1) ≠ chrSlash := by
  rw [byteAt, List.getD_eq_getElem?_getD, ← List.getLast?_eq_getElem?]
  cases last : text.getLast? with
  | none => decide
  | some c =>
    intro same
    rw [Option.getD_some] at same
    exact solid (same ▸ last)

theorem take_skipSlashes {front : Bytes} (nonempty : front ≠ []) (solid : front.getLast? ≠ some chrSlash) (k : Nat) :
    (front ++ List.replicate k chrSlash).take
      (skipSlashes (front ++ List.replicate k chrSlash)
        ((front ++ List.replicate k chrSlash).length - 1) + 1) = front := by
  have positive : 0 < front.length := List.length_pos_of_ne_nil nonempty
  have stop : byteAt (front ++ List.replicate k chrSlash) (front.length - 1) ≠ chrSlash := by
    rw [byteAt, List.getD_append _ _ _ _ (by omega)]
    exact byteAt_last solid
  have run : ∀ i, front.length - 1 < i → i ≤ front.length - 1 + k →
      byteAt (front ++ List.replicate k chrSlash) i = chrSlash := by
    intro i above below
    rw [byteAt, List.getD_append_right _ _ _ _ (by omega), List.getD_replicate _ (by omega)]
  have length : (front ++ List.replicate k chrSlash).length - 1 = front.length - 1 + k := by
    rw [List.length_append, List.length_replicate]
    omega
  rw [length, skipSlashes_run _ _ _ stop run, Nat.sub_add_cancel positive, List.take_left]

section Child

variable {stem name : Bytes} (solid : stem.getLast? ≠ some chrSlash) (nonempty : name ≠ [])
  (slash : chrSlash ∉ name)

include nonempty slash in
theorem skipName_child :
    skipName (stem ++ chrSlash :: name)
      (skipSlashes (stem ++ chrSlash :: name) ((stem ++ chrSlash :: name).length - 1)) = stem.length := by
  have positive : 0 < name.length := List.length_pos_of_ne_nil nonempty
  have inside : ∀ i, stem.length < i → byteAt (stem ++ chrSlash :: name) i ≠ chrSlash := by
    intro i above
    obtain ⟨j, rfl⟩ := Nat.exists_eq_add_of_lt above
    rw [Nat.add_assoc, byteAt_append, byteAt, List.getD_cons_succ]
    intro here
    by_cases bound : j < name.length
    · rw [List.getD_eq_getElem _ _ bound] at here
      exact slash (here ▸ List.getElem_mem bound)
    · rw [List.getD_eq_default _ _ (by omega)] at here
      cases here
  have length : (stem ++ chrSlash :: name).length - 1 = stem.length + name.length := by simp
  have start : byteAt (stem ++ chrSlash :: name) stem.length = chrSlash := by
    rw [← Nat.add_zero stem.length, byteAt_append]
    rfl
  rw [length, ← Nat.add_zero (stem.length + name.length),
    skipSlashes_run _ _ 0 (inside _ (by omega)) (fun i above below => by omega),
    skipName_run _ _ _ start fun i above _ => inside i above]

include solid nonempty slash in
theorem parentEnd_child : parentEnd (stem ++ chrSlash :: name) = stem.length := by
  rw [parentEnd, skipName_child nonempty slash]
  match same : stem.length with
  | 0 => rfl
  | 1 => rfl
  | p + 2 =>
    have stop : byteAt (stem ++ chrSlash :: name) (p + 1) ≠ chrSlash := by
      rw [byteAt, List.getD_append _ _ _ _ (by omega)]
      have := byteAt_last solid
      rwa [same] at this
    rw [skipSlashesBefore, if_neg stop]

end Child

/-- In a run of other bytes nothing changes until the run ends. -/
theorem shortNameLoop_name {name : Bytes} (slash : chrSlash ∉ name) (p start : Nat) :
    shortNameLoop p name (some start) none = (some start, some (p + name.length)) := by
  induction name generalizing p with
  | nil => rfl
  | cons c rest ih =>
    simp only [List.mem_cons, not_or] at slash
    rw [shortNameLoop, if_neg (Ne.symm slash.1), if_neg (by simp), ih slash.2]
    simp only [List.length_cons]
    rw [Nat.add_right_comm, Nat.add_assoc]

theorem shortNameLoop_child {name : Bytes} (nonempty : name ≠ []) (slash : chrSlash ∉ name) (front : Bytes)
    (p : Nat) (start stop : Option Nat) :
    shortNameLoop p (front ++ chrSlash :: name) start stop =
      (some (p + front.length + 1), some (p + front.length + 1 + name.length)) := by
  induction front generalizing p start stop with
  | nil =>
    obtain ⟨c, rest, rfl⟩ := List.exists_cons_of_ne_nil nonempty
    simp only [List.mem_cons, not_or] at slash
    have inside : (stop.or (some p)).isSome = true := by cases stop <;> rfl
    rw [List.nil_append, shortNameLoop, if_pos rfl, shortNameLoop, if_neg (Ne.symm slash.1),
      if_pos inside, shortNameLoop_name slash.2]
    simp only [List.length_nil, List.length_cons]
    congr 2
    omega
  | cons c rest ih =>
    have shift : p + 1 + rest.length = p + (c :: rest).length := by
      rw [List.length_cons]
      omega
    rw [List.cons_append, shortNameLoop]
    split
    · rw [ih, shift]
    · split
      · rw [ih, shift]
      · rw [ih, shift]

section Place

/-- A toplevel URI whose scheme and authority are read back as they were printed. -/
structure Place (ctx : UriContext Method) (e : Element Method) (top : Toplevel) : Prop where
  scheme : SchemeName e.methodString
  safe : e.methodString ≠ ascii "pipe"
  method : ctx.methodGet e.methodString = e.method
  registered : e.method.isSome = true
  untransformed : ctx.transformGet e.methodString = none
  unfragmented : e.fragmentId = none
  user : ∀ u, top.userName = some u → u ≠ [] ∧ (0 : UInt8) ∉ u
  password : ∀ p, top.password = some p → p ≠ [] ∧ (0 : UInt8) ∉ p
  host : ∀ h, top.hostName = some h → h ≠ [] ∧ ∀ c ∈ h, c ≠ 0 ∧ isUpper c = false ∧
    c ∉ [chrSlash, chrAt, chrHash, chrOpen, chrClose]
  port : top.hostPort ≤ 65535
  hostless : top.hostName = none → top.hostPort = 0

/-- The root or a canonical path that does not end in a slash. -/
structure DirectoryText (ctx : UriContext Method) (methodString text : Bytes) : Prop where
  absolute : ∃ rest, text = chrSlash :: rest
  proper : (0 : UInt8) ∉ text
  clear : chrHash ∉ text
  normal : normalizeText ctx methodString text = text
  solid : text = [chrSlash] ∨ text.getLast? ≠ some chrSlash

/-- The text in front of the slash of a child. -/
def stem (text : Bytes) : Bytes := if text = [chrSlash] then [] else text

variable {ctx : UriContext Method} {e : Element Method} {top : Toplevel} {text : Bytes}

theorem DirectoryText.ne_nil (directory : DirectoryText ctx e.methodString text) : text ≠ [] := by
  obtain ⟨rest, rfl⟩ := directory.absolute
  simp

theorem Place.printable (place : Place ctx e top) (absolute : ∃ rest, text = chrSlash :: rest) :
    Printable top text := by
  have name := fun h same => hostName_of_chars (place.host h same).1 (place.host h same).2
  exact {
    user := place.user
    password := place.password
    host := fun h same => (name h same).1
    port := place.port
    hostless := place.hostless
    text := Or.inl absolute
    bare := fun _ _ h same => (name h same).2 }

theorem Place.authority_clear (place : Place ctx e top) (special : d ∈ [chrSlash, chrHash]) :
    d ∉ printAuthority top .none := by
  have kinds : ∀ d ∈ [chrSlash, chrHash], isEscapedByte d = false ∧ isDigit d = false ∧
      d ∉ [chrColon, chrAt, chrOpen, chrClose] := by decide
  obtain ⟨escaped, digit, delimiter⟩ := kinds d special
  refine printAuthority_not_mem escaped digit delimiter ?_
  intro h same member
  exact ((place.host h same).2 d member).2.2 (by simp at special ⊢; tauto)

theorem Place.top_empty (place : Place ctx e top) (nothing : printAuthority top .none = []) :
    top = .empty := by
  rw [printAuthority_none, List.append_eq_nil_iff, List.append_eq_nil_iff] at nothing
  obtain ⟨info, host, -⟩ := nothing
  have noInfo : top.userName = none ∧ top.password = none := by
    by_contra some_user
    have : top.userName ≠ none ∨ top.password ≠ none := by tauto
    rcases printUserInfo_cases this with ⟨-, printed⟩ | ⟨p, -, printed⟩
    · rw [printed] at info
      simp at info
    · rw [printed] at info
      simp at info
  have noHost : top.hostName = none := by
    cases same : top.hostName with
    | none => rfl
    | some h =>
      rw [hostText, same] at host
      exact absurd host (printHost_ne_nil (place.host h same).1)
  have noPort := place.hostless noHost
  cases top
  simp_all [Toplevel.empty]

/-- What stands between the method of a place and the slash of its child. -/
def stemBody (top : Toplevel) (text : Bytes) : Bytes :=
  if printAuthority top .none = [] ∧ stem text = [] then []
  else chrSlash :: chrSlash :: (printAuthority top .none ++ stem text)

/-- The texts that a name can be put behind. -/
def Appendable (ctx : UriContext Method) (methodString : Bytes) (top : Toplevel) (text : Bytes) : Prop :=
  DirectoryText ctx methodString text ∨ text = [] ∧ top.hostName.isSome = true

theorem Appendable.stem_solid (ready : Appendable ctx e.methodString top text) :
    (stem text).getLast? ≠ some chrSlash := by
  rw [stem]
  split
  · simp
  · rename_i inner
    rcases ready with directory | ⟨rfl, -⟩
    · exact directory.solid.resolve_left inner
    · simp

theorem Appendable.authority (ready : Appendable ctx e.methodString top text) (place : Place ctx e top)
    (empty : text = []) : printAuthority top .none ≠ [] := by
  intro nothing
  rcases ready with directory | ⟨-, present⟩
  · exact directory.ne_nil empty
  · rw [place.top_empty nothing] at present
    cases present

theorem uriToString_stem (place : Place ctx e top) (ready : Appendable ctx e.methodString top text)
    (present : e.text = some text) :
    ∃ k, uriToString .none (.toplevel e top) =
      (e.methodString ++ chrColon :: stemBody top text) ++ List.replicate k chrSlash := by
  have shown : printsSlashes e top = true := by
    rcases ready with directory | ⟨rfl, host⟩
    · obtain ⟨rest, rfl⟩ := directory.absolute
      simp [printsSlashes, present]
    · simp [printsSlashes, host]
  have printed : uriToString .none (.toplevel e top) =
      e.methodString ++ chrColon :: (chrSlash :: chrSlash :: (printAuthority top .none ++ text)) := by
    rw [uriToString_toplevel, printBody, shown, place.unfragmented, present]
    simp [printFragment]
  rw [printed, stemBody, stem]
  by_cases root : text = [chrSlash]
  · by_cases nothing : printAuthority top .none = []
    · exact ⟨3, by simp [root, nothing, List.replicate]⟩
    · exact ⟨1, by simp [root, nothing]⟩
  · have more : ¬ (printAuthority top .none = [] ∧ text = []) := by
      intro both
      exact ready.authority place both.2 both.1
    exact ⟨0, by simp [root, more]⟩

theorem stemBody_solid (place : Place ctx e top) (ready : Appendable ctx e.methodString top text) :
    (e.methodString ++ chrColon :: stemBody top text).getLast? ≠ some chrSlash := by
  have solid := ready.stem_solid
  have clear := place.authority_clear (d := chrSlash) (by simp)
  have last : (printAuthority top .none).getLast? ≠ some chrSlash := by
    intro same
    exact clear (List.mem_of_getLast? same)
  rw [stemBody]
  split
  · simp
  · rename_i more
    rw [List.getLast?_append_of_ne_nil _ (by simp), List.getLast?_cons_of_ne_nil (by simp),
      List.getLast?_cons_of_ne_nil (by simp), List.getLast?_cons_of_ne_nil (by simpa using more)]
    by_cases empty : stem text = []
    · rwa [empty, List.append_nil]
    · rwa [List.getLast?_append_of_ne_nil _ empty]

theorem Appendable.absolute (ready : Appendable ctx e.methodString top text) (back : Bytes) :
    ∃ rest, stem text ++ chrSlash :: back = chrSlash :: rest := by
  rw [stem]
  split
  · exact ⟨back, rfl⟩
  · rcases ready with directory | ⟨rfl, -⟩
    · obtain ⟨rest, rfl⟩ := directory.absolute
      exact ⟨rest ++ chrSlash :: back, rfl⟩
    · exact ⟨back, rfl⟩

theorem Appendable.not_mem (ready : Appendable ctx e.methodString top text)
    (absent : DirectoryText ctx e.methodString text → d ∉ text) : d ∉ stem text := by
  rw [stem]
  split
  · simp
  · rcases ready with directory | ⟨rfl, -⟩
    · exact absent directory
    · simp

theorem setUriElement_stem (place : Place ctx e top) (ready : Appendable ctx e.methodString top text)
    (slash : chrSlash ∉ back) (after : UInt8) :
    setUriElement ctx false e.methodString (stemBody top text ++ chrSlash :: back) after =
      (some (normalizeText ctx e.methodString (stem text ++ chrSlash :: back)), top) := by
  rw [stemBody]
  split
  · rename_i nothing
    have single : (chrSlash :: back).take 2 ≠ [chrSlash, chrSlash] := by
      cases back with
      | nil => simp
      | cons c rest =>
        intro double
        simp only [List.take_succ_cons, List.take_zero, List.cons.injEq, and_true, true_and] at double
        exact slash (by simp [double])
    rw [nothing.2, List.nil_append, place.top_empty nothing.1, setUriElement, if_neg (by simp),
      if_neg fun double => single double.2]
  · rw [List.cons_append, List.cons_append, List.append_assoc,
      setUriElement_printed ctx e.methodString (place.printable (ready.absolute back))]

/-- Appending puts one slash between the stem of the place and the rest. -/
theorem uriAppendString_stem (place : Place ctx e top) (ready : Appendable ctx e.methodString top text)
    (present : e.text = some text) {uriFragment back : Bytes}
    (dropped : uriFragment.dropWhile (· == chrSlash) = back) (slash : chrSlash ∉ back) (clear : chrHash ∉ back) :
    uriAppendString ctx (.toplevel e top) uriFragment =
      some (.toplevel { e with
        text := some (normalizeText ctx e.methodString (stem text ++ chrSlash :: back)) } top) := by
  obtain ⟨k, printed⟩ := uriToString_stem place ready present
  have nonempty : e.methodString ++ chrColon :: stemBody top text ≠ [] := by simp
  have full : (e.methodString ++ chrColon :: stemBody top text) ++ List.replicate k chrSlash ≠ [] := by
    simp
  have name : byteAt back 0 ≠ chrHash := by
    cases back with
    | nil => decide
    | cons c rest =>
      intro same
      exact clear (by simp [← same, byteAt])
  have hashes : chrHash ∉ stemBody top text ++ chrSlash :: back := by
    have inStem := ready.not_mem fun directory => directory.clear
    have inAuthority := place.authority_clear (d := chrHash) (by simp)
    rw [stemBody]
    split <;> simp_all
  simp only [uriAppendString, printed, if_neg full,
    take_skipSlashes nonempty (stemBody_solid place ready), dropped, if_pos name]
  rw [List.append_assoc, List.cons_append, uriNew_scheme ctx place.scheme place.safe
    (place.method ▸ place.registered) place.untransformed]
  have unprinted : printFragment none .none = [] := rfl
  have parsed : parseToplevel ctx e.methodString (_ ++ printFragment none .none) = _ :=
    parseToplevel_printed ctx e.methodString hashes (by simp)
  rw [unprinted, List.append_nil, setUriElement_stem place ready slash] at parsed
  rw [parsed, place.method, ← place.unfragmented]

/-- The text of the child of a place. -/
def childText (text name : Bytes) : Bytes := stem text ++ chrSlash :: name

theorem DirectoryText.fixed (directory : DirectoryText ctx e.methodString text) :
    EscapedText e.methodString text ∧ (removeOptionalEscapes ctx.beyond text).1 = text ∧ Settled text := by
  have escaped : EscapedText e.methodString text := by
    rw [← directory.normal]
    exact normalizeText_escaped ctx e.methodString text
  exact ⟨escaped, (normalizeText_eq_self ctx e.methodString escaped directory.proper).mp directory.normal⟩

theorem Appendable.childText_escaped (ready : Appendable ctx e.methodString top text) {name : Bytes}
    (part : EscapedName name) : EscapedText e.methodString (childText text name) := by
  have kinds : ∀ c ∈ escapedCharacters, c ≠ chrSlash ∧ isEscapedByte c = false := by decide
  intro escaped c member
  have inStem : c ∉ stem text := ready.not_mem fun directory => directory.fixed.1 escaped c member
  have inName : c ∉ name := part.not_mem (kinds c member).2
  simp only [childText, List.mem_append, List.mem_cons, not_or]
  exact ⟨inStem, (kinds c member).1, inName⟩

theorem Appendable.childText_not_mem (ready : Appendable ctx e.methodString top text) {name : Bytes}
    (part : EscapedName name) (special : d ∈ [0, chrHash]) : d ∉ childText text name := by
  have kinds : ∀ c ∈ [0, chrHash], c ≠ chrSlash ∧ isEscapedByte c = false := by decide
  have inStem : d ∉ stem text := by
    apply ready.not_mem
    intro directory
    simp only [List.mem_cons, List.not_mem_nil, or_false] at special
    rcases special with rfl | rfl
    · exact directory.proper
    · exact directory.clear
  have inName : d ∉ name := part.not_mem (kinds d special).2
  simp only [childText, List.mem_append, List.mem_cons, not_or]
  exact ⟨inStem, (kinds d special).1, inName⟩

theorem Appendable.childText_settled (ready : Appendable ctx e.methodString top text) {name : Bytes}
    (part : EscapedName name) : Settled (childText text name) := by
  have slash : chrSlash ∉ name := part.not_mem (by decide)
  have solid := ready.stem_solid
  by_cases empty : stem text = []
  · have shape : Settled ([] ++ chrSlash :: name) ↔ _ := settled_cons (by simp) name
    rw [childText, empty, shape, settledRest_of_no_slash slash]
    exact ⟨by simp, part.dot, part.dots⟩
  · have same : stem text = text := by
      rw [stem] at empty ⊢
      split
      · rename_i root
        rw [if_pos root] at empty
        exact absurd rfl empty
      · rfl
    rw [childText]
    rw [same] at solid empty ⊢
    rcases ready with directory | ⟨nothing, -⟩
    · obtain ⟨rest, shape⟩ := directory.absolute
      exact settled_append part solid directory.fixed.2.2 (by simp [shape])
    · exact absurd nothing empty

theorem Appendable.childText_normal (ready : Appendable ctx e.methodString top text) {name : Bytes}
    (part : EscapedName name) (kept : (removeOptionalEscapes ctx.beyond name).1 = name) :
    normalizeText ctx e.methodString (childText text name) = childText text name := by
  rw [normalizeText_eq_self ctx e.methodString (ready.childText_escaped part)
    (ready.childText_not_mem part (by simp))]
  refine ⟨?_, ready.childText_settled part⟩
  apply removeOptionalEscapes_append ctx.beyond (stem text) kept
  rw [stem]
  split
  · rfl
  · rcases ready with directory | ⟨rfl, -⟩
    · exact directory.fixed.2.1
    · rfl

theorem Appendable.child (ready : Appendable ctx e.methodString top text) {name : Bytes} (part : EscapedName name)
    (kept : (removeOptionalEscapes ctx.beyond name).1 = name) :
    DirectoryText ctx e.methodString (childText text name) where
  absolute := ready.absolute name
  proper := ready.childText_not_mem part (by simp)
  clear := ready.childText_not_mem part (by simp)
  normal := ready.childText_normal part kept
  solid := by
    right
    intro last
    rw [childText, List.getLast?_append_of_ne_nil _ (by simp),
      List.getLast?_cons_of_ne_nil part.nonempty] at last
    exact part.not_mem (d := chrSlash) (by decide) (List.mem_of_getLast? last)

theorem FileName.kept {name : Bytes} (file : FileName name) (beyond : UInt8 → CharacterKind) :
    (removeOptionalEscapes beyond (escapeString name)).1 = escapeString name :=
  removeOptionalEscapes_escapeString beyond fun c member => (file.bytes c member).2

theorem uriAppendFileName_child (place : Place ctx e top) (ready : Appendable ctx e.methodString top text)
    (present : e.text = some text) {name : Bytes} (file : FileName name) :
    uriAppendFileName ctx (.toplevel e top) name =
      some (.toplevel { e with text := some (childText text (escapeString name)) } top) := by
  have part := file.escaped
  have slash : chrSlash ∉ escapeString name := part.not_mem (by decide)
  have dropped : (escapeString name).dropWhile (· == chrSlash) = escapeString name := by
    obtain ⟨c, rest, shape⟩ := List.exists_cons_of_ne_nil part.nonempty
    rw [shape, List.dropWhile_cons_of_neg]
    simp only [beq_iff_eq]
    intro same
    exact slash (by simp [shape, same])
  rw [uriAppendFileName, uriAppendString_stem place ready present dropped slash (part.not_mem (by decide)),
    ← childText, ready.childText_normal part (file.kept ctx.beyond)]

/-- The parent of a child of the root, or of a URI without a path, has the root as its text. -/
def parentText (text : Bytes) : Bytes := if stem text = [] then [chrSlash] else stem text

theorem uriGetParent_child (place : Place ctx e top) (ready : Appendable ctx e.methodString top text)
    {name : Bytes} (part : EscapedName name) :
    uriGetParent (.toplevel { e with text := some (childText text name) } top) =
      some (.toplevel { e with text := some (parentText text) } top) := by
  have slash : chrSlash ∉ name := part.not_mem (by decide)
  have ends := parentEnd_child ready.stem_solid part.nonempty slash
  have inside : chrSlash ∈ childText text name := by simp [childText]
  have behind : byteAt (childText text name) ((stem text).length + 1) ≠ 0 := by
    obtain ⟨c, rest, rfl⟩ := List.exists_cons_of_ne_nil part.nonempty
    rw [childText, byteAt_append]
    intro zero
    have first : c = 0 := zero
    exact part.not_mem (d := 0) (by decide) (by simp [first])
  rw [← childText] at ends
  have taken : (if (stem text).length = 0 then [chrSlash]
      else (childText text name).take (stem text).length) = parentText text := by
    rw [parentText, childText, List.take_left]
    simp only [List.length_eq_zero_iff]
  simp only [uriGetParent, Uri.element, if_pos inside, ends, if_pos behind, taken, Uri.withText,
    place.unfragmented]

theorem uriExtractShortName_child {name : Bytes} (file : FileName name) :
    uriExtractShortName (.toplevel { e with text := some (childText text (escapeString name)) } top) =
      some name := by
  have part := file.escaped
  have slash : chrSlash ∉ escapeString name := part.not_mem (by decide)
  have path : uriExtractShortPathName
      (.toplevel { e with text := some (childText text (escapeString name)) } top) =
        some (escapeString name) := by
    simp only [uriExtractShortPathName, Uri.element, Option.map_some, childText,
      shortNameLoop_child part.nonempty slash, Option.getD_some, Nat.zero_add]
    rw [Nat.add_sub_cancel_left, ← List.drop_drop, List.drop_left, List.drop_succ_cons, List.drop_zero,
      List.take_length]
  have other : name ≠ [chrSlash] := by
    intro same
    exact file.slash (by simp [same])
  simp [uriExtractShortName, path, unescapeString_escapeString_legal file.legal, other]

theorem DirectoryText.parentText_eq (directory : DirectoryText ctx e.methodString text) :
    parentText text = text := by
  rw [parentText, stem]
  split
  · rename_i root
    rw [if_pos rfl, root]
  · rw [if_neg directory.ne_nil]

theorem uriAppendFileName_inverse (ctx : UriContext Method) (e : Element Method) (top : Toplevel)
    (text name : Bytes) (place : Place ctx e top) (present : e.text = some text)
    (directory : DirectoryText ctx e.methodString text) (file : FileName name) :
    ∃ c, uriAppendFileName ctx (.toplevel e top) name = some c ∧
      uriGetParent c = some (.toplevel e top) ∧ uriExtractShortName c = some name := by
  refine ⟨_, uriAppendFileName_child place (Or.inl directory) present file, ?_,
    uriExtractShortName_child file⟩
  rw [uriGetParent_child place (Or.inl directory) file.escaped, directory.parentText_eq, ← present]

end Place

end GnomeVfs
