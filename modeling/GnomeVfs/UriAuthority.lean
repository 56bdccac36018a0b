import Mathlib.Data.List.TakeWhile
import GnomeVfs.UriSplitPrint

/- A printed authority is split into the parts it was printed from. -/
namespace GnomeVfs

/-- What every parsed host satisfies. A colon never stands behind a bracket, because
the scanner ends the host at the first colon behind one. -/
structure HostName (host : Bytes) : Prop where
  nonempty : host ≠ []
  clean : ∀ c ∈ host, c ≠ 0 ∧ c ≠ chrSlash
  lower : ∀ c ∈ host, isUpper c = false
  bracket : ∀ front back, host = front ++ chrClose :: back → chrColon ∉ back

variable {host : Bytes}

theorem splitHostName_printHost (name : HostName host) :
    splitHostName (printHost host) = host := by
  by_cases colon : chrColon ∈ host
  · rw [printHost, if_pos colon, splitHostName, if_pos]
    · simpa using strdown_of_lower name.lower
    · refine ⟨by simp, by simp, ?_⟩
      exact List.mem_cons_of_mem _ (List.mem_append_left _ colon)
  · rw [printHost, if_neg colon, splitHostName, if_neg]
    · exact strdown_of_lower name.lower
    · rintro ⟨-, -, present⟩
      exact colon present

theorem printHost_ne_nil (nonempty : host ≠ []) : printHost host ≠ [] := by
  rw [printHost]
  split
  · simp
  · exact nonempty

theorem printHost_clean (name : HostName host) :
    ∀ c ∈ printHost host, c ≠ 0 ∧ c ≠ chrSlash := by
  intro c member
  rw [printHost] at member
  split at member
  · simp only [List.mem_cons, List.mem_append, List.not_mem_nil, or_false] at member
    rcases member with rfl | inside | rfl
    · decide
    · exact name.clean c inside
    · decide
  · exact name.clean c member

/-- The shape of a printed host around its first closing bracket. -/
theorem printHost_split (name : HostName host) :
    (printHost host = host ∧ chrColon ∉ host ∧ chrClose ∉ host) ∨
      ∃ front back, printHost host = front ++ chrClose :: back ∧ chrClose ∉ front ∧
        chrColon ∉ back ∧ (chrColon ∈ front ↔ chrColon ∈ host) ∧
        (chrColon ∉ host → front = host.takeWhile (· != chrClose)) := by
  by_cases close : chrClose ∈ host
  · obtain ⟨front, back, rfl, first⟩ := List.eq_append_cons_of_mem close
    have behind := name.bracket front back rfl
    right
    by_cases colon : chrColon ∈ front ++ chrClose :: back
    · refine ⟨chrOpen :: front, back ++ [chrClose], ?_, ?_, ?_, ?_, fun absent => absurd colon absent⟩
      · rw [printHost, if_pos colon]
        simp
      · simpa using first
      · simpa using behind
      · simp only [List.mem_cons, List.mem_append] at colon ⊢
        simp_all
    · refine ⟨front, back, ?_, first, behind, ?_, fun _ => ?_⟩
      · rw [printHost, if_neg colon]
      · simp only [List.mem_append, List.mem_cons]
        simp [behind]
      · have clear : ∀ c ∈ front, (c != chrClose) = true := by
          intro c member
          simp only [bne_iff_ne, ne_eq]
          rintro rfl
          exact first member
        rw [List.takeWhile_append_of_pos clear]
        simp
  · by_cases colon : chrColon ∈ host
    · refine Or.inr ⟨chrOpen :: host, [], ?_, by simpa using close, by simp, by simp,
        fun absent => absurd colon absent⟩
      rw [printHost, if_pos colon]
      simp
    · exact Or.inl ⟨by rw [printHost, if_neg colon], colon, close⟩

theorem printHost_token (name : HostName host) : HostToken (printHost host) := by
  have clean := printHost_clean name
  rcases printHost_split name with ⟨same, noColon, noClose⟩ | ⟨front, back, split, first, behind, -⟩
  · rw [same]
    exact .plain name.clean noColon noClose
  · exact .bracket front back split clean first behind

theorem printHost_at : chrAt ∈ printHost host ↔ chrAt ∈ host := by
  rw [printHost]
  split <;> simp

/-- A bare host is scanned to its end. -/
theorem splitScan_printHost {host port path : Bytes} (name : HostName host) (bare : HostBare host)
    (tail : HostTail port path) :
    splitScan (printHost host ++ (port ++ path)) = pointer (port ++ path) := by
  have clean := printHost_clean name
  rcases printHost_split name with
    ⟨same, noColon, noClose⟩ | ⟨front, back, split, first, behind, colons, whole⟩
  · have noAt : chrAt ∉ host := by
      rcases bare with absent | ⟨-, absent⟩
      · exact absent
      · have all : ∀ c ∈ host, (c != chrClose) = true := by
          intro c member
          simp only [bne_iff_ne, ne_eq]
          rintro rfl
          exact noClose member
        rwa [List.takeWhile_eq_self_iff.mpr all] at absent
    rw [same]
    exact splitScan_plain tail name.clean noColon noClose noAt
  · rw [split] at clean ⊢
    have noAtPrinted : chrAt ∉ host → chrAt ∉ front ++ chrClose :: back := by
      intro absent
      rw [← split, printHost_at]
      exact absent
    by_cases colon : chrColon ∈ host
    · have noAt : chrAt ∉ host := by
        rcases bare with absent | ⟨absent, -⟩
        · exact absent
        · exact absurd colon absent
      exact splitScan_colon_first tail clean first (noAtPrinted noAt) (colons.mpr colon) behind
    · have noAt : chrAt ∉ front := by
        rcases bare with absent | ⟨-, absent⟩
        · exact fun member => noAtPrinted absent (by simp [member])
        · rwa [whole colon]
      exact splitScan_close_first tail clean first noAt (fun member => colon (colons.mp member))
        behind

theorem decimal_isDigit (n : Nat) : ∀ c ∈ decimal n, isDigit c = true := by
  intro c member
  rw [decimal] at member
  split at member
  · simp only [List.mem_singleton] at member
    subst member
    decide
  · simp only [List.mem_map, List.mem_reverse] at member
    obtain ⟨d, digit, rfl⟩ := member
    have small := Nat.digits_lt_base (by decide) digit
    interval_cases d <;> decide

theorem decimal_ne_nil (n : Nat) : decimal n ≠ [] := by
  rw [decimal]
  split
  · simp
  · rename_i positive
    simpa [Nat.digits_eq_nil_iff_eq_zero] using positive

/-- The digits of a number read most significant first, in the arithmetic of a `guint`. -/
theorem foldl_digits (digits : List Nat) (small : ∀ d ∈ digits, d < 10) (start : Nat) :
    (digits.map fun d => UInt8.ofNat (48 + d)).foldl
        (fun port c => port * 10 + (c - 48).toUInt32) (UInt32.ofNat start) =
      UInt32.ofNat (digits.foldl (fun value d => value * 10 + d) start) := by
  induction digits generalizing start with
  | nil => rfl
  | cons d rest ih =>
    have digit : d < 10 := small d (by simp)
    have decoded : (UInt8.ofNat (48 + d) - 48).toUInt32 = UInt32.ofNat d := by
      interval_cases d <;> rfl
    simp only [List.map_cons, List.foldl_cons, decoded]
    rw [← ih (fun e member => small e (by simp [member]))]
    simp [UInt32.ofNat_add, UInt32.ofNat_mul]

theorem foldl_reverse_digits (n : Nat) :
    (Nat.digits 10 n).reverse.foldl (fun value d => value * 10 + d) 0 = n := by
  rw [List.foldl_reverse]
  conv_rhs => rw [← Nat.ofDigits_digits 10 n, Nat.ofDigits_eq_foldr]
  congr 1
  funext d value
  simp
  ring

theorem scanPort_decimal {n : Nat} {path : Bytes} (stop : ∀ c, path.head? = some c → isDigit c = false) :
    scanPort (decimal n ++ path) = UInt32.ofNat n ∧
      (decimal n ++ path).dropWhile isDigit = path := by
  have none_taken : path.takeWhile isDigit = [] ∧ path.dropWhile isDigit = path := by
    cases path with
    | nil => simp
    | cons c rest =>
      have miss := stop c rfl
      simp [miss]
  have digits := decimal_isDigit n
  constructor
  · rw [scanPort, List.takeWhile_append_of_pos digits, none_taken.1, List.append_nil]
    rw [decimal]
    split
    · rename_i zero
      subst zero
      rfl
    · have small : ∀ d ∈ (Nat.digits 10 n).reverse, d < 10 := by
        intro d member
        exact Nat.digits_lt_base (by decide) (List.mem_reverse.mp member)
      have folded := foldl_digits _ small 0
      rw [foldl_reverse_digits] at folded
      exact folded
  · rw [List.dropWhile_append_of_pos digits, none_taken.2]

/-- The path of a URI that has been split: it is absolute, or it is missing and the host
is the last thing in the text. -/
def TextAfter (host : Option Bytes) (port : UInt32) (text : Bytes) : Prop :=
  (∃ rest, text = chrSlash :: rest) ∨ (text = [] ∧ host ≠ none ∧ port = 0)

theorem isDigit_delimiters : ∀ c, isDigit c = true →
    c ≠ 0 ∧ c ≠ chrAt ∧ c ≠ chrClose ∧ c ≠ chrSlash := by
  intro c digit
  refine ⟨?_, ?_, ?_, ?_⟩ <;>
    · rintro rfl
      exact absurd digit (by decide)

theorem printPort_tail (port : UInt32) {host : Option Bytes} {text : Bytes} (shape : TextAfter host port text) :
    HostTail (printPort port) text where
  portHead := by
    rw [printPort]
    split
    · exact Or.inr ⟨_, rfl⟩
    · exact Or.inl rfl
  portClean := by
    intro c member
    rw [printPort] at member
    split at member
    · rcases List.mem_cons.mp member with rfl | inside
      · decide
      · exact isDigit_delimiters c (decimal_isDigit _ c inside)
    · simp at member
  pathHead := by
    rcases shape with absolute | ⟨missing, -⟩
    · exact Or.inr absolute
    · exact Or.inl missing

/-- The printed host, which is empty when there is none. -/
def hostText (host : Option Bytes) : Bytes := (host.map printHost).getD []

theorem hostText_token {host : Option Bytes} (name : ∀ h, host = some h → HostName h) :
    HostToken (hostText host) := by
  cases host with
  | none => exact .plain (by simp [hostText]) (by simp [hostText]) (by simp [hostText])
  | some h => exact printHost_token (name h rfl)

variable {text : Bytes}

theorem splitHost_printed {host : Option Bytes} {port : UInt32} (after : UInt8)
    (name : ∀ h, host = some h → HostName h) (bound : port ≤ 0xffff) (hostless : host = none → port = 0)
    (shape : TextAfter host port text) :
    splitHost (hostText host ++ (printPort port ++ text)) (pointer (printPort port ++ text)) after =
      some ⟨host.map printHost, port, text⟩ := by
  by_cases positive : 0 < port
  · have port_ne : port ≠ 0 := by
      rintro rfl
      exact absurd positive (by decide)
    obtain ⟨h, rfl⟩ := Option.ne_none_iff_exists'.mp fun missing => port_ne (hostless missing)
    obtain ⟨rest, rfl⟩ : ∃ rest, text = chrSlash :: rest := by
      rcases shape with absolute | ⟨-, -, zero⟩
      · exact absolute
      · exact absurd zero port_ne
    have scanned := @scanPort_decimal port.toNat (chrSlash :: rest)
      (by rintro c same; simp only [List.head?_cons, Option.some.injEq] at same; subst same; decide)
    have notAbove : ¬ (0xffff : UInt32) < port := by
      simpa [UInt32.not_lt] using bound
    have shown := printHost_ne_nil (name h rfl).nonempty
    rw [printPort, if_pos positive, List.cons_append, pointer]
    rw [splitHost]
    simp only [strdupTo_append, pointsAt_cons, beq_self_eq_true, if_true, List.tail_cons,
      scanned.1, scanned.2, UInt32.ofNat_toNat]
    simp [shown, notAbove, decimal_ne_nil, hostText]
  · have zero : port = 0 := by
      simpa [UInt32.lt_iff_toNat_lt, ← UInt32.toNat_inj] using positive
    subst zero
    rw [printPort, if_neg positive, List.nil_append]
    rcases shape with ⟨rest, rfl⟩ | ⟨rfl, present, -⟩
    · rw [pointer, splitHost]
      simp only [strdupTo_append, pointsAt_cons]
      cases host with
      | none => simp [hostText]
      | some h =>
        have shown := printHost_ne_nil (name h rfl).nonempty
        simp [hostText, shown]
    · obtain ⟨h, rfl⟩ := Option.ne_none_iff_exists'.mp present
      have shown := printHost_ne_nil (name h rfl).nonempty
      have notSlash : (printHost h).getLast? ≠ some chrSlash := by
        intro last
        exact (printHost_clean (name h rfl) _ (List.mem_of_getLast? last)).2 rfl
      simp only [List.append_nil, pointer, splitHost, hostText, Option.map_some, Option.getD_some,
        if_neg shown, if_neg notSlash]

/-- What the printer needs of a toplevel element so that its text can be split again. -/
structure Printable (top : Toplevel) (text : Bytes) : Prop where
  user : ∀ u, top.userName = some u → u ≠ [] ∧ (0 : UInt8) ∉ u
  password : ∀ p, top.password = some p → p ≠ [] ∧ (0 : UInt8) ∉ p
  host : ∀ h, top.hostName = some h → HostName h
  port : top.hostPort ≤ 0xffff
  hostless : top.hostName = none → top.hostPort = 0
  text : TextAfter top.hostName top.hostPort text
  bare : top.userName = none → top.password = none → ∀ h, top.hostName = some h → HostBare h

variable {top : Toplevel}

/-- Something always stands behind the user information. -/
theorem Printable.more (printable : Printable top text) :
    hostText top.hostName ++ (printPort top.hostPort ++ text) ≠ [] := by
  rcases printable.text with ⟨rest, rfl⟩ | ⟨-, present, -⟩
  · simp
  · obtain ⟨h, same⟩ := Option.ne_none_iff_exists'.mp present
    simp [same, hostText, printHost_ne_nil (printable.host h same).nonempty]

theorem escapeString_apart {set : Bytes} (sub : set ⊆ [chrHash, chrSlash, chrColon, chrAt, chrOpen, chrClose])
    (s : Bytes) :
    ∀ c ∈ escapeString s, c ≠ 0 ∧ c ∉ set := by
  intro c member
  have escaped := escapeString_escaped s c member
  constructor
  · rintro rfl
    exact absurd escaped (by decide)
  · intro delimiter
    have := isEscapedByte_delimiters c (List.mem_cons_of_mem _ (sub delimiter))
    simp [this] at escaped

/-- An escaped field, which is empty when the field is `NULL`. -/
def fieldText (field : Option Bytes) : Bytes := (field.map escapeString).getD []

theorem fieldText_apart {set : Bytes} (sub : set ⊆ [chrHash, chrSlash, chrColon, chrAt, chrOpen, chrClose])
    (field : Option Bytes) :
    ∀ c ∈ fieldText field, c ≠ 0 ∧ c ∉ set := by
  cases field with
  | none => simp [fieldText]
  | some s => exact escapeString_apart sub s

theorem splitToken_fieldText {field : Option Bytes} (proper : ∀ s, field = some s → s ≠ [] ∧ (0 : UInt8) ∉ s)
    (stop : Bytes) :
    splitToken (fieldText field ++ stop) stop = field := by
  rw [splitToken, strdupTo_append]
  cases field with
  | none => simp [fieldText]
  | some s =>
    obtain ⟨nonempty, bytes⟩ := proper s rfl
    rw [if_neg (by simpa [fieldText] using escapeString_ne_nil nonempty)]
    exact unescapeString_escapeString bytes

/-- The host part behind the `@`. -/
theorem splitAfterUser_printed {user password host : Option Bytes} {port path : Bytes}
    (name : ∀ h, host = some h → HostName h) (tail : HostTail port path)
    (more : hostText host ++ (port ++ path) ≠ []) :
    splitAfterUser user password (chrAt :: (hostText host ++ (port ++ path))) =
      some ⟨user, password, hostText host ++ (port ++ path), pointer (port ++ path)⟩ := by
  have notSlash : (chrAt == chrSlash) = false := by decide
  simp only [splitAfterUser, pointsAt_cons, notSlash, Bool.false_eq_true, if_false,
    List.tail_cons, if_neg more, splitHostEnd_token (hostText_token name) tail]

theorem printUserInfo_cases {user password : Option Bytes} (some_user : user ≠ none ∨ password ≠ none) :
    (password = none ∧ printUserInfo user password = fieldText user ++ [chrAt]) ∨
      ∃ p, password = some p ∧ printUserInfo user password =
        fieldText user ++ chrColon :: (fieldText password ++ [chrAt]) := by
  cases password with
  | none =>
    left
    have present : user.isSome = true := by
      simpa [Option.isSome_iff_ne_none] using some_user
    simp [printUserInfo, fieldText, present]
  | some p =>
    right
    exact ⟨p, rfl, by simp [printUserInfo, fieldText]⟩

/-- With user information in front, the scan stops behind the user name. -/
theorem splitScan_user {user : Option Bytes} {stop rest : Bytes} {c : UInt8} (head : stop = c :: rest)
    (delimiter : c = chrAt ∨ c = chrColon) (next : pointsAt (uriStrspnTo stop uriDelimiterUser) chrAt = true) :
    splitScan (fieldText user ++ stop) = some stop ∧ endsUserName stop = true := by
  subst head
  have inAll : c ∈ uriDelimiterAll := by
    rcases delimiter with rfl | rfl <;> decide
  have nonzero : c ≠ 0 := by
    rcases delimiter with rfl | rfl <;> decide
  have notClose : (c == chrClose) = false := by
    rcases delimiter with rfl | rfl <;> decide
  have first : uriStrspnTo (fieldText user ++ c :: rest) uriDelimiterAll = some (c :: rest) := by
    rw [uriStrspnTo_append (fieldText_apart (by decide) user), uriStrspnTo_cons inAll nonzero]
  have at_next : pointsAt (uriStrspnTo (fieldText user ++ c :: rest) uriDelimiterUser) chrAt =
      true := by
    rw [uriStrspnTo_append (fieldText_apart (by decide) user)]
    exact next
  constructor
  · simp only [splitScan, first, at_next, pointsAt_cons, notClose, Bool.not_true, Bool.and_false,
      Bool.false_and, Bool.false_eq_true, if_false]
  · rw [endsUserName]
    cases found : uriStrspnTo (c :: rest) uriDelimiterUser with
    | none => simp [found] at next
    | some cur =>
      have notSlash : pointsAt (some cur) chrSlash = false := by
        cases cur with
        | nil => simp [pointsAt]
        | cons d more =>
          rw [found, pointsAt_cons, beq_iff_eq] at next
          subst next
          rw [pointsAt_cons]
          decide
      simp [notSlash]

/-- The scanner on printed user information. -/
theorem splitUserInfo_printed (printable : Printable top text)
    (some_user : top.userName ≠ none ∨ top.password ≠ none) :
    let back := hostText top.hostName ++ (printPort top.hostPort ++ text)
    ∃ cur, splitScan (printUserInfo top.userName top.password ++ back) = some cur ∧
      endsUserName cur = true ∧
      splitUserInfo (printUserInfo top.userName top.password ++ back) cur =
        some ⟨top.userName, top.password, back, pointer (printPort top.hostPort ++ text)⟩ := by
  intro back
  have tail := printPort_tail top.hostPort printable.text
  have behind := fun user password =>
    @splitAfterUser_printed user password _ _ _ printable.host tail
      printable.more
  have atUser : ∀ more, uriStrspnTo (chrAt :: more) uriDelimiterUser = some (chrAt :: more) :=
    fun more => uriStrspnTo_cons (by decide) (by decide) more
  rcases printUserInfo_cases some_user with ⟨noPassword, printed⟩ | ⟨p, present, printed⟩
  · have shape : printUserInfo top.userName top.password ++ back =
        fieldText top.userName ++ chrAt :: back := by
      rw [printed]
      simp
    rw [shape]
    refine ⟨chrAt :: back, ?_⟩
    obtain ⟨scan, ends⟩ := @splitScan_user top.userName (chrAt :: back) _ _ rfl
      (Or.inl rfl) (by rw [atUser, pointsAt_cons]; decide)
    refine ⟨scan, ends, ?_⟩
    have notColon : (chrAt == chrColon) = false := by decide
    rw [splitUserInfo]
    simp only [pointsAt_cons, notColon, Bool.false_eq_true, if_false,
      splitToken_fieldText printable.user]
    rw [behind, noPassword]
  · have shape : printUserInfo top.userName top.password ++ back =
        fieldText top.userName ++ chrColon :: (fieldText top.password ++ chrAt :: back) := by
      rw [printed]
      simp
    rw [shape]
    have atPassword : uriStrspnTo (fieldText top.password ++ chrAt :: back) uriDelimiterUser =
        some (chrAt :: back) := by
      rw [uriStrspnTo_append (fieldText_apart (by decide) _), atUser]
    refine ⟨chrColon :: (fieldText top.password ++ chrAt :: back), ?_⟩
    obtain ⟨scan, ends⟩ := @splitScan_user top.userName
      (chrColon :: (fieldText top.password ++ chrAt :: back)) _ _ rfl (Or.inr rfl) (by
        rw [← List.singleton_append, uriStrspnTo_append (by decide), atPassword, pointsAt_cons]
        decide)
    refine ⟨scan, ends, ?_⟩
    have nonempty : fieldText top.password ++ chrAt :: back ≠ [] := by simp
    rw [splitUserInfo]
    simp only [pointsAt_cons, beq_self_eq_true, if_true, List.tail_cons, if_neg nonempty,
      atPassword, splitToken_fieldText printable.user, splitToken_fieldText printable.password]
    exact behind _ _

theorem splitFinish_printed (printable : Printable top text) (after : UInt8) :
    splitFinish ⟨top.userName, top.password,
        hostText top.hostName ++ (printPort top.hostPort ++ text),
        pointer (printPort top.hostPort ++ text)⟩ after =
      ⟨some text, top.hostName, top.userName, top.hostPort, top.password⟩ := by
  rw [splitFinish, splitHost_printed after printable.host printable.port printable.hostless
    printable.text]
  have host : (top.hostName.map printHost).map splitHostName = top.hostName := by
    cases same : top.hostName with
    | none => rfl
    | some h => simp [splitHostName_printHost (printable.host h same)]
  simp only [host]

theorem printAuthority_none (top : Toplevel) :
    printAuthority top .none = printUserInfo top.userName top.password ++
      (hostText top.hostName ++ printPort top.hostPort) := by
  simp [printAuthority, HideOptions.none, hostText]

/-- A printed authority and path are split into what they were printed from, whatever
byte comes behind them. -/
theorem splitToplevelUri_printed (printable : Printable top text) (after : UInt8) :
    splitToplevelUri (printAuthority top .none ++ text) after =
      ⟨some text, top.hostName, top.userName, top.hostPort, top.password⟩ := by
  have tail := printPort_tail top.hostPort printable.text
  rw [printAuthority_none, List.append_assoc, List.append_assoc]
  by_cases some_user : top.userName ≠ none ∨ top.password ≠ none
  · obtain ⟨cur, scan, ends, info⟩ := splitUserInfo_printed printable some_user
    have nonempty : printUserInfo top.userName top.password ++
        (hostText top.hostName ++ (printPort top.hostPort ++ text)) ≠ [] := by
      intro empty
      rw [empty] at scan
      simp [splitScan] at scan
    rw [splitToplevelUri, if_neg nonempty, scan]
    simp only [ends, if_true, info]
    exact splitFinish_printed printable after
  · obtain ⟨noUser, noPassword⟩ : top.userName = none ∧ top.password = none := by
      simpa [not_or] using some_user
    have finish := splitFinish_printed printable after
    have scan : splitScan (hostText top.hostName ++ (printPort top.hostPort ++ text)) =
        pointer (printPort top.hostPort ++ text) := by
      cases same : top.hostName with
      | none =>
        exact splitScan_plain tail (by simp [hostText]) (by simp [hostText])
          (by simp [hostText]) (by simp [hostText])
      | some h =>
        exact splitScan_printHost (printable.host h same)
          (printable.bare noUser noPassword h same) tail
    have bare : printUserInfo top.userName top.password = [] := by
      simp [noUser, noPassword, printUserInfo]
    rw [bare, List.nil_append, splitToplevelUri, if_neg printable.more, scan]
    rw [noUser, noPassword] at finish ⊢
    cases here : pointer (printPort top.hostPort ++ text) with
    | none => rwa [here] at finish
    | some cur =>
      simp only [tail.not_endsUserName here, Bool.false_eq_true, if_false]
      rwa [here] at finish

end GnomeVfs
