import GnomeVfs.SymlinkText
import GnomeVfs.UriReparse
import GnomeVfs.UriPath

/- The walk over the components of a URI that follows each symbolic link. -/
namespace GnomeVfs

variable {Method : Type}

section Walk

/-- What the walk reads of a `GnomeVFSFileInfo`. The name is `none` where its bit of `valid_fields` is
not set. -/
structure LinkInfo where
  symbolicLink : Bool
  symlinkName : Option Bytes

def LinkInfo.target (info : LinkInfo) : Option Bytes := if info.symbolicLink then info.symlinkName else none

def maxSymlinksFollowed : Nat := 32

/-- A copy with another text. -/
def Uri.setText (text : Bytes) : Uri Method → Uri Method
  | .toplevel e top => .toplevel { e with text := some text } top
  | .child e p => .child { e with text := some text } p

/-- `gnome_vfs_uri_resolve_symbolic_link`. -/
def uriResolveSymbolicLink (base : Uri Method) (symbolicLink : Bytes) : Uri Method :=
  base.setText (resolveSymlink (base.element.text.getD [chrSlash]) symbolicLink)

/-- What `p` passes in one round: slashes and a name. -/
def component (rest : Bytes) : Bytes :=
  rest.takeWhile isSlash ++ (rest.dropWhile isSlash).takeWhile (!isSlash ·)

def behind (rest : Bytes) : Bytes := (rest.dropWhile isSlash).dropWhile (!isSlash ·)

/-- The locals of the loop. `front` is what lies before `p` in the text of the URI, `rest` what lies
at `p`. -/
structure Scan (Method : Type) where
  uri : Uri Method
  front : Bytes
  rest : Bytes
  followed : Nat

/-- How the function ends. Without a URI, or without a text of it, `uri->text` reads `NULL`. -/
inductive Resolved (Method : Type) where
  | ok (uri : Uri Method)
  | error (res : VfsResult)
  | nullText
  deriving DecidableEq

variable (ctx : UriContext Method) (getFileInfo : Uri Method → VfsResult × LinkInfo)

/-- The URI that takes the place of `uri` for a link at `newUri`, where its text can be read. -/
def followLink (newUri : Uri Method) (rest symlinkName : Bytes) : Option (Uri Method × Bytes) :=
  let resolved := uriResolveSymbolicLink newUri (escapePathString symlinkName)
  (if rest ≠ [] then uriAppendString ctx resolved rest else some resolved).bind
    fun uri => uri.element.text.map (uri, ·)

/-- The rest of a round, where `front` lies before `p` now and `rest` at it. -/
def visit (uri : Uri Method) (front rest : Bytes) (followed : Nat) : Scan Method ⊕ Resolved Method :=
  let newUri := uri.setText front
  let (res, info) := getFileInfo newUri
  if res ≠ .ok then .inr (.error res)
  else
    match info.target with
    | none => .inl ⟨uri, front, rest, followed⟩
    | some symlinkName =>
      if followed + 1 > maxSymlinksFollowed then .inr (.error .tooManyLinks)
      else
        match followLink ctx newUri rest symlinkName with
        | none => .inr .nullText
        | some (uri, text) => .inl ⟨uri, [], text, followed + 1⟩

/-- One round of the loop. -/
def scanRound (s : Scan Method) : Scan Method ⊕ Resolved Method :=
  if s.rest = [] then .inr (.ok s.uri)
  else visit ctx getFileInfo s.uri (s.front ++ component s.rest) (behind s.rest) s.followed

def scanFrom : Nat → Scan Method → Option (Resolved Method)
  | 0, _ => none
  | fuel + 1, s =>
    match scanRound ctx getFileInfo s with
    | .inl next => scanFrom fuel next
    | .inr result => some result

/-- `_gnome_vfs_uri_resolve_all_symlinks_uri`. -/
def resolveAllSymlinksUri (fuel : Nat) (uri : Uri Method) : Option (Resolved Method) :=
  match uri.element.text with
  | none => some .nullText
  | some text => scanFrom ctx getFileInfo fuel ⟨uri, [], text, 0⟩

end Walk

section Boundaries

/-- `front` is a prefix of the text that ends where a component does. -/
structure Boundary (text front rest : Bytes) : Prop where
  whole : text = front ++ rest
  nonempty : front ≠ []
  ends : rest = [] ∨ front.getLast? ≠ some chrSlash ∧ rest.head? = some chrSlash

/-- Where `p` stands at the start of a round. -/
structure AtBoundary (text front rest : Bytes) : Prop where
  whole : text = front ++ rest
  ends : front = [] ∨ front.getLast? ≠ some chrSlash ∧ rest.head? = some chrSlash

theorem component_append_behind (rest : Bytes) : component rest ++ behind rest = rest := by
  rw [component, behind, List.append_assoc, List.takeWhile_append_dropWhile, List.takeWhile_append_dropWhile]

theorem isSlash_chrSlash : isSlash chrSlash = true := by simp [isSlash]

theorem component_ne_nil {rest : Bytes} (more : rest ≠ []) : component rest ≠ [] := by
  obtain ⟨c, back, rfl⟩ := List.exists_cons_of_ne_nil more
  cases slash : isSlash c <;> simp [component, slash]

theorem behind_length_lt {rest : Bytes} (more : rest ≠ []) : (behind rest).length < rest.length := by
  have size := congrArg List.length (component_append_behind rest)
  have := List.length_pos_iff.mpr (component_ne_nil more)
  rw [List.length_append] at size
  omega

/-- The name that the round passes is not empty where anything is left behind it. -/
theorem behind_head {rest : Bytes} (more : behind rest ≠ []) :
    (component rest).getLast? ≠ some chrSlash ∧ (behind rest).head? = some chrSlash := by
  have slash : (behind rest).head? = some chrSlash := by
    obtain ⟨c, back, shape⟩ := List.exists_cons_of_ne_nil more
    have stop := @List.head_dropWhile_not _ (!isSlash ·) (rest.dropWhile isSlash) more
    rw [shape, List.head?_cons]
    simp only [behind] at shape
    simp only [shape, List.head_cons, Bool.not_eq_false'] at stop
    rw [of_decide_eq_true stop]
  refine ⟨?_, slash⟩
  cases name : rest.dropWhile isSlash with
  | nil =>
    rw [behind, name] at more
    exact absurd rfl more
  | cons c back =>
    have first : isSlash c = false := by
      have stop := @List.head_dropWhile_not _ isSlash rest (by rw [name]; exact List.cons_ne_nil c back)
      simpa only [name, List.head_cons] using stop
    intro last
    rw [component, name, List.takeWhile_cons_of_pos (by simp [first]), List.getLast?_append] at last
    obtain ⟨d, inside⟩ : ∃ d, (c :: back.takeWhile (!isSlash ·)).getLast? = some d := ⟨_, List.getLast?_cons⟩
    rw [inside, Option.some_or, Option.some.injEq] at last
    have member := List.mem_of_getLast? inside
    have apart : (!isSlash d) = true := by
      rcases List.mem_cons.mp member with rfl | later
      · simp [first]
      · exact @List.mem_takeWhile_imp _ (!isSlash ·) _ d later
    simp [last, isSlash] at apart

variable {text front rest : Bytes}

/-- A slash behind a name ends the round. -/
theorem component_length_le {d : UInt8} (apart : isSlash d = false) (before more : Bytes) :
    (component (before ++ d :: chrSlash :: more)).length ≤ before.length + 1 := by
  have slashes : (before ++ d :: chrSlash :: more).takeWhile isSlash = before.takeWhile isSlash := by
    rw [List.takeWhile_append, List.takeWhile_cons_of_neg (by simp [apart])]
    split
    · rename_i all
      rw [List.append_nil]
      exact ((List.takeWhile_prefix isSlash).eq_of_length all).symm
    · rfl
  have later : (before ++ d :: chrSlash :: more).dropWhile isSlash =
      before.dropWhile isSlash ++ d :: chrSlash :: more := by
    rw [List.dropWhile_append, List.dropWhile_cons_of_neg (by simp [apart])]
    split
    · rename_i nothing
      rw [List.isEmpty_iff.mp nothing, List.nil_append]
    · rfl
  have name : ((before.dropWhile isSlash ++ [d]) ++ chrSlash :: more).takeWhile (!isSlash ·) <+:
      before.dropWhile isSlash ++ [d] := by
    rw [List.takeWhile_append, List.takeWhile_cons_of_neg (by simp [isSlash_chrSlash]), List.append_nil]
    split
    · exact List.prefix_rfl
    · exact List.takeWhile_prefix _
  rw [List.append_assoc, List.singleton_append] at name
  have short := name.length_le
  have whole := congrArg List.length (@List.takeWhile_append_dropWhile _ isSlash before)
  rw [component, slashes, later, List.length_append]
  rw [List.length_append] at whole
  rw [List.length_append, List.length_singleton] at short
  omega

theorem AtBoundary.next (here : AtBoundary text front rest) (more : rest ≠ []) :
    Boundary text (front ++ component rest) (behind rest) := by
  refine ⟨?_, by simp [component_ne_nil more], ?_⟩
  · rw [List.append_assoc, component_append_behind, here.whole]
  · by_cases done : behind rest = []
    · exact .inl done
    · obtain ⟨last, slash⟩ := behind_head done
      obtain ⟨d, inside⟩ := List.getLast?_isSome.mpr (component_ne_nil more) |> Option.isSome_iff_exists.mp
      refine .inr ⟨?_, slash⟩
      rw [List.getLast?_append, inside, Option.some_or, ← inside]
      exact last

/-- The round passes no boundary on its way. -/
theorem AtBoundary.least (here : AtBoundary text front rest) {other back : Bytes}
    (boundary : Boundary text other back) (further : front.length < other.length) :
    (front ++ component rest).length ≤ other.length := by
  obtain ⟨middle, rfl⟩ : front <+: other :=
    List.prefix_of_prefix_length_le ⟨rest, here.whole.symm⟩ ⟨back, boundary.whole.symm⟩ (by omega)
  have split : rest = middle ++ back := by
    have both := here.whole.symm.trans boundary.whole
    rwa [List.append_assoc, List.append_cancel_left_eq] at both
  have present : middle ≠ [] := by
    rintro rfl
    simp at further
  rw [List.length_append, List.length_append, Nat.add_le_add_iff_left]
  rcases boundary.ends with ended | ⟨last, slash⟩
  · rw [ended, List.append_nil] at split
    have size := congrArg List.length (component_append_behind rest)
    rw [List.length_append, split] at size
    rw [split]
    omega
  · rw [List.getLast?_append] at last
    obtain ⟨d, inside⟩ := List.getLast?_isSome.mpr present |> Option.isSome_iff_exists.mp
    rw [inside, Option.some_or, ← inside] at last
    obtain ⟨before, rfl⟩ := List.getLast?_eq_some_iff.mp inside
    have apart : isSlash d = false := by
      rw [inside] at last
      simpa [isSlash] using last
    obtain ⟨more, rfl⟩ : ∃ more, back = chrSlash :: more := by
      cases back with
      | nil => cases slash
      | cons c more =>
        cases slash
        exact ⟨more, rfl⟩
    rw [split, List.append_assoc, List.length_append, List.length_singleton]
    exact component_length_le apart before more

end Boundaries

variable {s : Scan Method} {result : Resolved Method} {uri : Uri Method} {followed : Nat}

section Rounds

variable (ctx : UriContext Method) (getFileInfo : Uri Method → VfsResult × LinkInfo)

/-- The file at `front` is there, and is not a symbolic link with a known target. -/
structure Plain (uri : Uri Method) (front : Bytes) : Prop where
  found : (getFileInfo (uri.setText front)).1 = .ok
  solid : (getFileInfo (uri.setText front)).2.target = none

/-- All files that the walk asks about in front of this one are plain. -/
structure FirstAt (uri : Uri Method) (text front rest : Bytes) : Prop where
  present : uri.element.text = some text
  boundary : Boundary text front rest
  passed : ∀ other back, Boundary text other back → other.length < front.length → Plain getFileInfo uri other

/-- The first file that is not plain is a symbolic link. -/
structure LinkAt (uri : Uri Method) (text front rest symlinkName : Bytes) : Prop where
  first : FirstAt getFileInfo uri text front rest
  found : (getFileInfo (uri.setText front)).1 = .ok
  target : (getFileInfo (uri.setText front)).2.target = some symlinkName

/-- The URI that a number of links lead to. -/
inductive Leads (start : Uri Method) : Nat → Uri Method → Prop where
  | refl : Leads start 0 start
  | next {n : Nat} {uri next : Uri Method} {text front rest symlinkName text' : Bytes} : Leads start n uri →
      LinkAt getFileInfo uri text front rest symlinkName →
      followLink ctx (uri.setText front) rest symlinkName = some (next, text') → Leads start (n + 1) next

/-- The rounds from here on end with this result. -/
inductive Ends : Scan Method → Resolved Method → Prop where
  | stop {s : Scan Method} {result : Resolved Method} : scanRound ctx getFileInfo s = .inr result → Ends s result
  | next {s t : Scan Method} {result : Resolved Method} : scanRound ctx getFileInfo s = .inl t →
      Ends t result → Ends s result

def EndsAfter : Scan Method ⊕ Resolved Method → Resolved Method → Prop
  | .inl next, result => Ends ctx getFileInfo next result
  | .inr stopped, result => result = stopped

variable {ctx : UriContext Method} {getFileInfo : Uri Method → VfsResult × LinkInfo}

theorem ends_iff :
    Ends ctx getFileInfo s result ↔ EndsAfter ctx getFileInfo (scanRound ctx getFileInfo s) result := by
  constructor
  · intro ends
    cases ends with
    | stop here =>
      rw [here]
      exact rfl
    | next here later =>
      rw [here]
      exact later
  · intro after
    cases here : scanRound ctx getFileInfo s with
    | inl next =>
      rw [here] at after
      exact .next here after
    | inr stopped =>
      rw [here] at after
      cases after
      exact .stop here

theorem ends_iff_scanFrom :
    Ends ctx getFileInfo s result ↔ ∃ fuel, scanFrom ctx getFileInfo fuel s = some result := by
  constructor
  · intro ends
    induction ends with
    | stop here => exact ⟨1, by rw [scanFrom, here]⟩
    | next here later ih =>
      obtain ⟨fuel, run⟩ := ih
      exact ⟨fuel + 1, by rw [scanFrom, here]; exact run⟩
  · rintro ⟨fuel, run⟩
    induction fuel generalizing s with
    | zero => cases run
    | succ fuel ih =>
      rw [scanFrom] at run
      cases here : scanRound ctx getFileInfo s with
      | inl next =>
        rw [here] at run
        exact .next here (ih run)
      | inr stopped =>
        rw [here] at run
        cases run
        exact .stop here

theorem Ends.unique {first second : Resolved Method} (ends : Ends ctx getFileInfo s first)
    (other : Ends ctx getFileInfo s second) : first = second := by
  induction ends with
  | stop here =>
    rw [ends_iff, here] at other
    exact other.symm
  | next here later ih =>
    rw [ends_iff, here] at other
    exact ih other

theorem Plain.visit {front : Bytes} (plain : Plain getFileInfo uri front) (rest : Bytes) (followed : Nat) :
    visit ctx getFileInfo uri front rest followed = .inl ⟨uri, front, rest, followed⟩ := by
  simp only [GnomeVfs.visit, plain.found, plain.solid, ne_eq, not_true_eq_false, if_false]

/-- The walk comes to every boundary up to the first file that is not plain. The induction is on what
is left of the text. -/
theorem ends_visit {text front' rest' : Bytes} (boundary : Boundary text front' rest')
    (passed : ∀ other back, Boundary text other back → other.length < front'.length → Plain getFileInfo uri other)
    (result : Resolved Method) : ∀ {front rest : Bytes}, AtBoundary text front rest → front.length < front'.length →
      (Ends ctx getFileInfo ⟨uri, front, rest, followed⟩ result ↔
        EndsAfter ctx getFileInfo (visit ctx getFileInfo uri front' rest' followed) result) := by
  intro front rest here before
  induction size : rest.length using Nat.strong_induction_on generalizing front rest with
  | _ size ih =>
    have more : rest ≠ [] := by
      rintro rfl
      have whole := congrArg List.length (here.whole.symm.trans boundary.whole)
      rw [List.append_nil, List.length_append] at whole
      omega
    have next := here.next more
    rw [ends_iff, scanRound, if_neg more]
    rcases Nat.lt_or_eq_of_le (here.least boundary before) with further | same
    · rw [(passed _ _ next further).visit]
      have onward : behind rest ≠ [] := by
        intro nothing
        have whole := congrArg List.length (next.whole.symm.trans boundary.whole)
        rw [nothing, List.append_nil, @List.length_append _ front' rest'] at whole
        omega
      exact ih _ (size ▸ behind_length_lt more) ⟨next.whole, .inr (next.ends.resolve_left onward)⟩ further rfl
    · obtain ⟨fronts, rests⟩ := List.append_inj (next.whole.symm.trans boundary.whole) same
      rw [fronts, rests]

theorem ends_start {text front rest : Bytes} (first : FirstAt getFileInfo uri text front rest)
    (result : Resolved Method) :
    Ends ctx getFileInfo ⟨uri, [], text, followed⟩ result ↔
      EndsAfter ctx getFileInfo (visit ctx getFileInfo uri front rest followed) result :=
  ends_visit first.boundary first.passed result ⟨rfl, .inl rfl⟩ (List.length_pos_iff.mpr first.boundary.nonempty)

theorem ends_clear {text : Bytes} (present : uri.element.text = some text)
    (clear : ∀ front rest, Boundary text front rest → Plain getFileInfo uri front) (result : Resolved Method) :
    Ends ctx getFileInfo ⟨uri, [], text, followed⟩ result ↔ result = .ok uri := by
  have last : ∀ front, Ends ctx getFileInfo ⟨uri, front, [], followed⟩ result ↔ result = .ok uri := by
    intro front
    rw [ends_iff, scanRound, if_pos rfl]
    exact Iff.rfl
  by_cases nonempty : text = []
  · rw [nonempty]
    exact last []
  · have boundary : Boundary text text [] := ⟨(List.append_nil text).symm, nonempty, .inl rfl⟩
    rw [ends_start ⟨present, boundary, fun other back there _ => clear other back there⟩ result,
      (clear text [] boundary).visit]
    exact last text

theorem exists_first {text : Bytes} (present : uri.element.text = some text)
    (obstacle : ¬ ∀ front rest, Boundary text front rest → Plain getFileInfo uri front) :
    ∃ front rest, FirstAt getFileInfo uri text front rest ∧ ¬ Plain getFileInfo uri front := by
  classical
  have some_size : ∃ size front rest, Boundary text front rest ∧ ¬ Plain getFileInfo uri front ∧ front.length = size := by
    push Not at obstacle
    obtain ⟨front, rest, boundary, blocked⟩ := obstacle
    exact ⟨_, front, rest, boundary, blocked, rfl⟩
  obtain ⟨front, rest, boundary, blocked, size⟩ := Nat.find_spec some_size
  refine ⟨front, rest, ⟨present, boundary, fun other back there shorter => ?_⟩, blocked⟩
  by_contra blocked'
  exact Nat.find_min some_size (size ▸ shorter) ⟨other, back, there, blocked', rfl⟩

end Rounds

variable {n : Nat}

section Results

variable (ctx : UriContext Method) (getFileInfo : Uri Method → VfsResult × LinkInfo)

def Linked (uri : Uri Method) : Prop := ∃ text front rest symlinkName, LinkAt getFileInfo uri text front rest symlinkName

/-- What the walk finds in a URI that some links led to. -/
inductive Concluded (uri : Uri Method) : Nat → Resolved Method → Prop where
  | ok {n : Nat} : (∀ text front rest, uri.element.text = some text → Boundary text front rest →
      Plain getFileInfo uri front) → Concluded uri n (.ok uri)
  | error {n : Nat} {text front rest : Bytes} : FirstAt getFileInfo uri text front rest →
      (getFileInfo (uri.setText front)).1 ≠ .ok → Concluded uri n (.error (getFileInfo (uri.setText front)).1)
  | tooManyLinks : Linked getFileInfo uri → Concluded uri maxSymlinksFollowed (.error .tooManyLinks)

/-- A full resolution of the symbolic links in `uri`. -/
structure Resolution (uri : Uri Method) (result : Resolved Method) : Prop where
  followed : ∃ n, n ≤ maxSymlinksFollowed ∧ ∃ last, Leads ctx getFileInfo uri n last ∧ Concluded getFileInfo last n result
  tooMany : ∀ last, Leads ctx getFileInfo uri maxSymlinksFollowed last → Linked getFileInfo last →
    result = .error .tooManyLinks
  checked : ∀ resolved, result = .ok resolved → ∀ text front rest, resolved.element.text = some text →
    Boundary text front rest → Plain getFileInfo resolved front

/-- Each of the links that are followed with a part of the path behind them gives a text that
`gnome_vfs_uri_append_string` can parse. -/
def Traversable (uri : Uri Method) : Prop :=
  ∀ n last text front rest symlinkName, n < maxSymlinksFollowed → Leads ctx getFileInfo uri n last →
    LinkAt getFileInfo last text front rest symlinkName → rest ≠ [] →
    ∃ next text', uriAppendString ctx (uriResolveSymbolicLink (last.setText front) (escapePathString symlinkName)) rest = some next ∧
      next.element.text = some text'

variable {ctx : UriContext Method} {getFileInfo : Uri Method → VfsResult × LinkInfo}

@[simp] theorem Uri.element_setText (uri : Uri Method) (text : Bytes) : (uri.setText text).element.text = some text := by
  cases uri <;> rfl

theorem followLink_text {newUri next : Uri Method} {rest symlinkName text : Bytes}
    (followed : followLink ctx newUri rest symlinkName = some (next, text)) : next.element.text = some text := by
  obtain ⟨uri, -, found⟩ := Option.bind_eq_some_iff.mp followed
  obtain ⟨text', present, same⟩ := Option.map_eq_some_iff.mp found
  cases same
  exact present

theorem LinkAt.ends_next {uri next : Uri Method} {text front rest symlinkName text' : Bytes}
    (link : LinkAt getFileInfo uri text front rest symlinkName)
    (led : followLink ctx (uri.setText front) rest symlinkName = some (next, text'))
    (below : n < maxSymlinksFollowed) (result : Resolved Method) : Ends ctx getFileInfo ⟨uri, [], text, n⟩ result ↔
      Ends ctx getFileInfo ⟨next, [], text', n + 1⟩ result := by
  rw [ends_start link.first result]
  simp only [visit, link.found, link.target, led, ne_eq, not_true_eq_false, if_false, if_neg (Nat.not_lt.mpr below)]
  exact Iff.rfl

theorem LinkAt.ends_tooMany {text front rest symlinkName : Bytes}
    (link : LinkAt getFileInfo uri text front rest symlinkName) (result : Resolved Method) :
    Ends ctx getFileInfo ⟨uri, [], text, maxSymlinksFollowed⟩ result ↔ result = .error .tooManyLinks := by
  rw [ends_start link.first result]
  simp only [visit, link.found, link.target, ne_eq, not_true_eq_false, if_false, if_pos (Nat.lt_succ_self _)]
  exact Iff.rfl

theorem LinkAt.ends_nullText {text front rest symlinkName : Bytes}
    (link : LinkAt getFileInfo uri text front rest symlinkName)
    (lost : followLink ctx (uri.setText front) rest symlinkName = none) (below : n < maxSymlinksFollowed)
    (result : Resolved Method) : Ends ctx getFileInfo ⟨uri, [], text, n⟩ result ↔ result = .nullText := by
  rw [ends_start link.first result]
  simp only [visit, link.found, link.target, lost, ne_eq, not_true_eq_false, if_false, if_neg (Nat.not_lt.mpr below)]
  exact Iff.rfl

theorem Leads.ends {start uri : Uri Method} (leads : Leads ctx getFileInfo start n uri)
    (within : n ≤ maxSymlinksFollowed) {text text' : Bytes} (first : start.element.text = some text)
    (present : uri.element.text = some text') (result : Resolved Method) :
    Ends ctx getFileInfo ⟨start, [], text, 0⟩ result ↔ Ends ctx getFileInfo ⟨uri, [], text', n⟩ result := by
  induction leads generalizing text' with
  | refl =>
    cases first.symm.trans present
    exact Iff.rfl
  | next leads link led ih =>
    cases (followLink_text led).symm.trans present
    rw [ih (by omega) link.first.present]
    exact link.ends_next led within result

theorem followLink_isSome (uri : Uri Method) (front rest symlinkName : Bytes) :
    (∃ found, followLink ctx (uri.setText front) rest symlinkName = some found) ↔ (rest ≠ [] → ∃ next text',
      uriAppendString ctx (uriResolveSymbolicLink (uri.setText front) (escapePathString symlinkName)) rest = some next ∧
        next.element.text = some text') := by
  by_cases more : rest = []
  · subst more
    simp [followLink, uriResolveSymbolicLink]
  · simp only [followLink, if_pos more]
    constructor
    · rintro ⟨found, led⟩ -
      obtain ⟨next, parsed, present⟩ := Option.bind_eq_some_iff.mp led
      obtain ⟨text', present, -⟩ := Option.map_eq_some_iff.mp present
      exact ⟨next, text', parsed, present⟩
    · intro ready
      obtain ⟨next, text', parsed, present⟩ := ready more
      exact ⟨(next, text'), by rw [parsed, Option.bind_some, present, Option.map_some]⟩

theorem concluded_or_linked {text : Bytes} (present : uri.element.text = some text) (n : Nat) :
    (∃ result, Ends ctx getFileInfo ⟨uri, [], text, n⟩ result ∧ Concluded getFileInfo uri n result) ∨
      ∃ front rest symlinkName, LinkAt getFileInfo uri text front rest symlinkName := by
  by_cases clear : ∀ front rest, Boundary text front rest → Plain getFileInfo uri front
  · refine .inl ⟨_, (ends_clear present clear _).mpr rfl, .ok fun text' front rest same => ?_⟩
    cases present.symm.trans same
    exact clear front rest
  · obtain ⟨front, rest, first, blocked⟩ := exists_first present clear
    by_cases found : (getFileInfo (uri.setText front)).1 = .ok
    · cases target : (getFileInfo (uri.setText front)).2.target with
      | none => exact absurd ⟨found, target⟩ blocked
      | some symlinkName => exact .inr ⟨front, rest, symlinkName, first, found, target⟩
    · refine .inl ⟨_, (ends_start first _).mpr ?_, .error first found⟩
      simp only [visit, ne_eq, found, not_false_eq_true, if_true]
      exact rfl

/-- From a URI that the links lead to, the walk ends there or further on. The induction is on the number
of links that may still be followed. -/
theorem Leads.concluded {start : Uri Method} (ready : Traversable ctx getFileInfo start) : ∀ (left : Nat) {n : Nat} {uri : Uri Method},
    Leads ctx getFileInfo start n uri → n + left = maxSymlinksFollowed → ∀ {text : Bytes}, uri.element.text = some text →
      ∃ result m last, Ends ctx getFileInfo ⟨uri, [], text, n⟩ result ∧ m ≤ maxSymlinksFollowed ∧
        Leads ctx getFileInfo start m last ∧ Concluded getFileInfo last m result := by
  intro left
  induction left with
  | zero =>
    intro n uri leads within text present
    obtain rfl : n = maxSymlinksFollowed := within
    rcases concluded_or_linked present maxSymlinksFollowed with ⟨result, ends, concluded⟩ | ⟨front, rest, symlinkName, link⟩
    · exact ⟨result, _, uri, ends, Nat.le_refl _, leads, concluded⟩
    · exact ⟨_, _, uri, (link.ends_tooMany _).mpr rfl, Nat.le_refl _, leads, .tooManyLinks ⟨text, front, rest, symlinkName, link⟩⟩
  | succ left ih =>
    intro n uri leads within text present
    rcases concluded_or_linked present n with ⟨result, ends, concluded⟩ | ⟨front, rest, symlinkName, link⟩
    · exact ⟨result, n, uri, ends, by omega, leads, concluded⟩
    · obtain ⟨⟨next, text'⟩, led⟩ := (followLink_isSome uri front rest symlinkName).mpr
        fun more => ready n uri text front rest symlinkName (by omega) leads link more
      obtain ⟨result, m, last, ends, rest⟩ := ih (leads.next link led) (by omega) (followLink_text led)
      exact ⟨result, m, last, (link.ends_next led (by omega) result).mpr ends, rest⟩

theorem Concluded.ne_nullText (concluded : Concluded getFileInfo uri n result) : result ≠ .nullText := by
  cases concluded <;> exact nofun

/-- The resolution ends as claimed just where no link makes a text that cannot be parsed. -/
theorem resolveAllSymlinksUri_iff (ctx : UriContext Method) (getFileInfo : Uri Method → VfsResult × LinkInfo)
    (uri : Uri Method) (text : Bytes) (present : uri.element.text = some text) :
    (∃ fuel result, resolveAllSymlinksUri ctx getFileInfo fuel uri = some result ∧ Resolution ctx getFileInfo uri result) ↔
      Traversable ctx getFileInfo uri := by
  simp only [resolveAllSymlinksUri, present]
  constructor
  · rintro ⟨fuel, result, run, resolution⟩ n last text' front rest symlinkName below leads link more
    have ends := (leads.ends (Nat.le_of_lt below) present link.first.present result).mp (ends_iff_scanFrom.mpr ⟨fuel, run⟩)
    refine (followLink_isSome last front rest symlinkName).mp ?_ more
    cases led : followLink ctx (last.setText front) rest symlinkName with
    | some found => exact ⟨found, rfl⟩
    | none =>
      obtain ⟨m, -, last', -, concluded⟩ := resolution.followed
      exact absurd ((link.ends_nullText led below result).mp ends) concluded.ne_nullText
  · intro ready
    obtain ⟨result, m, last, ends, within, leads, concluded⟩ :=
      Leads.concluded ready maxSymlinksFollowed .refl (Nat.zero_add _) present
    obtain ⟨fuel, run⟩ := ends_iff_scanFrom.mp ends
    refine ⟨fuel, result, run, ⟨m, within, last, leads, concluded⟩, ?_, ?_⟩
    · rintro last' leads' ⟨text', front, rest, symlinkName, link⟩
      exact (link.ends_tooMany result).mp ((leads'.ends (Nat.le_refl _) present link.first.present result).mp ends)
    · rintro resolved rfl
      cases concluded with
      | ok clear => exact clear

/-- `/l` leads to `/../x`, whose text loses its slash where it is parsed, and `x` to `y`. -/
def strayInfo (uri : Uri Method) : VfsResult × LinkInfo :=
  if uri.element.text = some (ascii "/l") then (.ok, ⟨true, some (ascii "/../x")⟩)
  else if uri.element.text = some (ascii "x") then (.ok, ⟨true, some (ascii "y")⟩)
  else (.ok, ⟨false, none⟩)

def hostUri (text : String) : Uri Unit :=
  .toplevel ⟨some (ascii text), none, ascii "sftp", some ()⟩ ⟨some (ascii "h"), 22, none, none⟩

/-- `/l` leads to `/x`. -/
def straightInfo (uri : Uri Unit) : VfsResult × LinkInfo :=
  (.ok, if uri.element.text = some (ascii "/l") then ⟨true, some (ascii "/x")⟩ else ⟨false, none⟩)

theorem straightInfo_target {uri : Uri Unit} {front symlinkName : Bytes}
    (target : (straightInfo (uri.setText front)).2.target = some symlinkName) :
    front = ascii "/l" ∧ symlinkName = ascii "/x" := by
  unfold straightInfo at target
  split at target
  · rename_i here
    rw [Uri.element_setText] at here
    exact ⟨Option.some.inj here, (Option.some.inj target).symm⟩
  · cases target

/-- The link has a name behind it, which the path that it leads to gets. -/
theorem resolveAllSymlinksUri_iff_straight : ∃ fuel result,
    resolveAllSymlinksUri plainContext straightInfo fuel (hostUri "/l/r") = some result ∧
      Resolution plainContext straightInfo (hostUri "/l/r") result := by
  have follows : followLink plainContext ((hostUri "/l/r").setText (ascii "/l")) (ascii "/r") (ascii "/x") =
      some (hostUri "/x/r", ascii "/x/r") := by decide +kernel
  have leads : ∀ n last, Leads plainContext straightInfo (hostUri "/l/r") n last →
      last = hostUri "/l/r" ∨ last = hostUri "/x/r" := by
    intro n last leads
    induction leads with
    | refl => exact Or.inl rfl
    | @next _ _ _ _ _ rest _ _ _ link followed earlier =>
      obtain ⟨rfl, rfl⟩ := straightInfo_target link.target
      have whole := link.first.boundary.whole
      rcases earlier with rfl | rfl
      · cases link.first.present
        have same : ascii "/r" = rest := List.append_cancel_left (show ascii "/l" ++ ascii "/r" = ascii "/l" ++ rest from whole)
        subst same
        exact Or.inr (congrArg Prod.fst (Option.some.inj (followed.symm.trans follows)))
      · cases link.first.present
        cases whole
  apply (resolveAllSymlinksUri_iff plainContext straightInfo (hostUri "/l/r") (ascii "/l/r") rfl).mpr
  intro n last text front rest symlinkName _ there link more
  obtain ⟨rfl, rfl⟩ := straightInfo_target link.target
  have whole := link.first.boundary.whole
  rcases leads n last there with rfl | rfl
  · cases link.first.present
    have same : ascii "/r" = rest := List.append_cancel_left (show ascii "/l" ++ ascii "/r" = ascii "/l" ++ rest from whole)
    subst same
    exact ⟨hostUri "/x/r", ascii "/x/r", by decide +kernel, rfl⟩
  · cases link.first.present
    cases whole

/-- The second link gives `sftp://h:22y/r`, which has no text. -/
theorem resolveAllSymlinksUri_loses_text :
    ∃ uri, uriNew plainContext (ascii "sftp://h:22/l/r") = some uri ∧ uri.element.text = some (ascii "/l/r") ∧
      resolveAllSymlinksUri plainContext strayInfo 3 uri = some .nullText ∧
      ¬ ∃ fuel result, resolveAllSymlinksUri plainContext strayInfo fuel uri = some result ∧
        Resolution plainContext strayInfo uri result := by
  refine ⟨hostUri "/l/r", by decide +kernel, by decide +kernel, by decide +kernel, ?_⟩
  rintro ⟨fuel, result, run, resolution⟩
  have lost : scanFrom plainContext strayInfo 3 ⟨hostUri "/l/r", [], ascii "/l/r", 0⟩ = some .nullText := by decide +kernel
  have same := (ends_iff_scanFrom.mpr ⟨fuel, run⟩).unique (ends_iff_scanFrom.mpr ⟨3, lost⟩)
  obtain ⟨m, -, last, -, concluded⟩ := resolution.followed
  exact concluded.ne_nullText same

end Results

end GnomeVfs
