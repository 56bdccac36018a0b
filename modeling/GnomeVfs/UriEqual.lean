import Mathlib.Algebra.Group.Nat.Even
import GnomeVfs.UriRoundtrip

/- Comparing and hashing URIs. -/
namespace GnomeVfs

variable {Method : Type}

/-- `string_match`: `NULL` and the empty string are the same. -/
def stringMatch (a b : Option Bytes) : Bool :=
  if a.getD [] = [] then b.getD [] = []
  else
    match b with
    | none => false
    | some b => a = some b

theorem stringMatch_iff (a b : Option Bytes) : stringMatch a b = true ↔ a.getD [] = b.getD [] := by
  by_cases empty : a.getD [] = []
  · rw [stringMatch.eq_def, if_pos empty, empty]
    simp only [decide_eq_true_eq]
    exact eq_comm
  · rw [stringMatch.eq_def, if_neg empty]
    cases b with
    | none => simp [empty]
    | some t =>
      cases a with
      | none => exact absurd rfl empty
      | some s => simp

/-- `compare_elements`. -/
def compareElements [DecidableEq Method] (a b : Element Method) : Bool :=
  if !stringMatch a.text b.text || !stringMatch (some a.methodString) (some b.methodString) then false
  else a.method = b.method

def compareToplevel (a b : Toplevel) : Bool :=
  a.hostPort = b.hostPort && stringMatch a.hostName b.hostName &&
    stringMatch a.userName b.userName && stringMatch a.password b.password

section Equal

variable [DecidableEq Method]

/-- The body of `gnome_vfs_uri_equal` behind the test for one pointer. The loop over the
elements that have a parent does not move its cursors. -/
def uriEqualLoop : Nat → Uri Method → Uri Method → Option Bool
  | 0, _, _ => none
  | fuel + 1, a, b =>
    if a.parent.isSome ∧ b.parent.isSome then
      if !compareElements a.element b.element then some false else uriEqualLoop fuel a b
    else if a.parent.isSome ∨ b.parent.isSome then some false
    else if !compareElements a.element b.element then some false
    else some (compareToplevel a.getToplevel b.getToplevel)

/-- `gnome_vfs_uri_equal`, where `samePointer` is `a == b`; `none` while it is still running. -/
def uriEqual (fuel : Nat) (samePointer : Bool) (a b : Uri Method) : Option Bool :=
  if samePointer then some true else uriEqualLoop fuel a b

end Equal

/-- Two elements that differ at most in `NULL` against an empty text. -/
def Element.Matches (a b : Element Method) : Prop :=
  a.text.getD [] = b.text.getD [] ∧ a.methodString = b.methodString ∧ a.method = b.method

def Toplevel.Matches (a b : Toplevel) : Prop :=
  a.hostName.getD [] = b.hostName.getD [] ∧ a.hostPort = b.hostPort ∧
    a.userName.getD [] = b.userName.getD [] ∧ a.password.getD [] = b.password.getD []

/-- The chains have the same length, and their elements match one by one. -/
def Uri.Matches (a b : Uri Method) : Prop :=
  List.Forall₂ Element.Matches a.elements b.elements ∧ a.getToplevel.Matches b.getToplevel

instance [DecidableEq Method] (a b : Element Method) : Decidable (a.Matches b) := inferInstanceAs (Decidable (_ ∧ _))

instance (a b : Toplevel) : Decidable (a.Matches b) := inferInstanceAs (Decidable (_ ∧ _))

instance [DecidableEq Method] (a b : Uri Method) : Decidable (a.Matches b) := inferInstanceAs (Decidable (_ ∧ _))

theorem compareElements_iff [DecidableEq Method] (a b : Element Method) :
    compareElements a b = true ↔ a.Matches b := by
  simp only [compareElements, Element.Matches]
  by_cases text : stringMatch a.text b.text = true
  · by_cases name : stringMatch (some a.methodString) (some b.methodString) = true
    · have := (stringMatch_iff _ _).mp name
      simp_all [stringMatch_iff]
    · have := mt (stringMatch_iff _ _).mpr name
      simp_all
  · have := mt (stringMatch_iff _ _).mpr text
    simp_all

theorem compareToplevel_iff (a b : Toplevel) :
    compareToplevel a b = true ↔ a.Matches b := by
  simp only [compareToplevel, Toplevel.Matches, Bool.and_eq_true, stringMatch_iff, decide_eq_true_eq]
  tauto

theorem Uri.Matches.refl (a : Uri Method) : a.Matches a :=
  ⟨List.forall₂_same.mpr fun _ _ => ⟨rfl, rfl, rfl⟩, rfl, rfl, rfl, rfl⟩

theorem Uri.elements_eq_cons (a : Uri Method) :
    ∃ rest, a.elements = a.element :: rest ∧ (rest = [] ↔ a.parent = none) := by
  cases a with
  | toplevel e top => exact ⟨[], rfl, by simp [Uri.parent]⟩
  | child e p =>
    refine ⟨p.elements, rfl, ?_⟩
    cases p <;> simp [Uri.elements, Uri.parent]

theorem Uri.Matches.head {a b : Uri Method} (same : a.Matches b) :
    a.element.Matches b.element ∧ (a.parent = none ↔ b.parent = none) := by
  obtain ⟨restA, shapeA, topA⟩ := a.elements_eq_cons
  obtain ⟨restB, shapeB, topB⟩ := b.elements_eq_cons
  have chains := same.1
  rw [shapeA, shapeB, List.forall₂_cons] at chains
  refine ⟨chains.1, ?_⟩
  rw [← topA, ← topB]
  constructor
  · rintro rfl
    exact List.forall₂_nil_left_iff.mp chains.2
  · rintro rfl
    exact List.forall₂_nil_right_iff.mp chains.2

theorem Uri.matches_toplevel (e f : Element Method) (s t : Toplevel) :
    (Uri.toplevel e s).Matches (.toplevel f t) ↔ e.Matches f ∧ s.Matches t := by
  simp [Uri.Matches, Uri.elements, Uri.getToplevel]

section Equal

variable [DecidableEq Method]

theorem uriEqualLoop_stuck {a b : Uri Method} (chainA : a.parent ≠ none) (chainB : b.parent ≠ none)
    (same : a.element.Matches b.element) (fuel : Nat) : uriEqualLoop fuel a b = none := by
  induction fuel with
  | zero => rfl
  | succ fuel ih =>
    rw [uriEqualLoop, if_pos ⟨Option.isSome_iff_ne_none.mpr chainA,
      Option.isSome_iff_ne_none.mpr chainB⟩, (compareElements_iff _ _).mpr same]
    exact ih

theorem uriEqualLoop_toplevel (e f : Element Method) (s t : Toplevel) (fuel : Nat) :
    uriEqualLoop (fuel + 1) (.toplevel e s) (.toplevel f t) =
      some (compareElements e f && compareToplevel s t) := by
  cases same : compareElements e f <;>
    simp [uriEqualLoop, Uri.parent, Uri.element, Uri.getToplevel, same]

theorem uriEqualLoop_spec {a b : Uri Method}
    (ends : a.parent = none ∨ b.parent = none ∨ ¬ a.element.Matches b.element) (fuel : Nat) :
    uriEqualLoop (fuel + 1) a b = some (decide (a.Matches b)) := by
  cases a with
  | toplevel e s =>
    cases b with
    | toplevel f t =>
      rw [uriEqualLoop_toplevel, Option.some.injEq, Bool.eq_iff_iff, Bool.and_eq_true,
        compareElements_iff, compareToplevel_iff, decide_eq_true_iff, Uri.matches_toplevel]
    | child f q =>
      have : ¬ (Uri.toplevel e s).Matches (.child f q) := fun same => by
        simpa [Uri.parent] using same.head.2
      simp [uriEqualLoop, Uri.parent, this]
  | child e p =>
    cases b with
    | toplevel f t =>
      have : ¬ (Uri.child e p).Matches (.toplevel f t) := fun same => by
        simpa [Uri.parent] using same.head.2
      simp [uriEqualLoop, Uri.parent, this]
    | child f q =>
      have other : ¬ e.Matches f := by
        simpa [Uri.parent, Uri.element] using ends
      have differ : compareElements e f = false := by
        simpa using mt (compareElements_iff e f).mp other
      have : ¬ (Uri.child e p).Matches (.child f q) := fun same => other same.head.1
      simp [uriEqualLoop, Uri.parent, Uri.element, differ, this]

/-- `gnome_vfs_uri_equal` returns and decides the match of the two chains exactly when the
pointers are the same, one of the chains has a single element, or the first elements differ.
Otherwise it does not return. -/
theorem uriEqual_decides_iff (samePointer : Bool) (a b : Uri Method)
    (aliased : samePointer = true → a = b) :
    (∃ fuel, ∀ more, uriEqual (fuel + more) samePointer a b = some (decide (a.Matches b))) ↔
      samePointer = true ∨ a.parent = none ∨ b.parent = none ∨ ¬ a.element.Matches b.element := by
  cases samePointer with
  | true =>
    obtain rfl := aliased rfl
    simp [uriEqual, Uri.Matches.refl]
  | false =>
    simp only [uriEqual, Bool.false_eq_true, if_false, false_or]
    constructor
    · rintro ⟨fuel, returned⟩
      by_contra stuck
      push Not at stuck
      obtain ⟨chainA, chainB, same⟩ := stuck
      have := returned 0
      rw [uriEqualLoop_stuck chainA chainB same] at this
      cases this
    · exact fun ends => ⟨1, fun more => by rw [Nat.add_comm]; exact uriEqualLoop_spec ends more⟩

end Equal

def localFile (path : String) : Uri Unit :=
  .toplevel ⟨some (ascii path), none, ascii "file", some ()⟩ .empty

theorem uriEqual_decides_iff_files :
    (∃ fuel, ∀ more, uriEqual (fuel + more) false (localFile "/a") (localFile "/b") =
        some (decide ((localFile "/a").Matches (localFile "/b")))) ↔
      false = true ∨ (localFile "/a").parent = none ∨ (localFile "/b").parent = none ∨
        ¬ (localFile "/a").element.Matches (localFile "/b").element :=
  uriEqual_decides_iff false (localFile "/a") (localFile "/b") (by simp)

/-- Two separate copies of one chained URI. -/
theorem uriEqual_runs_forever :
    ∃ u : Uri Unit, uriNew plainContext (ascii "file:///a.gz#gzip:") = some u ∧ u.Matches u ∧
      ¬ ∃ fuel, (uriEqual fuel false u u).isSome := by
  refine ⟨.child ⟨some (ascii "/"), none, ascii "gzip", some ()⟩
    (.toplevel ⟨some (ascii "/a.gz"), none, ascii "file", some ()⟩ .empty),
    by decide +kernel, Uri.Matches.refl _, ?_⟩
  rintro ⟨fuel, returned⟩
  rw [uriEqual, if_neg (by simp), uriEqualLoop_stuck (by simp [Uri.parent]) (by simp [Uri.parent])
    ⟨rfl, rfl, rfl⟩] at returned
  cases returned

/-- Change the fields of the toplevel element. -/
def Uri.mapToplevel (f : Toplevel → Toplevel) : Uri Method → Uri Method
  | .toplevel e top => .toplevel e (f top)
  | .child e p => .child e (p.mapToplevel f)

def setHostName (uri : Uri Method) (hostName : Option Bytes) : Uri Method :=
  uri.mapToplevel fun top => { top with hostName := hostName }

def setHostPort (uri : Uri Method) (hostPort : UInt32) : Uri Method :=
  uri.mapToplevel fun top => { top with hostPort := hostPort }

def setUserName (uri : Uri Method) (userName : Option Bytes) : Uri Method :=
  uri.mapToplevel fun top => { top with userName := userName }

def setPassword (uri : Uri Method) (password : Option Bytes) : Uri Method :=
  uri.mapToplevel fun top => { top with password := password }

/-- The URIs that can be made with `gnome_vfs_uri_new` and the setters. -/
inductive Reachable (ctx : UriContext Method) : Uri Method → Prop where
  | parsed (text : Bytes) (uri : Uri Method) : uriNew ctx text = some uri → Reachable ctx uri
  | setHostName (uri : Uri Method) (hostName : Option Bytes) : Reachable ctx uri →
      Reachable ctx (GnomeVfs.setHostName uri hostName)
  | setHostPort (uri : Uri Method) (hostPort : UInt32) : Reachable ctx uri →
      Reachable ctx (GnomeVfs.setHostPort uri hostPort)
  | setUserName (uri : Uri Method) (userName : Option Bytes) : Reachable ctx uri →
      Reachable ctx (GnomeVfs.setUserName uri userName)
  | setPassword (uri : Uri Method) (password : Option Bytes) : Reachable ctx uri →
      Reachable ctx (GnomeVfs.setPassword uri password)

section Hash

variable (strHash : Bytes → UInt32)

/-- `HASH_STRING`. -/
def hashString (value : UInt32) : Option Bytes → UInt32
  | none => value
  | some s => value ^^^ strHash s

/-- The loop of `gnome_vfs_uri_hash` from an element on. -/
def uriHashLoop (value : UInt32) : Uri Method → UInt32
  | .toplevel e top =>
    let value := hashString strHash (hashString strHash value e.text) (some e.methodString)
    let value := hashString strHash value top.hostName ^^^ top.hostPort
    hashString strHash (hashString strHash value top.userName) top.password
  | .child e p =>
    uriHashLoop (hashString strHash (hashString strHash value e.text) (some e.methodString)) p

/-- `gnome_vfs_uri_hash`. -/
def uriHash (uri : Uri Method) : UInt32 := uriHashLoop strHash 0 uri

/-- What a field adds to the hash. -/
def fieldHash (s : Option Bytes) : UInt32 := (s.map strHash).getD 0

theorem hashString_eq (value : UInt32) (s : Option Bytes) :
    hashString strHash value s = value ^^^ fieldHash strHash s := by
  cases s <;> simp [hashString, fieldHash]

/-- `NULL` in one URI against a string in the other. -/
def nullDiffers (a b : Option Bytes) : Bool := a.isNone != b.isNone

def nullCount (e f : Element Method) (s t : Toplevel) : Nat :=
  [nullDiffers e.text f.text, nullDiffers s.hostName t.hostName,
    nullDiffers s.userName t.userName, nullDiffers s.password t.password].count true

theorem fieldHash_of_match {a b : Option Bytes} (same : a.getD [] = b.getD []) :
    fieldHash strHash a =
      fieldHash strHash b ^^^ if nullDiffers a b then strHash [] else 0 := by
  cases a <;> cases b <;> simp_all [fieldHash, nullDiffers]

theorem xor_count (value : UInt32) (bits : List Bool) :
    (bits.map fun bit => if bit then value else 0).foldr (· ^^^ ·) 0 =
      if Even (bits.count true) then 0 else value := by
  induction bits with
  | nil => simp
  | cons bit rest ih =>
    rw [List.map_cons, List.foldr_cons, ih]
    cases bit with
    | false => simp
    | true =>
      by_cases even : Even (rest.count true) <;> simp [even, Nat.even_add_one]

theorem uriHash_of_matches {e f : Element Method} {s t : Toplevel} (same : e.Matches f)
    (sameTop : s.Matches t) :
    uriHash strHash (.toplevel e s) = uriHash strHash (.toplevel f t) ^^^
      if Even (nullCount e f s t) then 0 else strHash [] := by
  obtain ⟨text, name, -⟩ := same
  obtain ⟨host, port, user, password⟩ := sameTop
  rw [nullCount, ← xor_count]
  simp only [uriHash, uriHashLoop, hashString_eq, name, port, fieldHash_of_match strHash text,
    fieldHash_of_match strHash host, fieldHash_of_match strHash user,
    fieldHash_of_match strHash password, List.map_cons, List.map_nil, List.foldr_cons,
    List.foldr_nil, UInt32.xor_zero, UInt32.zero_xor]
  ac_rfl

/-- Equal toplevel URIs have one hash value exactly when the empty string hashes to 0, or an
even number of fields is `NULL` in one of them and empty in the other. -/
theorem uriHash_eq_iff [DecidableEq Method] (samePointer : Bool) (e f : Element Method) (s t : Toplevel)
    (aliased : samePointer = true → Uri.toplevel e s = .toplevel f t)
    (equal : ∃ fuel, uriEqual fuel samePointer (.toplevel e s) (.toplevel f t) = some true) :
    uriHash strHash (.toplevel e s) = uriHash strHash (.toplevel f t) ↔
      strHash [] = 0 ∨ Even (nullCount e f s t) := by
  have same : e.Matches f ∧ s.Matches t := by
    cases samePointer with
    | true =>
      have refl := Uri.Matches.refl (Uri.toplevel e s)
      rw [aliased rfl, Uri.matches_toplevel] at refl
      cases aliased rfl
      exact refl
    | false =>
      obtain ⟨fuel, returned⟩ := equal
      cases fuel with
      | zero => simp [uriEqual, uriEqualLoop] at returned
      | succ fuel =>
        rw [uriEqual, if_neg (by simp), uriEqualLoop_spec (Or.inl rfl), Option.some.injEq,
          decide_eq_true_iff, Uri.matches_toplevel] at returned
        exact returned
  rw [uriHash_of_matches strHash same.1 same.2]
  by_cases even : Even (nullCount e f s t)
  · simp [even]
  · simp only [even, if_false, or_false]
    constructor
    · intro unchanged
      have := congrArg (uriHash strHash (Uri.toplevel f t) ^^^ ·) unchanged
      simpa [← UInt32.xor_assoc] using this
    · intro zero
      simp [zero]

end Hash

/-- `g_str_hash`. -/
def gStrHash (s : Bytes) : UInt32 := s.foldl (fun h c => h * 33 + c.toInt8.toInt32.toUInt32) 5381

theorem uriHash_eq_iff_defaults :
    uriHash gStrHash (.toplevel ⟨some (ascii "/"), none, ascii "http", some ()⟩
        ⟨some [], 80, some [], none⟩) =
      uriHash gStrHash (.toplevel ⟨some (ascii "/"), none, ascii "http", some ()⟩
        ⟨none, 80, none, none⟩) ↔
      gStrHash [] = 0 ∨ Even (@nullCount Unit
        ⟨some (ascii "/"), none, ascii "http", some ()⟩
        ⟨some (ascii "/"), none, ascii "http", some ()⟩ ⟨some [], 80, some [], none⟩
        ⟨none, 80, none, none⟩) :=
  uriHash_eq_iff gStrHash false _ _ _ _ (by simp) ⟨1, by decide⟩

/-- Clearing the host name with `NULL` or with an empty string gives equal URIs with
different hash values. -/
theorem uriHash_differs_on_equal :
    ∃ u : Uri Unit, Reachable plainContext (setHostName u none) ∧
      Reachable plainContext (setHostName u (some [])) ∧
      uriEqual 1 false (setHostName u none) (setHostName u (some [])) = some true ∧
      uriHash gStrHash (setHostName u none) ≠ uriHash gStrHash (setHostName u (some [])) := by
  have parsed : uriNew plainContext (ascii "http://h/") = some
      (.toplevel ⟨some (ascii "/"), none, ascii "http", some ()⟩ ⟨some (ascii "h"), 0, none, none⟩) := by
    decide +kernel
  exact ⟨_, .setHostName _ _ (.parsed _ _ parsed), .setHostName _ _ (.parsed _ _ parsed),
    by decide, by decide +kernel⟩

end GnomeVfs
