import GnomeVfs.UriRoundtrip

/- The methods of a chained URI. Only the first one is compared with `pipe`. -/
namespace GnomeVfs

variable {Method : Type}

section Names

variable (ctx : UriContext Method)

def pipeMethod : Bytes := ascii "pipe"

/-- The parts of the text between its `#` characters. -/
def chainParts (text : Bytes) : List Bytes := text.splitOn chrHash

/-- The method that a part of the text names, `file` if it names none. -/
def partMethod (part : Bytes) : Bytes := (getMethodString part).1

def Registered (part : Bytes) : Prop := ctx.methodGet (partMethod part) ≠ none

/-- A part that names `pipe` is reached through parts that name registered methods. -/
def ReachesPipe (text : Bytes) : Prop :=
  ∃ before part behind, chainParts text = before ++ part :: behind ∧
    partMethod part = pipeMethod ∧ ∀ p ∈ before, Registered ctx p

def Uri.HasPipe (uri : Uri Method) : Prop := ∃ e ∈ uri.elements, e.methodString = pipeMethod

@[simp] theorem Uri.hasPipe_child (e : Element Method) (parent : Uri Method) :
    (Uri.child e parent).HasPipe ↔ e.methodString = pipeMethod ∨ parent.HasPipe := by
  simp [Uri.HasPipe, Uri.elements]

@[simp] theorem Uri.hasPipe_toplevel (e : Element Method) (top : Toplevel) :
    (Uri.toplevel e top).HasPipe ↔ e.methodString = pipeMethod := by
  simp [Uri.HasPipe, Uri.elements]

theorem chainParts_of_no_hash {text : Bytes} (clear : chrHash ∉ text) : chainParts text = [text] :=
  List.splitOn_eq_singleton clear

theorem chainParts_cons {part : Bytes} (clear : chrHash ∉ part) (rest : Bytes) :
    chainParts (part ++ chrHash :: rest) = part :: chainParts rest :=
  List.splitOn_append_cons_self_of_not_mem clear rest

theorem text_cases (text : Bytes) :
    chrHash ∉ text ∨ ∃ part rest, text = part ++ chrHash :: rest ∧ chrHash ∉ part := by
  by_cases hash : chrHash ∈ text
  · obtain ⟨part, rest, rfl, first⟩ := List.eq_append_cons_of_mem hash
    exact Or.inr ⟨part, rest, rfl, first⟩
  · exact Or.inl hash

theorem reachesPipe_of_no_hash {text : Bytes} (clear : chrHash ∉ text) :
    ReachesPipe ctx text ↔ partMethod text = pipeMethod := by
  rw [ReachesPipe, chainParts_of_no_hash clear]
  constructor
  · rintro ⟨before, part, behind, split, named, -⟩
    cases before with
    | nil =>
      simp only [List.nil_append, List.cons.injEq] at split
      rw [split.1]
      exact named
    | cons p before => simp at split
  · exact fun named => ⟨[], text, [], rfl, named, by simp⟩

theorem reachesPipe_cons {part : Bytes} (clear : chrHash ∉ part) (rest : Bytes) :
    ReachesPipe ctx (part ++ chrHash :: rest) ↔
      partMethod part = pipeMethod ∨ (Registered ctx part ∧ ReachesPipe ctx rest) := by
  rw [ReachesPipe, chainParts_cons clear]
  constructor
  · rintro ⟨before, found, behind, split, named, known⟩
    cases before with
    | nil =>
      simp only [List.nil_append, List.cons.injEq] at split
      exact Or.inl (split.1 ▸ named)
    | cons p before =>
      simp only [List.cons_append, List.cons.injEq] at split
      obtain ⟨rfl, split⟩ := split
      exact Or.inr ⟨known _ (by simp),
        before, found, behind, split, named, fun q member => known q (by simp [member])⟩
  · rintro (named | ⟨registered, before, found, behind, split, named, known⟩)
    · exact ⟨[], part, chainParts rest, rfl, named, by simp⟩
    · refine ⟨part :: before, found, behind, by simp [split], named, ?_⟩
      intro p member
      rcases List.mem_cons.mp member with rfl | inside
      · exact registered
      · exact known p inside

theorem getMethodString_of_no_colon {text : Bytes} (clear : chrColon ∉ text) :
    getMethodString text = (ascii "file", text) := by
  rw [getMethodString]
  split
  · rename_i c rest behind
    have inside : c ∈ text := (List.dropWhile_suffix _).subset (behind ▸ List.mem_cons_self ..)
    rw [if_neg]
    rintro rfl
    exact clear inside
  · rfl

theorem not_reachesPipe_of_no_colon (size : Nat) : ∀ {text : Bytes}, text.length ≤ size →
    chrColon ∉ text → ¬ ReachesPipe ctx text := by
  have unnamed : ∀ {part : Bytes}, chrColon ∉ part → partMethod part ≠ pipeMethod := by
    intro part clear
    rw [partMethod, getMethodString_of_no_colon clear]
    exact (by decide : ascii "file" ≠ pipeMethod)
  induction size with
  | zero =>
    intro text small clear
    obtain rfl : text = [] := List.length_eq_zero_iff.mp (by omega)
    rw [reachesPipe_of_no_hash ctx (by simp)]
    exact unnamed clear
  | succ size ih =>
    intro text small clear
    rcases text_cases text with noHash | ⟨part, rest, rfl, first⟩
    · rw [reachesPipe_of_no_hash ctx noHash]
      exact unnamed clear
    · rw [reachesPipe_cons ctx first]
      rintro (named | ⟨-, later⟩)
      · exact unnamed (fun member => clear (by simp [member])) named
      · simp only [List.length_append, List.length_cons] at small
        exact ih (by omega) (fun member => clear (by simp [member])) later

/-- A method is named in front of the first `#`. -/
theorem getMethodString_hash {part : Bytes} (rest : Bytes) :
    getMethodString (part ++ chrHash :: rest) =
      ((getMethodString part).1, (getMethodString part).2 ++ chrHash :: rest) := by
  have stop : isMethodChar chrHash = false := by decide
  by_cases all : ∀ c ∈ part, isMethodChar c = true
  · have taken : part.dropWhile isMethodChar = [] := List.dropWhile_eq_nil_iff.mpr all
    have behind : (part ++ chrHash :: rest).dropWhile isMethodChar = chrHash :: rest := by
      rw [List.dropWhile_append_of_pos all, List.dropWhile_cons, stop]
      simp
    rw [getMethodString, behind, getMethodString, taken]
    simp
  · obtain ⟨front, c, back, rfl, miss, kept⟩ : ∃ front c back, part = front ++ c :: back ∧
        isMethodChar c = false ∧ ∀ d ∈ front, isMethodChar d = true := by
      have found : scanTo (fun c => !isMethodChar c) part ≠ none := by
        rw [Ne, scanTo_eq_none]
        simpa using all
      obtain ⟨suffix, here⟩ := Option.ne_none_iff_exists'.mp found
      obtain ⟨front, c, back, split, -, hit, clear⟩ := (scanTo_eq_some _).mp here
      exact ⟨front, c, back, split, by simpa using hit, by simpa using clear⟩
    have behind : ∀ tail, (front ++ c :: tail).dropWhile isMethodChar = c :: tail := by
      intro tail
      rw [List.dropWhile_append_of_pos kept, List.dropWhile_cons, miss]
      simp
    have taken : ∀ tail, (front ++ c :: tail).takeWhile isMethodChar = front := by
      intro tail
      rw [List.takeWhile_append_of_pos kept, List.takeWhile_cons, miss]
      simp
    rw [List.append_assoc, List.cons_append, getMethodString, behind, taken, getMethodString,
      behind, taken]
    simp only
    split <;> simp

end Names

section Chain

variable {ctx : UriContext Method}

theorem splitExtension_of_no_hash {scanner : Bytes} (clear : chrHash ∉ scanner) :
    splitExtension scanner = (scanner, 0, none) := by
  simpa [printFragment, fragmentAfter] using splitExtension_printed clear none

theorem splitExtension_hash {body : Bytes} (clear : chrHash ∉ body) (rest : Bytes) :
    splitExtension (body ++ chrHash :: rest) = (body, chrHash, some rest) := by
  simpa [printFragment, fragmentAfter, HideOptions.none] using
    splitExtension_printed clear (some rest)

/-- The chain that is built behind `parent`, whether or not the text can be parsed. -/
theorem parseUriSubstring_hasPipe (known : ctx.methodGet pipeMethod ≠ none) (fuel : Nat) :
    ∀ (text : Bytes) (parent : Uri Method), text.length ≤ fuel →
      (((parseUriSubstring ctx fuel text parent).getD parent).HasPipe ↔
        parent.HasPipe ∨ ReachesPipe ctx text) := by
  have empty : ¬ ReachesPipe ctx [] := not_reachesPipe_of_no_colon ctx 0 (by simp) (by simp)
  induction fuel with
  | zero =>
    intro text parent small
    obtain rfl : text = [] := List.length_eq_zero_iff.mp (by omega)
    simp [parseUriSubstring, empty]
  | succ fuel ih =>
    intro text parent small
    by_cases nonempty : text = []
    · subst nonempty
      simp [parseUriSubstring, empty]
    rw [parseUriSubstring, if_neg nonempty]
    rcases text_cases text with clear | ⟨part, rest, rfl, clear⟩
    · rw [reachesPipe_of_no_hash ctx clear, partMethod]
      have noHash : chrHash ∉ (getMethodString text).2 := fun member =>
        clear ((getMethodString_suffix text).subset member)
      simp only [splitExtension_of_no_hash noHash]
      cases method : ctx.methodGet (getMethodString text).1 with
      | none =>
        have other : (getMethodString text).1 ≠ pipeMethod := by
          rintro same
          exact known (same ▸ method)
        simp [other]
      | some m => simp [or_comm]
    · rw [reachesPipe_cons ctx clear, Registered, partMethod, getMethodString_hash]
      have noHash : chrHash ∉ (getMethodString part).2 := fun member =>
        clear ((getMethodString_suffix part).subset member)
      simp only [splitExtension_hash noHash]
      cases method : ctx.methodGet (getMethodString part).1 with
      | none =>
        have other : (getMethodString part).1 ≠ pipeMethod := by
          rintro same
          exact known (same ▸ method)
        simp [other]
      | some m =>
        have shorter : rest.length ≤ fuel := by
          simp only [List.length_append, List.length_cons] at small
          omega
        simp only
        split
        · rename_i noColon
          have stopped := not_reachesPipe_of_no_colon ctx rest.length (Nat.le_refl _) noColon
          simp [stopped, or_comm]
        · simp only [Option.getD_some, ih rest _ shorter, Uri.hasPipe_child]
          simp [or_comm, or_assoc]

theorem parseToplevel_hasPipe (known : ctx.methodGet pipeMethod ≠ none) {part : Bytes}
    (clear : chrHash ∉ part) (rest : Bytes) :
    (parseToplevel ctx (partMethod part) ((getMethodString part).2 ++ chrHash :: rest)).HasPipe ↔
      partMethod part = pipeMethod ∨ ReachesPipe ctx rest := by
  have noHash : chrHash ∉ (getMethodString part).2 := fun member =>
    clear ((getMethodString_suffix part).subset member)
  simp only [parseToplevel, splitExtension_hash noHash]
  split
  · rename_i noColon
    have stopped := not_reachesPipe_of_no_colon ctx rest.length (Nat.le_refl _) noColon
    simp [stopped]
  · rw [parseUriSubstring_hasPipe known rest.length rest _ (Nat.le_refl _)]
    simp

end Chain

theorem uriNew_eq (ctx : UriContext Method) (text : Bytes)
    (untransformed : ctx.transformGet = fun _ => none) :
    uriNew ctx text =
      if text = [] ∨ partMethod text = pipeMethod ∨ ctx.methodGet (partMethod text) = none then none
      else some (parseToplevel ctx (partMethod text) (getMethodString text).2) := by
  by_cases empty : text = []
  · simp [uriNew, uriNewPrivate, empty]
  by_cases unsafeMethod : partMethod text = pipeMethod
  · rw [if_pos (Or.inr (Or.inl unsafeMethod))]
    simp only [partMethod, pipeMethod] at unsafeMethod
    simp [uriNew, uriNewPrivate, unsafeMethod]
  · simp only [uriNew, uriNewPrivate, if_neg empty, applyTransform, untransformed]
    simp only [partMethod, pipeMethod] at unsafeMethod ⊢
    simp [empty, unsafeMethod]

/-- No `pipe` element gets past `gnome_vfs_uri_new` exactly when the first part names `pipe`,
or every later part that names it stands behind a part whose method is not registered. -/
theorem uriNew_safe_iff (ctx : UriContext Method) (text : Bytes)
    (untransformed : ctx.transformGet = fun _ => none)
    (known : ctx.methodGet (ascii "pipe") ≠ none) :
    (∀ uri, uriNew ctx text = some uri → ∀ e ∈ uri.elements, e.methodString ≠ ascii "pipe") ↔
      partMethod text = ascii "pipe" ∨
        ∀ before part behind, chainParts text = before ++ part :: behind → before ≠ [] →
          partMethod part = ascii "pipe" → ∃ p ∈ before, ctx.methodGet (partMethod p) = none := by
  have safe : (∀ uri, uriNew ctx text = some uri →
      ∀ e ∈ uri.elements, e.methodString ≠ ascii "pipe") ↔
      ∀ uri, uriNew ctx text = some uri → ¬ uri.HasPipe := by
    simp [Uri.HasPipe, pipeMethod]
  rw [safe, uriNew_eq ctx text untransformed]
  by_cases first : partMethod text = pipeMethod
  · simp [first, pipeMethod]
  rcases text_cases text with clear | ⟨part, rest, rfl, clear⟩
  · have single : ∀ before part behind, chainParts text = before ++ part :: behind → before = [] := by
      intro before part behind split
      rw [chainParts_of_no_hash clear] at split
      cases before with
      | nil => rfl
      | cons p more => simp at split
    have noHash : chrHash ∉ (getMethodString text).2 := fun member =>
      clear ((getMethodString_suffix text).subset member)
    constructor
    · exact fun _ => Or.inr fun before part behind split nonempty =>
        absurd (single before part behind split) nonempty
    · intro _ uri parsed
      split at parsed
      · cases parsed
      · cases parsed
        simpa [parseToplevel, splitExtension_of_no_hash noHash] using first
  · have method : partMethod (part ++ chrHash :: rest) = partMethod part := by
      rw [partMethod, getMethodString_hash, partMethod]
    have later : (∀ before found behind,
        chainParts (part ++ chrHash :: rest) = before ++ found :: behind → before ≠ [] →
          partMethod found = ascii "pipe" → ∃ p ∈ before, ctx.methodGet (partMethod p) = none) ↔
        ¬ (Registered ctx part ∧ ReachesPipe ctx rest) := by
      rw [chainParts_cons clear]
      constructor
      · rintro blocked ⟨registered, before, found, behind, split, named, through⟩
        obtain ⟨p, member, missing⟩ :=
          blocked (part :: before) found behind (by simp [split]) (by simp) named
        rcases List.mem_cons.mp member with rfl | inside
        · exact registered missing
        · exact through p inside missing
      · rintro blocked (_ | ⟨p, before⟩) found behind split nonempty named
        · exact absurd rfl nonempty
        · by_contra through
          simp only [List.cons_append, List.cons.injEq] at split
          obtain ⟨rfl, split⟩ := split
          push Not at through
          exact blocked ⟨through _ (by simp), before, found, behind, split, named,
            fun q member => through q (by simp [member])⟩
    rw [later, method, getMethodString_hash]
    rw [method] at first
    simp only [List.append_eq_nil_iff, reduceCtorEq, and_false, first, false_or]
    by_cases registered : ctx.methodGet (partMethod part) = none
    · simp [registered, Registered]
    · rw [if_neg registered]
      have chain := parseToplevel_hasPipe known clear rest
      simp only [first, false_or] at chain
      simp [chain, Registered, registered, show partMethod part ≠ ascii "pipe" from first]

theorem uriNew_safe_iff_archive :
    (∀ uri, uriNew plainContext (ascii "file:///a.gz#gzip:") = some uri →
        ∀ e ∈ uri.elements, e.methodString ≠ ascii "pipe") ↔
      partMethod (ascii "file:///a.gz#gzip:") = ascii "pipe" ∨
        ∀ before part behind,
          chainParts (ascii "file:///a.gz#gzip:") = before ++ part :: behind → before ≠ [] →
            partMethod part = ascii "pipe" →
              ∃ p ∈ before, plainContext.methodGet (partMethod p) = none :=
  uriNew_safe_iff plainContext (ascii "file:///a.gz#gzip:") rfl (by decide)

/-- `pipe` behind a `#` is accepted. -/
theorem uriNew_pipe_behind_hash :
    ∃ uri, uriNew plainContext (ascii "file:///x#pipe:foo") = some uri ∧
      ∃ e ∈ uri.elements, e.methodString = ascii "pipe" :=
  ⟨.child ⟨some (ascii "foo"), none, ascii "pipe", some ()⟩
      (.toplevel ⟨some (ascii "/x"), none, ascii "file", some ()⟩ .empty),
    by decide +kernel, ⟨some (ascii "foo"), none, ascii "pipe", some ()⟩, by simp [Uri.elements], rfl⟩

end GnomeVfs
