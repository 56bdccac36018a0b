import GnomeVfs.UriAppend

/- The test for an ancestor goes from a URI to its parents, whose texts get shorter. -/
namespace GnomeVfs

variable {Method : Type}

section Parents

/-- The length of the text is the measure of the search. -/
def textLength (uri : Uri Method) : Nat := (uri.element.text.getD []).length

theorem uriGetParent_shorter {uri up : Uri Method} (toplevel : uri.parent = none)
    (found : uriGetParent uri = some up) : up.parent = none ∧ textLength up < textLength uri := by
  cases uri with
  | child e p => cases toplevel
  | toplevel e top =>
    simp only [uriGetParent, Uri.element, Uri.parent] at found
    split at found
    · cases found
    · rename_i text present
      split at found
      · split at found
        · rename_i more
          cases found
          have inside := lt_length_of_byteAt_ne_zero more
          refine ⟨rfl, ?_⟩
          simp only [textLength, Uri.withText, Uri.element, Option.getD_some, present]
          split
          · simp only [List.length_singleton]
            omega
          · rw [List.length_take]
            omega
        · cases found
      · cases found

variable [DecidableEq Method] (ctx : UriContext Method)

theorem uriMatchesAsParent_returns (possibleParent : Uri Method) {up : Uri Method}
    (toplevel : up.parent = none) (fuel : Nat) :
    ∃ answer, uriMatchesAsParent ctx (fuel + 1) possibleParent up = some answer := by
  have compared : ∀ a : Uri Method, uriEqual (fuel + 1) false a up = some (decide (a.Matches up)) := by
    intro a
    rw [uriEqual, if_neg (by simp)]
    exact uriEqualLoop_spec (Or.inr (Or.inl toplevel)) fuel
  rw [uriMatchesAsParent]
  split
  · split
    · exact ⟨false, rfl⟩
    · exact ⟨_, compared _⟩
  · exact ⟨_, compared _⟩

/-- The search ends after at most as many steps as the text has bytes. -/
theorem uriIsParentLoop_returns (possibleParent : Uri Method) (size : Nat) : ∀ (fuel : Nat) (item : Uri Method),
    item.parent = none → textLength item ≤ size → size + 2 ≤ fuel →
      ∃ answer, uriIsParentLoop ctx fuel possibleParent item = some answer := by
  induction size with
  | zero =>
    intro fuel item toplevel small enough
    obtain ⟨fuel, rfl⟩ : ∃ n, fuel = n + 1 := ⟨fuel - 1, by omega⟩
    rw [uriIsParentLoop]
    cases found : uriGetParent item with
    | none => exact ⟨false, rfl⟩
    | some up =>
      have := (uriGetParent_shorter toplevel found).2
      omega
  | succ size ih =>
    intro fuel item toplevel small enough
    obtain ⟨fuel, rfl⟩ : ∃ n, fuel = n + 2 := ⟨fuel - 2, by omega⟩
    rw [uriIsParentLoop]
    cases found : uriGetParent item with
    | none => exact ⟨false, rfl⟩
    | some up =>
      obtain ⟨upper, shorter⟩ := uriGetParent_shorter toplevel found
      obtain ⟨answer, compared⟩ := uriMatchesAsParent_returns ctx possibleParent upper fuel
      simp only [compared]
      cases answer with
      | true => exact ⟨true, rfl⟩
      | false => exact ih (fuel + 1) up upper (by omega) (by omega)

theorem uriMatchesAsParent_longer {possibleParent up : Uri Method} (toplevel : up.parent = none)
    (longer : textLength up < textLength possibleParent) (fuel : Nat) :
    uriMatchesAsParent ctx fuel possibleParent up ≠ some true := by
  have nonempty : possibleParent.element.text.getD [] ≠ [] := by
    intro empty
    rw [textLength, textLength, empty, List.length_nil] at longer
    omega
  have differ : ¬ possibleParent.Matches up := by
    intro same
    have text := congrArg List.length same.head.1.1
    rw [textLength, textLength] at longer
    omega
  rw [uriMatchesAsParent, if_neg nonempty, uriEqual, if_neg (by simp)]
  cases fuel with
  | zero => simp [uriEqualLoop]
  | succ fuel => simp [uriEqualLoop_spec (Or.inr (Or.inl toplevel)), differ]

theorem uriIsParentLoop_longer {possibleParent : Uri Method} (fuel : Nat) : ∀ item : Uri Method,
    item.parent = none → textLength item ≤ textLength possibleParent →
      uriIsParentLoop ctx fuel possibleParent item ≠ some true := by
  induction fuel with
  | zero =>
    intro item _ _ ran
    cases ran
  | succ fuel ih =>
    intro item toplevel longer
    rw [uriIsParentLoop]
    cases found : uriGetParent item with
    | none => simp
    | some up =>
      obtain ⟨upper, shorter⟩ := uriGetParent_shorter toplevel found
      have differs : uriMatchesAsParent ctx fuel possibleParent up ≠ some true :=
        uriMatchesAsParent_longer ctx upper (by omega) fuel
      have later := ih up upper (by omega)
      simp only
      split
      · simp
      · rename_i same
        exact absurd same differs
      · exact later

end Parents

section Names

variable {ctx : UriContext Method} {e : Element Method} {top : Toplevel} {text : Bytes}

/-- The text behind a list of names. -/
def namesText (text : Bytes) (names : List Bytes) : Bytes :=
  names.foldl (fun text name => childText text (escapeString name)) text

theorem namesText_concat (names : List Bytes) (name : Bytes) :
    namesText text (names ++ [name]) = childText (namesText text names) (escapeString name) := by
  simp [namesText]

theorem Place.withText (place : Place ctx e top) (text : Bytes) :
    Place ctx { e with text := some text } top :=
  ⟨place.scheme, place.safe, place.method, place.registered, place.untransformed, place.unfragmented,
    place.user, place.password, place.host, place.port, place.hostless⟩

/-- A name can be put behind every text that names were put behind, and behind at least one
name the text is a canonical path. -/
theorem namesText_ready (ready : Appendable ctx e.methodString top text) (names : List Bytes) :
    (∀ name ∈ names, FileName name) → Appendable ctx e.methodString top (namesText text names) ∧
      (names ≠ [] → DirectoryText ctx e.methodString (namesText text names)) := by
  induction names using List.reverseRecOn with
  | nil => exact fun _ => ⟨ready, fun nonempty => absurd rfl nonempty⟩
  | append_singleton names name ih =>
    intro files
    have file := files name (by simp)
    have before := (ih fun other member => files other (by simp [member])).1
    have directory := before.child file.escaped (file.kept ctx.beyond)
    rw [namesText_concat]
    exact ⟨Or.inl directory, fun _ => directory⟩

theorem foldlM_uriAppendFileName (place : Place ctx e top) (names : List Bytes) :
    ∀ text, Appendable ctx e.methodString top text → (∀ name ∈ names, FileName name) →
      names.foldlM (uriAppendFileName ctx) (.toplevel { e with text := some text } top) =
        some (.toplevel { e with text := some (namesText text names) } top) := by
  induction names with
  | nil => exact fun _ _ _ => rfl
  | cons name rest ih =>
    intro text ready files
    have file := files name (by simp)
    have first := uriAppendFileName_child (place.withText text) ready rfl file
    have directory := ready.child file.escaped (file.kept ctx.beyond)
    rw [List.foldlM_cons, first]
    exact ih _ (Or.inl directory) fun other member => files other (by simp [member])

theorem childText_longer {name : Bytes} (nonempty : name ≠ []) :
    (parentText text).length < (childText text name).length := by
  have positive : 0 < name.length := List.length_pos_of_ne_nil nonempty
  rw [childText, List.length_append, List.length_cons, parentText]
  split
  · rw [List.length_singleton]
    omega
  · omega

theorem namesText_longer (ready : Appendable ctx e.methodString top text) {names : List Bytes}
    (files : ∀ name ∈ names, FileName name) (nonempty : names ≠ []) :
    (parentText text).length < (namesText text names).length := by
  induction names using List.reverseRecOn with
  | nil => exact absurd rfl nonempty
  | append_singleton names name ih =>
    have file := files name (by simp)
    have inner : ∀ other ∈ names, FileName other := fun other member => files other (by simp [member])
    have longer : (parentText (namesText text names)).length < _ :=
      childText_longer file.escaped.nonempty
    rw [namesText_concat]
    by_cases single : names = []
    · rwa [single] at longer ⊢
    · have directory := (namesText_ready ready names inner).2 single
      have before := ih inner single
      rw [directory.parentText_eq] at longer
      omega

theorem uriGetParent_names (place : Place ctx e top) (ready : Appendable ctx e.methodString top text)
    {names : List Bytes} {name : Bytes} (files : ∀ other ∈ names ++ [name], FileName other) :
    uriGetParent (.toplevel { e with text := some (namesText text (names ++ [name])) } top) =
      some (.toplevel { e with text := some (parentText (namesText text names)) } top) := by
  have inner : ∀ other ∈ names, FileName other := fun other member => files other (by simp [member])
  have part := (files name (by simp)).escaped
  rw [namesText_concat]
  exact uriGetParent_child place (namesText_ready ready names inner).1 part

theorem parentText_names (ready : Appendable ctx e.methodString top text) {names : List Bytes}
    (files : ∀ name ∈ names, FileName name) :
    parentText text = parentText (namesText text names) ↔ names = [] := by
  constructor
  · intro same
    by_contra more
    have longer := namesText_longer ready files more
    rw [same, ((namesText_ready ready names files).2 more).parentText_eq] at longer
    exact Nat.lt_irrefl _ longer
  · intro none
    rw [none]
    rfl

theorem Appendable.text_le (ready : Appendable ctx e.methodString top text) :
    text.length ≤ (parentText text).length := by
  rcases ready with directory | ⟨empty, -⟩
  · rw [directory.parentText_eq]
  · simp [empty]

section Ancestor

variable [DecidableEq Method]

/-- A URI is compared to a parent as if it had at least the root as its path. -/
theorem uriMatchesAsParent_eq (place : Place ctx e top) (ready : Appendable ctx e.methodString top text)
    (present : e.text = some text) (other : Bytes) (fuel : Nat) :
    uriMatchesAsParent ctx (fuel + 1) (.toplevel e top) (.toplevel { e with text := some other } top) =
      some (decide (parentText text = other)) := by
  have compared : uriEqual (fuel + 1) false (.toplevel { e with text := some (parentText text) } top)
      (.toplevel { e with text := some other } top) = some (decide (parentText text = other)) := by
    rw [uriEqual, if_neg (by simp), uriEqualLoop_spec (Or.inl rfl)]
    simp [Uri.matches_toplevel, Element.Matches, Toplevel.Matches]
  by_cases empty : text = []
  · have dropped : [chrSlash].dropWhile (· == chrSlash) = [] := rfl
    have appended := uriAppendString_stem place ready present dropped (by simp) (by simp)
    have root : stem text ++ [chrSlash] = parentText text := by
      rw [parentText, empty]
      rfl
    have normal : normalizeText ctx e.methodString (parentText text) = parentText text := by
      rw [parentText, empty]
      exact normalizeText_root ctx e.methodString
    rw [root, normal] at appended
    rw [uriMatchesAsParent, if_pos (by simp [Uri.element, present, empty]), appended]
    exact compared
  · have same : parentText text = text := by
      rcases ready with directory | ⟨nothing, -⟩
      · exact directory.parentText_eq
      · exact absurd nothing empty
    rw [same, ← present] at compared
    rw [uriMatchesAsParent, if_neg (by simp [Uri.element, present, empty]), same]
    exact compared

theorem uriIsParentLoop_names (place : Place ctx e top) (ready : Appendable ctx e.methodString top text)
    (present : e.text = some text) {names : List Bytes} : ∀ fuel, names ≠ [] →
      (∀ name ∈ names, FileName name) → names.length + 1 ≤ fuel →
        uriIsParentLoop ctx fuel (.toplevel e top)
          (.toplevel { e with text := some (namesText text names) } top) = some true := by
  induction names using List.reverseRecOn with
  | nil => exact fun _ nonempty => absurd rfl nonempty
  | append_singleton names name ih =>
    intro fuel _ files enough
    have inner : ∀ other ∈ names, FileName other := fun other member => files other (by simp [member])
    rw [List.length_append, List.length_singleton] at enough
    obtain ⟨fuel, rfl⟩ : ∃ n, fuel = n + 2 := ⟨fuel - 2, by omega⟩
    rw [uriIsParentLoop, uriGetParent_names place ready files]
    simp only [uriMatchesAsParent_eq place ready present]
    by_cases single : names = []
    · rw [decide_eq_true ((parentText_names ready inner).mpr single)]
    · rw [decide_eq_false (mt (parentText_names ready inner).mp single),
        ((namesText_ready ready names inner).2 single).parentText_eq]
      exact ih (fuel + 1) single inner (by omega)

/-- A URI is an ancestor of what is appended to it, the parent if it is a single name, and
never the other way around; and the search ends for every URI without a chain. -/
theorem uriIsParent_appended (ctx : UriContext Method) (e : Element Method) (top : Toplevel) (text : Bytes)
    (names : List Bytes) (place : Place ctx e top) (present : e.text = some text)
    (ready : Appendable ctx e.methodString top text) (nonempty : names ≠ [])
    (files : ∀ name ∈ names, FileName name) :
    (∃ d, names.foldlM (uriAppendFileName ctx) (.toplevel e top) = some d ∧
      ∃ enough, ∀ fuel, enough ≤ fuel →
        uriIsParent ctx fuel (.toplevel e top) d true = some true ∧
        uriIsParent ctx fuel (.toplevel e top) d false = some (decide (names.length = 1)) ∧
        uriIsParent ctx fuel d (.toplevel e top) true = some false) ∧
      ∀ possibleParent possibleChild : Uri Method, possibleParent.parent = none →
        possibleChild.parent = none → ∃ enough, ∀ fuel, enough ≤ fuel →
          ∃ answer, uriIsParent ctx fuel possibleParent possibleChild true = some answer := by
  have returns : ∀ a b : Uri Method, b.parent = none → ∀ fuel, textLength b + 2 ≤ fuel →
      ∃ answer, uriIsParent ctx fuel a b true = some answer := by
    intro a b toplevel fuel enough
    exact uriIsParentLoop_returns ctx a (textLength b) fuel b toplevel (le_refl _) enough
  refine ⟨⟨.toplevel { e with text := some (namesText text names) } top, ?_,
    names.length + text.length + 2, ?_⟩, ?_⟩
  · have appended := foldlM_uriAppendFileName place names text ready files
    rwa [← present] at appended
  · intro fuel enough
    refine ⟨uriIsParentLoop_names place ready present fuel nonempty files (by omega), ?_, ?_⟩
    · obtain ⟨fuel, rfl⟩ : ∃ n, fuel = n + 1 := ⟨fuel - 1, by omega⟩
      obtain ⟨front, name, rfl⟩ := (List.eq_nil_or_concat names).resolve_left nonempty
      rw [List.concat_eq_append] at files ⊢
      have inner : ∀ other ∈ front, FileName other := fun other member => files other (by simp [member])
      have single : parentText text = parentText (namesText text front) ↔ (front ++ [name]).length = 1 := by
        rw [parentText_names ready inner]
        simp
      simp only [uriIsParent, Bool.not_false, if_true, uriGetParent_names place ready files,
        uriMatchesAsParent_eq place ready present, single]
    · have length : textLength (Uri.toplevel e top) = text.length := by
        rw [textLength, Uri.element, present, Option.getD_some]
      have long : textLength (Uri.toplevel e top) ≤
          textLength (Uri.toplevel { e with text := some (namesText text names) } top) := by
        have longer := namesText_longer ready files nonempty
        have least := ready.text_le
        rw [length, textLength, Uri.element, Option.getD_some]
        omega
      obtain ⟨answer, ran⟩ := returns (.toplevel { e with text := some (namesText text names) } top)
        (.toplevel e top) rfl fuel (by omega)
      have missed := uriIsParentLoop_longer ctx fuel (.toplevel e top) rfl long
      cases answer with
      | false => exact ran
      | true => exact absurd ran missed
  · intro a b _ toplevel
    exact ⟨textLength b + 2, returns a b toplevel⟩

end Ancestor

end Names

end GnomeVfs
