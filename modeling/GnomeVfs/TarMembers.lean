import GnomeVfs.TarRead
import GnomeVfs.TarTree
import Mathlib.Data.List.TakeDrop

/- The members of a tar archive: which blocks the scan takes for them, and where in the tree it puts them. -/
namespace GnomeVfs.Tar

section Names

/-- The indices at which there is a slash. -/
def slashesAt (name : Bytes) (indices : List Nat) : Nat := indices.countP fun i => byteAt name i = chrSlash

theorem findLevel_append {name : Bytes} {level : Nat} (first : List Nat) {numFound : Nat}
    (few : numFound + slashesAt name first < level) (second : List Nat) :
    findLevel name level numFound (first ++ second) = findLevel name level (numFound + slashesAt name first) second := by
  induction first generalizing numFound with
  | nil => rfl
  | cons i first ih =>
    have count : slashesAt name (i :: first) = slashesAt name first + if byteAt name i = chrSlash then 1 else 0 := by
      rw [slashesAt, List.countP_cons]
      simp only [decide_eq_true_eq]
      rfl
    rw [count] at few ⊢
    rw [List.cons_append, findLevel]
    by_cases here : byteAt name i = chrSlash
    · rw [if_pos here] at few ⊢
      rw [if_pos here, if_neg (by omega), ih (by omega), Nat.add_assoc, Nat.add_comm 1]
    · rw [if_neg here] at few ⊢
      rw [if_neg here, if_neg (by omega), ih (by omega), Nat.add_zero]

/-- The loop ends where so many slashes have been found. -/
theorem findLevel_reached {name : Bytes} {level i : Nat} {first : List Nat} (slash : byteAt name i = chrSlash)
    (reached : slashesAt name first + 1 = level) (second : List Nat) :
    findLevel name level 0 (first ++ i :: second) = some i := by
  rw [findLevel_append first (by omega), findLevel]
  rw [if_pos slash, if_pos (by omega)]

theorem findLevel_none {name : Bytes} {level : Nat} {indices : List Nat} (few : slashesAt name indices < level) :
    findLevel name level 0 indices = none := by
  have all := @findLevel_append name level indices 0 (by omega) []
  rw [List.append_nil] at all
  rw [all, findLevel]

theorem slashesAt_range (name : Bytes) {n : Nat} (inside : n ≤ name.length) :
    slashesAt name (List.range n) = (name.take n).count chrSlash := by
  induction n with
  | zero => rfl
  | succ n ih =>
    rw [List.range_succ, slashesAt, List.countP_append, List.countP_singleton, List.take_succ_eq_append_getElem inside,
      List.count_append, List.count_singleton, ← ih (by omega), slashesAt, byteAt, List.getD_eq_getElem?_getD,
      List.getElem?_eq_getElem inside, Option.getD_some]
    simp only [decide_eq_true_eq, beq_iff_eq]

variable {name front back : Bytes} {level : Nat}

theorem range_split (front back : Bytes) : List.range (front ++ chrSlash :: back).length =
    List.range front.length ++ front.length :: List.range' (front.length + 1) back.length := by
  rw [List.length_append, List.length_cons, List.range_eq_range', List.range_eq_range', Nat.add_comm back.length,
    ← List.range'_append_1, Nat.zero_add, Nat.add_comm 1, List.range'_succ]

theorem byteAt_front (front back : Bytes) : byteAt (front ++ chrSlash :: back) front.length = chrSlash := by
  rw [byteAt, List.getD_eq_getElem?_getD, List.getElem?_append_right (Nat.le_refl _), Nat.sub_self]
  rfl

theorem slashesAt_front (front back : Bytes) :
    slashesAt (front ++ chrSlash :: back) (List.range front.length) = front.count chrSlash := by
  rw [slashesAt_range _ (by rw [List.length_append]; omega), List.take_left]

theorem slashesAt_back (front back : Bytes) :
    slashesAt (front ++ chrSlash :: back) (List.range' (front.length + 1) back.length) = back.count chrSlash := by
  have whole := slashesAt_range (front ++ chrSlash :: back) (Nat.le_refl _)
  rw [List.take_length, range_split, slashesAt, List.countP_append, List.countP_cons, List.count_append, List.count_cons] at whole
  have before := slashesAt_front front back
  rw [slashesAt] at before
  rw [before, byteAt_front, if_pos (decide_eq_true rfl), if_pos (beq_self_eq_true _)] at whole
  unfold slashesAt
  omega

theorem splitNameWithLevel_forward (count : front.count chrSlash + 1 = level) :
    splitNameWithLevel (front ++ chrSlash :: back) level false =
      (front ++ [chrSlash], if back = [] then none else some back) := by
  have take : (front ++ chrSlash :: back).take (front.length + 1) = front ++ [chrSlash] := by
    rw [List.take_length_add_append]
    rfl
  have drop : (front ++ chrSlash :: back).drop (front.length + 1) = back := by
    rw [List.drop_length_add_append]
    rfl
  rw [splitNameWithLevel]
  rw [if_neg fun wrong => Bool.false_ne_true wrong.2, if_neg Bool.false_ne_true, range_split,
    findLevel_reached (byteAt_front front back) (by rw [slashesAt_front, count])]
  dsimp only
  rw [take, drop]
  congr 1
  cases back with
  | nil => exact if_pos (by rw [List.length_append]; exact Nat.le_refl _)
  | cons c back =>
    rw [if_neg (List.cons_ne_nil c back)]
    exact if_neg (by rw [List.length_append, List.length_cons, List.length_cons]; omega)

theorem splitNameWithLevel_backward
    (count : back.count chrSlash + 1 = if (front ++ chrSlash :: back).getLast? = some chrSlash then level + 1 else level) :
    (splitNameWithLevel (front ++ chrSlash :: back) level true).1 = front ++ [chrSlash] := by
  have take : (front ++ chrSlash :: back).take (front.length + 1) = front ++ [chrSlash] := by
    rw [List.take_length_add_append]
    rfl
  have reversed : slashesAt (front ++ chrSlash :: back) (List.range' (front.length + 1) back.length).reverse =
      back.count chrSlash := by
    rw [slashesAt, List.countP_reverse]
    exact slashesAt_back front back
  rw [splitNameWithLevel]
  simp only [and_true, if_true]
  rw [← count, range_split, List.reverse_append, List.reverse_cons, List.append_assoc, List.singleton_append,
    findLevel_reached (byteAt_front front back) (by rw [reversed])]
  exact take

theorem splitNameWithLevel_backward_none (few : name.count chrSlash < if name.getLast? = some chrSlash then level + 1 else level) :
    (splitNameWithLevel name level true).1 = name := by
  have all : slashesAt name (List.range name.length).reverse = name.count chrSlash := by
    have whole := slashesAt_range name (Nat.le_refl _)
    rw [List.take_length] at whole
    rw [slashesAt, List.countP_reverse]
    exact whole
  rw [splitNameWithLevel]
  simp only [and_true, if_true]
  rw [findLevel_none (by rw [all]; exact few)]

theorem splitNameWithLevel_rest {backwards : Bool} (none_left : (splitNameWithLevel name level backwards).2 = none) :
    (splitNameWithLevel name level backwards).1 = name := by
  rw [splitNameWithLevel] at none_left ⊢
  split at none_left
  · dsimp only at none_left ⊢
    split at none_left
    · exact List.take_of_length_le (by assumption)
    · cases none_left
  · rfl

end Names

/-- The name of a directory, from those of the directories above it and its own. -/
def dirOf (path : List Bytes) : Bytes := path.flatMap (· ++ [chrSlash])

/-- A name: the directories above, and what comes last, which has a slash at its end at most. -/
structure Parts (name : Bytes) (above : List Bytes) (last : Bytes) : Prop where
  name_eq : name = dirOf above ++ last
  plain : ∀ s ∈ above, chrSlash ∉ s
  some_last : last ≠ []
  last_plain : chrSlash ∉ last.dropLast

theorem dirOf_append (first second : List Bytes) : dirOf (first ++ second) = dirOf first ++ dirOf second :=
  List.flatMap_append

theorem count_dirOf {path : List Bytes} (plain : ∀ s ∈ path, chrSlash ∉ s) : (dirOf path).count chrSlash = path.length := by
  induction path with
  | nil => rfl
  | cons s path ih =>
    rw [dirOf, List.flatMap_cons, List.count_append, List.count_append, List.count_eq_zero.mpr (plain s List.mem_cons_self)]
    have rest : (path.flatMap (· ++ [chrSlash])).count chrSlash = path.length :=
      ih fun s member => plain s (List.mem_cons_of_mem _ member)
    rw [rest, List.length_cons, List.count_singleton_self]
    omega

/-- A directory within a path. -/
theorem dirOf_split (first : List Bytes) (s : Bytes) (second : List Bytes) :
    dirOf (first ++ s :: second) = (dirOf first ++ s) ++ chrSlash :: dirOf second := by
  rw [dirOf_append, dirOf, dirOf, List.flatMap_cons, List.append_assoc, List.append_assoc]
  rfl

theorem count_front {first : List Bytes} {s : Bytes} (plain : ∀ s' ∈ first ++ [s], chrSlash ∉ s') :
    (dirOf first ++ s).count chrSlash = first.length := by
  rw [List.count_append, List.count_eq_zero.mpr (plain s (List.mem_append_right _ (List.mem_singleton_self s))),
    count_dirOf fun s' member => plain s' (List.mem_append_left _ member), Nat.add_zero]

theorem dirOf_eq_nil {path : List Bytes} : dirOf path = [] ↔ path = [] := by
  cases path with
  | nil => exact ⟨fun _ => rfl, fun _ => rfl⟩
  | cons s path =>
    refine ⟨fun wrong => ?_, fun wrong => absurd wrong (List.cons_ne_nil _ _)⟩
    rw [dirOf, List.flatMap_cons, List.append_assoc] at wrong
    exact absurd (List.append_eq_nil_iff.mp wrong).2 (List.append_ne_nil_of_left_ne_nil (List.cons_ne_nil _ _) _)

theorem splitNameWithLevel_dirOf {first : List Bytes} {s : Bytes} (plain : ∀ s' ∈ first ++ [s], chrSlash ∉ s') (second : List Bytes) :
    splitNameWithLevel (dirOf (first ++ s :: second)) (first.length + 1) false =
      (dirOf (first ++ [s]), if second = [] then none else some (dirOf second)) := by
  rw [dirOf_split first s second, splitNameWithLevel_forward (by rw [count_front plain]), dirOf_split first s []]
  simp only [dirOf_eq_nil]
  rfl

variable {last : Bytes}

theorem last_cases (some_last : last ≠ []) (last_plain : chrSlash ∉ last.dropLast) :
    (chrSlash ∉ last ∧ last.getLast? ≠ some chrSlash) ∨ ∃ base, last = base ++ [chrSlash] ∧ chrSlash ∉ base := by
  have split := List.dropLast_append_getLast some_last
  by_cases slash : last.getLast some_last = chrSlash
  · rw [slash] at split
    exact Or.inr ⟨last.dropLast, split.symm, last_plain⟩
  · refine Or.inl ⟨fun member => ?_, fun wrong => ?_⟩
    · rw [← split, List.mem_append, List.mem_singleton] at member
      obtain before | here := member
      · exact last_plain before
      · exact slash here.symm
    · rw [List.getLast?_eq_some_getLast some_last] at wrong
      exact slash (Option.some.inj wrong)

/-- What `split_name` takes for the directory of a name: a name without one stands for itself. -/
theorem splitName_parts {name : Bytes} {above : List Bytes} (parts : Parts name above last) :
    (splitName name).1 = if above = [] then name else dirOf above := by
  obtain ⟨rfl, plain, some_last, last_plain⟩ := parts
  have ends : (dirOf above ++ last).getLast? = last.getLast? := List.getLast?_append_of_ne_nil _ some_last
  have count : last.count chrSlash + 1 = if last.getLast? = some chrSlash then 2 else 1 := by
    obtain ⟨absent, other⟩ | ⟨base, rfl, absent⟩ := last_cases some_last last_plain
    · rw [if_neg other, List.count_eq_zero.mpr absent]
    · rw [if_pos (List.getLast?_concat ..), List.count_append, List.count_eq_zero.mpr absent]
      rfl
  rw [splitName]
  obtain rfl | ⟨first, s, rfl⟩ := List.eq_nil_or_concat' above
  · rw [if_pos rfl]
    refine splitNameWithLevel_backward_none ?_
    rw [ends, ← count]
    exact Nat.lt_succ_self _
  · rw [if_neg (List.append_ne_nil_of_right_ne_nil first (List.cons_ne_nil s []))]
    have whole : dirOf (first ++ [s]) ++ last = (dirOf first ++ s) ++ chrSlash :: last := by
      rw [dirOf_split, List.append_assoc]
      rfl
    rw [whole] at ends ⊢
    rw [splitNameWithLevel_backward (by rw [ends, count]), dirOf_split]
    rfl

theorem exists_parts {name : Bytes} (some_name : name ≠ []) : ∃ above last, Parts name above last := by
  induction name with
  | nil => exact absurd rfl some_name
  | cons c rest ih =>
    by_cases end_here : rest = []
    · rw [end_here]
      exact ⟨[], [c], rfl, fun _ wrong => absurd wrong List.not_mem_nil, List.cons_ne_nil c [], List.not_mem_nil⟩
    obtain ⟨path, last, rfl, plain, some_last, last_plain⟩ := ih end_here
    by_cases slash : c = chrSlash
    · refine ⟨[] :: path, last, by rw [slash]; rfl, fun s member => ?_, some_last, last_plain⟩
      obtain rfl | later := List.mem_cons.mp member
      · exact List.not_mem_nil
      · exact plain s later
    cases path with
    | nil =>
      refine ⟨[], c :: last, rfl, plain, List.cons_ne_nil c last, ?_⟩
      rw [List.dropLast_cons_of_ne_nil some_last, List.mem_cons, not_or]
      exact ⟨Ne.symm slash, last_plain⟩
    | cons s path =>
      refine ⟨(c :: s) :: path, last, rfl, fun s' member => ?_, some_last, last_plain⟩
      obtain rfl | later := List.mem_cons.mp member
      · rw [List.mem_cons, not_or]
        exact ⟨Ne.symm slash, plain s List.mem_cons_self⟩
      · exact plain s' (List.mem_cons_of_mem s later)

variable {j : Nat}

section Placement

variable {blocks : List Block} {t : Tree} {node : Nat}

theorem realLookupEntry_name {name : Bytes} (fuel : Nat) {tree : Option Nat} {level : Nat}
    (found : realLookupEntry blocks t name fuel tree level = some node) : nodeName blocks t node = name := by
  induction fuel generalizing tree level with
  | zero => cases found
  | succ fuel ih =>
    rw [realLookupEntry] at found
    dsimp only at found
    split at found
    · cases found
    · rename_i sibling among
      split at found
      · exact ih found
      · rename_i stays
        cases found
        have holds := List.find?_some among
        obtain first | whole := of_decide_eq_true holds
        · have rest : (splitNameWithLevel name level false).2 = none := by
            rw [← Option.not_isSome_iff_eq_none]
            exact fun some_rest => stays ⟨first, some_rest⟩
          exact first.trans (splitNameWithLevel_rest rest)
        · exact whole

theorem lookupEither_name {stray : UInt8} {name : Bytes} (found : lookupEither blocks t stray name = some node) :
    nodeName blocks t node = lookupText name ∨
      lastOfText stray name ≠ chrSlash ∧ nodeName blocks t node = lookupText name ++ [chrSlash] := by
  rw [lookupEither] at found
  split at found
  · rename_i sibling first
    cases found
    exact Or.inl (realLookupEntry_name _ first)
  · split at found
    · rename_i open_end
      exact Or.inr ⟨open_end, realLookupEntry_name _ found⟩
    · cases found

theorem treeLookupEntry_none {stray : UInt8} {name : Bytes}
    (missing : ∀ u < t.length, nodeName blocks t u ≠ lookupText name ∧
    (lastOfText stray name ≠ chrSlash → nodeName blocks t u ≠ lookupText name ++ [chrSlash])):
    treeLookupEntry blocks t stray name = none := by
  rw [treeLookupEntry]
  cases found : lookupEither blocks t stray name with
  | none => rfl
  | some node =>
    have absent := missing node (lookupEither_lt found)
    obtain same | ⟨open_end, same⟩ := lookupEither_name found
    · exact absurd same absent.1
    · exact absurd same (absent.2 open_end)

/-- Each node has been put where the name of its directory led to in the tree before it. -/
def Tree.Built (blocks : List Block) (t : Tree) : Prop :=
  ∀ v n, t[v]? = some n → n.parent = treeLookupEntry blocks (t.take v) 0 (splitName (nameAt blocks n.data)).1

theorem scanStep_built (built : t.Built blocks) (i : Nat) : (scanStep blocks i t).2.Built blocks := by
  rw [scanStep]
  split
  · intro v n there
    dsimp only at there
    rw [List.getElem?_append] at there
    split at there
    · rename_i inside
      rw [List.take_append_of_le_length (Nat.le_of_lt inside)]
      exact built v n there
    · rename_i outside
      rw [List.getElem?_singleton] at there
      split at there
      · rename_i here
        cases there
        have same : v = t.length := by omega
        rw [same, List.take_left]
      · cases there
  · exact built

theorem scanFrom_built (fuel : Nat) : ∀ {i : Nat} {t : Tree}, t.Built blocks → (scanFrom blocks fuel i t).Built blocks := by
  induction fuel with
  | zero => exact fun built => built
  | succ fuel ih =>
    intro i t built
    rw [scanFrom]
    split
    · exact ih (scanStep_built built i)
    · exact built

theorem readTarFile_built (filename : Bytes) (blocks : List Block) : (readTarFile filename blocks).infoTree.Built blocks :=
  scanFrom_built _ fun _ _ wrong => by cases wrong

theorem nodeName_take {v : Nat} (inside : node < v) : nodeName blocks (t.take v) node = nodeName blocks t node := by
  rw [nodeName, nodeName, dataOf, dataOf, List.getElem?_take_of_lt inside]

theorem find_least {p : Nat → Bool} {l : List Nat} {x : Nat} (order : l.Pairwise (· < ·)) (member : x ∈ l)
    (holds : p x = true) (least : ∀ y ∈ l, p y = true → x ≤ y) : l.find? p = some x := by
  cases found : l.find? p with
  | none => exact absurd holds (List.find?_eq_none.mp found x member)
  | some y =>
    have y_least := least y (List.mem_of_find?_eq_some found) (List.find?_some found)
    obtain ⟨-, before, after, rfl, none_before⟩ := List.find?_eq_some_iff_append.mp found
    obtain among | later := List.mem_append.mp member
    · have none_here := none_before x among
      rw [holds] at none_here
      cases none_here
    · obtain rfl | later := List.mem_cons.mp later
      · rfl
      · rw [List.pairwise_append, List.pairwise_cons] at order
        have := order.2.1.1 x later
        omega

/-- The nodes of a directory and of those above it, each the first of its name, from the top down; and none of their blocks
is behind one that passes for the header of a long name. -/
structure Chain (blocks : List Block) (t : Tree) (path : List Bytes) (d : Nat → Nat) : Prop where
  inside : ∀ j < path.length, d j < t.length
  named : ∀ j < path.length, nodeName blocks t (d j) = dirOf (path.take (j + 1))
  first : ∀ j < path.length, ∀ u < t.length, nodeName blocks t u = dirOf (path.take (j + 1)) → d j ≤ u
  rising : ∀ i j, i < j → j < path.length → d i < d j
  clear : ∀ j < path.length, (blockAt blocks (dataOf blocks t (d j) - 1)).typeflag ≠ typeLongFilen

/-- The node above one of the chain. -/
def above (d : Nat → Nat) : Nat → Option Nat
  | 0 => none
  | j + 1 => some (d j)

variable {path : List Bytes} {d : Nat → Nat}

theorem splitNameWithLevel_path (inside : j < path.length) (plain : ∀ s ∈ path, chrSlash ∉ s) :
    splitNameWithLevel (dirOf path) (j + 1) false =
      (dirOf (path.take (j + 1)), if path.drop (j + 1) = [] then none else some (dirOf (path.drop (j + 1)))) := by
  have front : ∀ s ∈ path.take j ++ [path[j]], chrSlash ∉ s := fun s member => by
    rw [← List.take_succ_eq_append_getElem inside] at member
    exact plain s (List.mem_of_mem_take member)
  have key := splitNameWithLevel_dirOf front (path.drop (j + 1))
  rw [List.length_take, Nat.min_eq_left (Nat.le_of_lt inside), ← List.drop_eq_getElem_cons inside, List.take_append_drop,
    ← List.take_succ_eq_append_getElem inside] at key
  exact key

theorem Chain.le (chain : Chain blocks t path d) (inside : j < path.length) : d j ≤ d (path.length - 1) := by
  by_cases last : j = path.length - 1
  · rw [last]
  · exact Nat.le_of_lt (chain.rising j (path.length - 1) (by omega) (by omega))

theorem Chain.found (chain : Chain blocks t path d) (inside : j < path.length) (linked : d j ∈ children t (above d j)) :
    (children t (above d j)).find? (fun node => nodeName blocks t node = dirOf (path.take (j + 1)) ∨
      nodeName blocks t node = dirOf path) = some (d j) := by
  refine find_least (children_pairwise t _) linked (decide_eq_true (Or.inl (chain.named j inside))) fun u member holds => ?_
  obtain here | whole := of_decide_eq_true holds
  · exact chain.first j inside u (lt_of_mem_children member) here
  · have last := chain.first (path.length - 1) (by omega) u (lt_of_mem_children member)
    rw [Nat.sub_add_cancel (by omega), List.take_length] at last
    exact Nat.le_trans (chain.le inside) (last whole)

theorem lookup_chain (plain : ∀ s ∈ path, chrSlash ∉ s) (chain : Chain blocks t path d)
    (links : ∀ j < path.length, d j ∈ children t (above d j)) (n : Nat) : ∀ {j fuel : Nat}, j + n + 1 = path.length →
      n < fuel → realLookupEntry blocks t (dirOf path) fuel (above d j) (j + 1) = some (d (path.length - 1)) := by
  induction n with
  | zero =>
    intro j fuel last some_fuel
    have inside : j < path.length := by omega
    cases fuel with
    | zero => cases some_fuel
    | succ fuel =>
      rw [realLookupEntry, splitNameWithLevel_path inside plain]
      dsimp only
      rw [chain.found inside (links j inside)]
      dsimp only
      rw [if_pos (List.drop_eq_nil_of_le (by omega)), if_neg fun wrong => Bool.false_ne_true wrong.2]
      congr 2
      omega
  | succ n ih =>
    intro j fuel length some_fuel
    have inside : j < path.length := by omega
    cases fuel with
    | zero => cases some_fuel
    | succ fuel =>
      have more : path.drop (j + 1) ≠ [] := by
        rw [Ne, List.drop_eq_nil_iff]
        omega
      rw [realLookupEntry, splitNameWithLevel_path inside plain]
      dsimp only
      rw [chain.found inside (links j inside)]
      dsimp only
      rw [if_neg more, if_pos ⟨chain.named j inside, rfl⟩]
      exact @ih (j + 1) fuel (by omega) (by omega)

theorem lastOfText_slash (stray : UInt8) (front : Bytes) : lastOfText stray (front ++ [chrSlash]) = chrSlash := by
  rw [lastOfText, lookupText]
  cases front with
  | nil => rfl
  | cons c front =>
    by_cases slash : byteAt (c :: front ++ [chrSlash]) 0 = chrSlash
    · rw [if_pos slash, if_pos slash, List.cons_append, List.tail_cons, List.getLast?_concat, Option.getD_some]
    · rw [if_neg slash, List.getLast?_concat, Option.getD_some]

theorem dirOf_concat (first : List Bytes) (s : Bytes) : dirOf (first ++ [s]) = (dirOf first ++ s) ++ [chrSlash] :=
  dirOf_split first s []

theorem lastOfText_dirOf (stray : UInt8) (some_path : path ≠ []) : lastOfText stray (dirOf path) = chrSlash := by
  obtain rfl | ⟨first, s, rfl⟩ := List.eq_nil_or_concat' path
  · exact absurd rfl some_path
  · rw [dirOf_concat]
    exact lastOfText_slash stray _

theorem lookupText_dirOf (plain : ∀ s ∈ path, chrSlash ∉ s) (relative : path.head? ≠ some []) :
    lookupText (dirOf path) = dirOf path := by
  cases path with
  | nil => rfl
  | cons s rest =>
    cases s with
    | nil => exact absurd rfl relative
    | cons c s =>
      refine if_neg fun slash => ?_
      have here : c = chrSlash := slash
      exact plain _ List.mem_cons_self (by rw [here]; exact List.mem_cons_self)

theorem treeLookupEntry_chain (plain : ∀ s ∈ path, chrSlash ∉ s) (relative : path.head? ≠ some [])
    (some_path : path ≠ []) (chain : Chain blocks t path d)
    (links : ∀ j < path.length, d j ∈ children t (above d j)) (stray : UInt8) :
    treeLookupEntry blocks t stray (dirOf path) = some (d (path.length - 1)) := by
  have long : 0 < path.length := List.length_pos_of_ne_nil some_path
  have found : lookupEither blocks t stray (dirOf path) = some (d (path.length - 1)) := by
    have down := @lookup_chain _ _ path d plain chain links (path.length - 1) 0 (path.length + 1) (by omega) (by omega)
    rw [lookupEither, lookupText_dirOf plain relative, lookupFromRoot, count_dirOf plain]
    rw [above] at down
    rw [down]
  rw [treeLookupEntry, found]
  dsimp only
  rw [if_neg fun wrong => chain.clear (path.length - 1) (by omega) wrong.2]

theorem Chain.take (chain : Chain blocks t path d) {j m : Nat} (within : j ≤ path.length) (below : ∀ i < j, d i < m) :
    Chain blocks (t.take m) (path.take j) d := by
  have length : (path.take j).length = j := by rw [List.length_take, Nat.min_eq_left within]
  have prefix_eq : ∀ i < j, (path.take j).take (i + 1) = path.take (i + 1) := fun i small => by
    rw [List.take_take, Nat.min_eq_left small]
  refine ⟨fun i small => ?_, fun i small => ?_, fun i small u inside named => ?_, fun i i' less small => ?_, fun i small => ?_⟩ <;>
    rw [length] at small
  · rw [List.length_take]
    exact Nat.lt_min.mpr ⟨below i small, chain.inside i (by omega)⟩
  · rw [prefix_eq i small, nodeName_take (below i small)]
    exact chain.named i (by omega)
  · rw [List.length_take, Nat.lt_min] at inside
    rw [prefix_eq i small, nodeName_take inside.1] at named
    exact chain.first i (by omega) u inside.2 named
  · exact chain.rising i i' less (by omega)
  · have same : dataOf blocks (t.take m) (d i) = dataOf blocks t (d i) := by
      rw [dataOf, dataOf, List.getElem?_take_of_lt (below i small)]
    rw [same]
    exact chain.clear i (by omega)

theorem children_take {m u : Nat} {parent : Option Nat} (inside : u < m) (member : u ∈ children t parent) :
    u ∈ children (t.take m) parent := by
  obtain ⟨n, there, same⟩ := mem_children.mp member
  exact mem_children.mpr ⟨n, by rw [List.getElem?_take_of_lt inside, there], same⟩

theorem relative_take (relative : path.head? ≠ some []) (j : Nat) : (path.take j).head? ≠ some [] := by
  rw [List.head?_take]
  split
  · exact (Option.some_ne_none _).symm
  · exact relative

/-- Each node of the chain is below the one before it. -/
theorem Chain.links (plain : ∀ s ∈ path, chrSlash ∉ s) (relative : path.head? ≠ some []) (built : t.Built blocks)
    (chain : Chain blocks t path d) (j : Nat) (inside : j < path.length) : d j ∈ children t (above d j) := by
  induction j using Nat.strongRecOn with
  | ind j ih =>
    have within := chain.inside j inside
    have there := List.getElem?_eq_getElem within
    refine mem_children.mpr ⟨_, there, (built _ _ there).trans ?_⟩
    have whole : nameAt blocks t[d j].data = dirOf (path.take (j + 1)) := by
      have named := chain.named j inside
      rw [nodeName, dataOf_eq there] at named
      exact named
    have name : nameAt blocks t[d j].data = dirOf (path.take j) ++ (path[j] ++ [chrSlash]) := by
      rw [whole, List.take_succ_eq_append_getElem inside, dirOf_concat, List.append_assoc]
    have plain_take (j : Nat) : ∀ s ∈ path.take j, chrSlash ∉ s := fun s member => plain s (List.mem_of_mem_take member)
    have parts : Parts (nameAt blocks t[d j].data) (path.take j) (path[j] ++ [chrSlash]) :=
      ⟨name, plain_take j, List.append_ne_nil_of_right_ne_nil _ (List.cons_ne_nil _ _),
        by rw [List.dropLast_concat]; exact plain _ (List.getElem_mem inside)⟩
    have before : ∀ i < j, d i < d j := fun i less => chain.rising i j less inside
    rw [splitName_parts parts]
    cases j with
    | zero =>
      rw [List.take_zero, if_pos rfl]
      refine treeLookupEntry_none fun u small => ⟨fun same => ?_, fun open_end => ?_⟩
      · rw [List.length_take, Nat.lt_min] at small
        rw [nodeName_take small.1, whole, lookupText_dirOf (plain_take 1) (relative_take relative 1)] at same
        exact absurd (chain.first 0 inside u small.2 same) (Nat.not_le_of_lt small.1)
      · rw [name, ← List.append_assoc] at open_end
        exact absurd (lastOfText_slash 0 _) open_end
    | succ i =>
      have length : (path.take (i + 1)).length = i + 1 := by rw [List.length_take, Nat.min_eq_left (Nat.le_of_lt inside)]
      have some_take : path.take (i + 1) ≠ [] := fun wrong => by
        rw [wrong] at length
        cases length
      rw [if_neg some_take]
      have found := treeLookupEntry_chain (plain_take (i + 1)) (relative_take relative (i + 1)) some_take
        (chain.take (Nat.le_of_lt inside) before)
        (fun i' small => by
          rw [length] at small
          have linked := ih i' small (by omega)
          cases i' with
          | zero => exact children_take (before 0 small) linked
          | succ i' => exact children_take (before (i' + 1) small) linked) 0
      rw [length] at found
      exact found

/-- Where a node is, by the parts of its name: below the root where no node before it has the name of its directory, and
below the node of the directory where that and all directories above it came before, each behind the one above it. -/
def Placed (blocks : List Block) (t : Tree) (v : Nat) (above : List Bytes) (parent : Option Nat) : Prop :=
  (above = [] → (∀ u < v, nodeName blocks t u ≠ lookupText (nodeName blocks t v) ∧
      nodeName blocks t u ≠ lookupText (nodeName blocks t v) ++ [chrSlash]) → parent = none) ∧
    (above ≠ [] → (∀ u < v, nodeName blocks t u ≠ lookupText (dirOf above)) → parent = none) ∧
    ∀ d, above ≠ [] → above.head? ≠ some [] → Chain blocks (t.take v) above d → parent = some (d (above.length - 1))

theorem Tree.Built.take (built : t.Built blocks) (v : Nat) : Tree.Built blocks (t.take v) := by
  intro u n there
  have small : u < v := by
    have inside := (List.getElem?_eq_some_iff.mp there).1
    rw [List.length_take] at inside
    omega
  rw [List.getElem?_take_of_lt small] at there
  rw [List.take_take, Nat.min_eq_left (Nat.le_of_lt small)]
  exact built u n there

theorem Tree.Built.placed (built : t.Built blocks) {v : Nat} {n : Node} (there : t[v]? = some n)
    {path : List Bytes} (parts : Parts (nodeName blocks t v) path last) : Placed blocks t v path n.parent := by
  have name : nodeName blocks t v = nameAt blocks n.data := by rw [nodeName, dataOf_eq there]
  have parent := built v n there
  rw [← name, splitName_parts parts] at parent
  have missing : ∀ text : Bytes, (∀ u < v, nodeName blocks t u ≠ lookupText text ∧
      (lastOfText 0 text ≠ chrSlash → nodeName blocks t u ≠ lookupText text ++ [chrSlash])) →
        treeLookupEntry blocks (t.take v) 0 text = none := fun text absent => by
    refine treeLookupEntry_none fun u small => ?_
    rw [List.length_take, Nat.lt_min] at small
    rw [nodeName_take small.1]
    exact absent u small.1
  refine ⟨fun top absent => ?_, fun below absent => ?_, fun d below relative chain => ?_⟩
  · rw [if_pos top] at parent
    rw [parent]
    exact missing _ fun u small => ⟨(absent u small).1, fun _ => (absent u small).2⟩
  · rw [if_neg below] at parent
    rw [parent]
    exact missing _ fun u small => ⟨absent u small, fun open_end => absurd (lastOfText_dirOf 0 below) open_end⟩
  · rw [if_neg below] at parent
    rw [parent]
    exact treeLookupEntry_chain parts.plain relative below chain (chain.links parts.plain relative (built.take v)) 0

end Placement

section Archive

/-- The value of octal digits behind others. -/
def octalFrom (value : Nat) (digits : Bytes) : Nat := digits.foldl (fun value c => value * 8 + (c.toNat - 48)) value

/-- A size in octal digits, and what ends them. -/
def SizeField (field : Bytes) (size : Nat) (stop : UInt8) : Prop :=
  ∃ digits rest, field = digits ++ stop :: rest ∧ (∀ c ∈ digits, 48 ≤ c ∧ c ≤ 55) ∧ octalFrom 0 digits = size

/-- The block that announces a long name, and the blocks that hold it. -/
structure LongName where
  header : Block
  name : Bytes
  data : List Block

structure Member where
  longName : Option LongName
  header : Block
  content : List Block

structure LongName.WellFormed (l : LongName) : Prop where
  begins : byteAt l.header.data 0 ≠ 0
  flag : l.header.typeflag = typeLongFilen
  long : 100 ≤ l.name.length
  text : (0 : UInt8) ∉ l.name
  ended : l.name.length < blockSize * l.data.length
  data_eq : raw l.data = fill (blockSize * l.data.length) l.name

/-- The size is below 2^31, and ended by NUL or a space; a name in the header is of 99 bytes at most. -/
structure Member.WellFormed (m : Member) : Prop where
  long : ∀ l, m.longName = some l → l.WellFormed
  short : m.longName = none → (0 : UInt8) ∈ m.header.data.take 100
  named : byteAt m.header.data 0 ≠ 0
  flag : m.header.typeflag ≠ typeLongFilen
  size : ∃ size stop, SizeField m.header.size size stop ∧ (stop = 0 ∨ stop = 32) ∧ size < 2 ^ 31 ∧
    m.content.length = (size + 511) / 512

/-- No size but 0 is ended by a space, and no block of a long name is like a header that changes what comes behind it. -/
structure Member.Aligned (m : Member) : Prop where
  ended : ∀ size, SizeField m.header.size size 32 → size = 0
  quiet : ∀ l, m.longName = some l → ∀ b ∈ l.data, b.typeflag ≠ typeLongFilen ∧ parseOctal b.size = 0

def Member.front (m : Member) : List Block :=
  match m.longName with
  | none => []
  | some l => l.header :: l.data

def Member.blocks (m : Member) : List Block := m.front ++ m.header :: m.content

def archiveBlocks (members : List Member) (trailer : List Block) : List Block := members.flatMap Member.blocks ++ trailer

/-- The blocks of a long name that are not empty. -/
def nameBlocks (start : Nat) : List Block → List Nat
  | [] => []
  | b :: rest => if byteAt b.data 0 = 0 then nameBlocks (start + 1) rest else start :: nameBlocks (start + 1) rest

/-- The header of each member, and in front of it the blocks of its long name. -/
def takenFrom (start : Nat) : List Member → List Nat
  | [] => []
  | m :: rest => nameBlocks (start + 1) m.front.tail ++ (start + m.front.length) :: takenFrom (start + m.blocks.length) rest

theorem octalFrom_le (digits : Bytes) (value : Nat) : value ≤ octalFrom value digits := by
  induction digits generalizing value with
  | nil => exact Nat.le_refl _
  | cons c digits ih =>
    have step : value * 8 + (c.toNat - 48) ≤ octalFrom value (c :: digits) := ih _
    omega

theorem parseOctalFrom_digits {digits : Bytes} (octal : ∀ c ∈ digits, 48 ≤ c ∧ c ≤ 55) (rest : Bytes) (value : Nat)
    (small : octalFrom value digits < 2 ^ 31) :
    parseOctalFrom value (digits ++ rest) = parseOctalFrom (octalFrom value digits : Nat) rest := by
  induction digits generalizing value with
  | nil => rfl
  | cons c digits ih =>
    have least : value * 8 + (c.toNat - 48) ≤ octalFrom (value * 8 + (c.toNat - 48)) digits := octalFrom_le digits _
    have below : octalFrom (value * 8 + (c.toNat - 48)) digits < 2 ^ 31 := small
    obtain ⟨lower, upper⟩ := octal c List.mem_cons_self
    have lower' : 48 ≤ c.toNat := lower
    have upper' : c.toNat ≤ 55 := upper
    have not_nul : c ≠ 0 := fun wrong => by
      rw [wrong] at lower
      exact absurd lower (by decide)
    have cast : ((value : Int) * 8 + ((c.toNat : Int) - 48)) = ((value * 8 + (c.toNat - 48) : Nat) : Int) := by omega
    have fits := @toCInt_of_lt (value * 8 + (c.toNat - 48) : Nat) (by omega) (by omega)
    rw [toCInt] at fits
    dsimp only at fits
    rw [List.cons_append, parseOctalFrom, if_neg not_nul, if_neg (not_not_intro ⟨lower, Nat.le_succ_of_le upper'⟩), cast, fits]
    exact ih (fun c' member => octal c' (List.mem_cons_of_mem c member)) _ below

theorem SizeField.parseOctal {field : Bytes} {size : Nat} {stop : UInt8} (here : SizeField field size stop)
    (small : size < 2 ^ 31) (ended : stop = 0 ∨ stop = 32 ∧ size = 0) : parseOctal field = size := by
  obtain ⟨digits, rest, rfl, octal, value⟩ := here
  have read := parseOctalFrom_digits octal (stop :: rest) 0 (by rw [value]; exact small)
  rw [value] at read
  rw [Tar.parseOctal]
  refine read.trans ?_
  obtain rfl | ⟨rfl, rfl⟩ := ended
  · rw [parseOctalFrom, if_pos rfl]
  · rw [parseOctalFrom, if_neg (by decide), if_pos (by decide)]
    rfl

theorem skipBlocks_eq (size left : Nat) : ∀ {read : Nat}, read ≤ size →
    skipBlocks size left read = min left ((size - read + 511) / 512) := by
  induction left with
  | zero =>
    intro read _
    rw [skipBlocks, Nat.zero_min]
  | succ left ih =>
    intro read inside
    rw [skipBlocks]
    by_cases more : read < size
    · rw [if_pos (by omega)]
      by_cases last : size - read < 512
      · have whole : (read : Int) + (if (size - read : Int) < blockSize then (size - read : Int) else blockSize) = (size : Nat) := by
          rw [if_pos (by rw [blockSize]; omega)]
          omega
        rw [whole, ih (Nat.le_refl _)]
        omega
      · have next : (read : Int) + (if (size - read : Int) < blockSize then (size - read : Int) else blockSize) =
            (read + 512 : Nat) := by
          rw [if_neg (by rw [blockSize]; omega), blockSize]
          omega
        rw [next, ih (by omega)]
        omega
    · rw [if_neg (by omega)]
      omega

variable {blocks : List Block} {i i' : Nat}

theorem lt_scanStep (i : Nat) (t : Tree) : i < (scanStep blocks i t).1 := by
  rw [scanStep]
  split
  · show i < i + skipBlocks (parseOctal (blockAt blocks i).size) (blocks.length - i) 0 + 1
    omega
  · exact Nat.lt_succ_self i

theorem scanFrom_enough (fuel : Nat) : ∀ {fuel' i : Nat} (t : Tree), blocks.length ≤ i + fuel → blocks.length ≤ i + fuel' →
    scanFrom blocks fuel i t = scanFrom blocks fuel' i t := by
  induction fuel with
  | zero =>
    intro fuel' i t enough _
    cases fuel' with
    | zero => rfl
    | succ fuel' => rw [scanFrom, scanFrom, if_neg (by omega)]
  | succ fuel ih =>
    intro fuel' i t enough enough'
    have further := @lt_scanStep blocks i t
    cases fuel' with
    | zero => rw [scanFrom, scanFrom, if_neg (by omega)]
    | succ fuel' =>
      rw [scanFrom, scanFrom]
      split
      · exact ih _ (by omega) (by omega)
      · rfl

/-- From one block to another the scan takes these blocks. -/
def Advances (blocks : List Block) (i i' : Nat) (taken : List Nat) : Prop :=
  ∀ t, ∃ t', scanFrom blocks blocks.length i t = scanFrom blocks blocks.length i' t' ∧ t'.map Node.data = t.map Node.data ++ taken

theorem Advances.refl (blocks : List Block) (i : Nat) : Advances blocks i i [] := fun t => ⟨t, rfl, (List.append_nil _).symm⟩

theorem Advances.trans {i'' : Nat} {first second : List Nat} (one : Advances blocks i i' first) (two : Advances blocks i' i'' second) :
    Advances blocks i i'' (first ++ second) := by
  intro t
  obtain ⟨t', same, taken⟩ := one t
  obtain ⟨t'', same', taken'⟩ := two t'
  exact ⟨t'', same.trans same', by rw [taken', taken, List.append_assoc]⟩

theorem scanFrom_step (inside : i < blocks.length) (t : Tree) :
    scanFrom blocks blocks.length i t = scanFrom blocks blocks.length (scanStep blocks i t).1 (scanStep blocks i t).2 := by
  have further := @lt_scanStep blocks i t
  have first : scanFrom blocks blocks.length i t = scanFrom blocks (blocks.length + 1) i t := scanFrom_enough _ t (by omega) (by omega)
  rw [first, scanFrom, if_pos inside]

variable {front rest : List Block} {b : Block}

theorem blockAt_front (front : List Block) (b : Block) (rest : List Block) : blockAt (front ++ b :: rest) front.length = b := by
  rw [blockAt, List.getD_eq_getElem?_getD, List.getElem?_append_right (Nat.le_refl _), Nat.sub_self]
  rfl

theorem inside_front (front : List Block) (b : Block) (rest : List Block) : front.length < (front ++ b :: rest).length := by
  rw [List.length_append, List.length_cons]
  omega

theorem advances_skip (skipped : isTaken b = false) :
    Advances (front ++ b :: rest) front.length (front.length + 1) [] := by
  intro t
  refine ⟨t, ?_, (List.append_nil _).symm⟩
  rw [scanFrom_step (inside_front front b rest), scanStep]
  dsimp only
  rw [blockAt_front, skipped, if_neg Bool.false_ne_true]

theorem advances_take {size : Nat} (taken : isTaken b = true) (parsed : parseOctal b.size = size)
    (present : (size + 511) / 512 ≤ rest.length) :
    Advances (front ++ b :: rest) front.length (front.length + 1 + (size + 511) / 512) [front.length] := by
  intro t
  have behind : min ((front ++ b :: rest).length - front.length) ((size - 0 + 511) / 512) = (size + 511) / 512 := by
    rw [List.length_append, List.length_cons]
    omega
  have skips := skipBlocks_eq size ((front ++ b :: rest).length - front.length) (Nat.zero_le size)
  rw [behind] at skips
  have step : scanStep (front ++ b :: rest) front.length t = (front.length + 1 + (size + 511) / 512,
      t ++ [⟨front.length, treeLookupEntry (front ++ b :: rest) t 0 (splitName (nameAt (front ++ b :: rest) front.length)).1⟩]) := by
    rw [scanStep]
    dsimp only
    rw [blockAt_front, taken, if_pos rfl, parsed]
    rw [show skipBlocks (size : Int) ((front ++ b :: rest).length - front.length) 0 = (size + 511) / 512 from skips,
      Nat.add_right_comm]
  refine ⟨_, (scanFrom_step (inside_front front b rest) t).trans (by rw [step]), ?_⟩
  rw [List.map_append, List.map_singleton]

theorem isTaken_of_empty (empty : byteAt b.data 0 = 0) : isTaken b = false := decide_eq_false fun wrong => wrong.1 empty

theorem isTaken_of_long (long : b.typeflag = typeLongFilen) : isTaken b = false := decide_eq_false fun wrong => wrong.2 long

theorem length_concat (front : List Block) (b : Block) : (front ++ [b]).length = front.length + 1 := by
  rw [List.length_append, List.length_singleton]

theorem advances_names (names : List Block) (quiet : ∀ b ∈ names, b.typeflag ≠ typeLongFilen ∧ parseOctal b.size = 0) :
    ∀ front, Advances (front ++ (names ++ rest)) front.length (front.length + names.length) (nameBlocks front.length names) := by
  induction names with
  | nil => exact fun front => Advances.refl _ _
  | cons b names ih =>
    intro front
    have later := ih (fun b' member => quiet b' (List.mem_cons_of_mem b member)) (front ++ [b])
    rw [length_concat, List.append_assoc, List.singleton_append] at later
    rw [List.cons_append, List.length_cons, Nat.add_comm names.length, ← Nat.add_assoc, nameBlocks]
    obtain ⟨flag, parsed⟩ := quiet b List.mem_cons_self
    by_cases empty : byteAt b.data 0 = 0
    · rw [if_pos empty]
      exact (advances_skip (isTaken_of_empty empty)).trans later
    · rw [if_neg empty]
      exact (@advances_take front (names ++ rest) b 0 (decide_eq_true ⟨empty, flag⟩) parsed (Nat.zero_le _)).trans later

variable {m : Member}

theorem advances_content (wellFormed : m.WellFormed) (aligned : m.Aligned) (front : List Block) :
    Advances (front ++ (m.header :: m.content ++ rest)) front.length (front.length + (m.header :: m.content).length)
      [front.length] := by
  obtain ⟨size, stop, field, stops, small, length⟩ := wellFormed.size
  have ended : stop = 0 ∨ stop = 32 ∧ size = 0 := stops.imp_right fun space => ⟨space, aligned.ended size (space ▸ field)⟩
  have taken : isTaken m.header = true := decide_eq_true ⟨wellFormed.named, wellFormed.flag⟩
  have advances := @advances_take front (m.content ++ rest) m.header size taken (field.parseOctal small ended)
    (by rw [List.length_append, length]; exact Nat.le_add_right _ _)
  rw [List.cons_append, List.length_cons, length, Nat.add_comm _ 1, ← Nat.add_assoc]
  exact advances

theorem advances_member (wellFormed : m.WellFormed) (aligned : m.Aligned) (front : List Block) :
    Advances (front ++ (m.blocks ++ rest)) front.length (front.length + m.blocks.length)
      (nameBlocks (front.length + 1) m.front.tail ++ [front.length + m.front.length]) := by
  rw [Member.blocks, Member.front]
  cases long : m.longName with
  | none => exact advances_content wellFormed aligned front
  | some l =>
    have announced := @advances_skip front (l.data ++ (m.header :: m.content ++ rest)) l.header
      (isTaken_of_long (wellFormed.long l long).flag)
    have names := @advances_names (m.header :: m.content ++ rest) l.data (aligned.quiet l long) (front ++ [l.header])
    have content := @advances_content rest m wellFormed aligned (front ++ l.header :: l.data)
    have blocks_eq : front ++ (l.header :: l.data ++ m.header :: m.content ++ rest) =
        front ++ l.header :: (l.data ++ (m.header :: m.content ++ rest)) := by
      rw [List.append_assoc, List.cons_append]
    rw [length_concat, List.append_assoc, List.singleton_append] at names
    rw [List.append_assoc, List.cons_append, List.length_append, List.length_cons, Nat.add_comm l.data.length,
      ← Nat.add_assoc front.length] at content
    dsimp only
    rw [blocks_eq, List.tail_cons, List.length_append, @List.length_cons Block l.header, Nat.add_comm l.data.length 1, ← Nat.add_assoc,
      ← Nat.add_assoc]
    exact (announced.trans names).trans content

theorem advances_members (members : List Member) (wellFormed : ∀ m ∈ members, m.WellFormed)
    (aligned : ∀ m ∈ members, m.Aligned) :
    ∀ front, Advances (front ++ (members.flatMap Member.blocks ++ rest)) front.length
      (front.length + (members.flatMap Member.blocks).length) (takenFrom front.length members) := by
  induction members with
  | nil => exact fun front => Advances.refl _ _
  | cons m members ih =>
    intro front
    have one := @advances_member (members.flatMap Member.blocks ++ rest) m (wellFormed m List.mem_cons_self)
      (aligned m List.mem_cons_self) front
    have others := ih (fun m' member => wellFormed m' (List.mem_cons_of_mem m member))
      (fun m' member => aligned m' (List.mem_cons_of_mem m member)) (front ++ m.blocks)
    rw [List.append_assoc, List.length_append] at others
    rw [List.flatMap_cons, List.append_assoc, List.length_append, ← Nat.add_assoc, takenFrom]
    have both := one.trans others
    rw [List.append_assoc, List.singleton_append] at both
    exact both

theorem advances_trailer (trailer : List Block) (zeros : ∀ b ∈ trailer, byteAt b.data 0 = 0) :
    ∀ front, Advances (front ++ trailer) front.length (front.length + trailer.length) [] := by
  induction trailer with
  | nil => exact fun front => Advances.refl _ _
  | cons b trailer ih =>
    intro front
    have later := ih (fun b' member => zeros b' (List.mem_cons_of_mem b member)) (front ++ [b])
    rw [length_concat, List.append_assoc, List.singleton_append] at later
    rw [List.length_cons, Nat.add_comm trailer.length, ← Nat.add_assoc]
    exact (advances_skip (isTaken_of_empty (zeros b List.mem_cons_self))).trans later

theorem scanFrom_end (fuel : Nat) (atEnd : blocks.length ≤ i) (t : Tree) : scanFrom blocks fuel i t = t := by
  cases fuel with
  | zero => rfl
  | succ fuel => rw [scanFrom, if_neg (by omega)]

theorem scanned {members : List Member} {trailer : List Block} (wellFormed : ∀ m ∈ members, m.WellFormed)
    (aligned : ∀ m ∈ members, m.Aligned) (zeros : ∀ b ∈ trailer, byteAt b.data 0 = 0) (filename : Bytes) :
    (readTarFile filename (archiveBlocks members trailer)).infoTree.map Node.data = takenFrom 0 members := by
  have first := @advances_members trailer members wellFormed aligned []
  have last := advances_trailer trailer zeros (members.flatMap Member.blocks)
  rw [List.nil_append, List.length_nil, Nat.zero_add] at first
  obtain ⟨t, same, taken⟩ := (first.trans last) []
  rw [readTarFile, archiveBlocks]
  dsimp only
  rw [same, scanFrom_end _ (by rw [List.length_append]), taken, List.map_nil, List.nil_append, List.append_nil]

theorem drop_raw (front : List Block) (rest : List Block) : (raw (front ++ rest)).drop (blockSize * front.length) = raw rest := by
  induction front with
  | nil => rfl
  | cons b front ih =>
    have length : (blockSize * (b :: front).length) = b.data.length + blockSize * front.length := by
      rw [b.length_data, List.length_cons, Nat.mul_succ, Nat.add_comm]
    rw [length, List.cons_append, raw, List.flatMap_cons, List.drop_length_add_append]
    exact ih

theorem nameAt_ne_nil (inside : i < blocks.length) (named : byteAt (blockAt blocks i).data 0 ≠ 0) : nameAt blocks i ≠ [] := by
  have split : blocks = blocks.take i ++ blocks[i] :: blocks.drop (i + 1) := by
    rw [← List.drop_eq_getElem_cons inside, List.take_append_drop]
  have length : (blocks.take i).length = i := by rw [List.length_take, Nat.min_eq_left (Nat.le_of_lt inside)]
  have here : blockAt blocks i = blocks[i] := by rw [blockAt, List.getD_eq_getElem?_getD, List.getElem?_eq_getElem inside]; rfl
  have bytes := drop_raw (blocks.take i) (blocks[i] :: blocks.drop (i + 1))
  rw [← split, length] at bytes
  rw [here] at named
  rw [nameAt, stringAt, bytes, raw, List.flatMap_cons]
  have long := blocks[i].length_data
  cases data : blocks[i].data with
  | nil =>
    rw [data] at long
    cases long
  | cons c rest =>
    rw [data] at named
    have some_byte : decide (c ≠ 0) = true := decide_eq_true named
    rw [List.cons_append, List.takeWhile_cons, if_pos some_byte]
    exact List.cons_ne_nil _ _

theorem takeWhile_ended {l : Bytes} (ended : (0 : UInt8) ∈ l) (more : Bytes) :
    (l ++ more).takeWhile (· ≠ 0) = l.takeWhile (· ≠ 0) := by
  induction l with
  | nil => cases ended
  | cons c l ih =>
    by_cases here : c = 0
    · rw [here]
      rfl
    · have keep : decide (c ≠ 0) = true := decide_eq_true here
      rw [List.cons_append, List.takeWhile_cons, List.takeWhile_cons, if_pos keep, if_pos keep,
        ih ((List.mem_cons.mp ended).resolve_left fun same => here same.symm)]

/-- A short name is the one that stands in the header. -/
def Member.name (m : Member) : Bytes := (m.header.data.take 100).takeWhile (· ≠ 0)

theorem nameAt_short (wellFormed : m.WellFormed) (short : m.longName = none) (front rest : List Block) :
    nameAt (front ++ (m.blocks ++ rest)) front.length = m.name := by
  have blocks_eq : m.blocks = m.header :: m.content := by
    rw [Member.blocks, Member.front, short]
    rfl
  rw [nameAt, stringAt, drop_raw, blocks_eq, List.cons_append, raw, List.flatMap_cons, Member.name,
    ← List.take_append_drop 100 m.header.data, List.append_assoc, takeWhile_ended (wellFormed.short short),
    List.take_append_drop]

section Scanned

variable (members : List Member) (trailer : List Block)

/-- The tree that is made of an archive. -/
def archiveTree : Tree := (readTarFile [] (archiveBlocks members trailer)).infoTree

/-- Of an archive of members and empty blocks, in which each nonzero size is ended by NUL and no block of a long name is
like another header, the scan takes just the headers of the members and the blocks of their long names, one node for each in
their order. A node has the name of its member, where that is not a long one, and is placed by the parts of its name. -/
theorem archive_scanned (wellFormed : ∀ m ∈ members, m.WellFormed) (aligned : ∀ m ∈ members, m.Aligned)
    (zeros : ∀ b ∈ trailer, byteAt b.data 0 = 0) :
    (archiveTree members trailer).map Node.data = takenFrom 0 members ∧
      (∀ (before : List Member) (m : Member) (after : List Member), members = before ++ m :: after → m.longName = none →
        nameAt (archiveBlocks members trailer) (before.flatMap Member.blocks).length = m.name) ∧
      ∀ v n, (archiveTree members trailer)[v]? = some n → ∃ above last,
        Parts (nodeName (archiveBlocks members trailer) (archiveTree members trailer) v) above last ∧
          Placed (archiveBlocks members trailer) (archiveTree members trailer) v above n.parent := by
  refine ⟨scanned wellFormed aligned zeros [], fun before m after split short => ?_, fun v n there => ?_⟩
  · have member : m ∈ members := by
      rw [split]
      exact List.mem_append_right before List.mem_cons_self
    have name := nameAt_short (wellFormed m member) short (before.flatMap Member.blocks) (after.flatMap Member.blocks ++ trailer)
    rw [archiveBlocks, split, List.flatMap_append, List.flatMap_cons, List.append_assoc, List.append_assoc]
    exact name
  · obtain ⟨i, sound⟩ := readTarFile_sound [] (archiveBlocks members trailer)
    have member := List.mem_of_getElem? there
    have named : nodeName (archiveBlocks members trailer) (archiveTree members trailer) v ≠ [] := by
      rw [nodeName, dataOf_eq there]
      have taken : byteAt (blockAt (archiveBlocks members trailer) n.data).data 0 ≠ 0 ∧ _ := of_decide_eq_true (sound.taken n member)
      exact nameAt_ne_nil (sound.inside n member) taken.1
    obtain ⟨above, last, parts⟩ := exists_parts named
    exact ⟨above, last, parts, (readTarFile_built [] _).placed there parts⟩

end Scanned

/-- A directory, and a file in it with a block of content. -/
def directoryMember : Member := ⟨none, .header (ascii "d/") (ascii "00000000000") 53, []⟩

def fileMember : Member := ⟨none, .header (ascii "d/x") (ascii "00000000003") 48, [.holding (ascii "abc")]⟩

/-- An empty file with a name of a hundred bytes. -/
def longMember : Member :=
  ⟨some ⟨.header (ascii "././@LongLink") (ascii "00000000145") 76, List.replicate 100 97, [.holding (List.replicate 100 97)]⟩,
    .header (List.replicate 100 97) (ascii "00000000000") 48, []⟩

section Headers

variable {name digits : Bytes} {flag : UInt8}

theorem header_data (name digits : Bytes) (flag : UInt8) :
    (Block.header name digits flag).data = fill 124 name ++ (fill 32 digits ++ flag :: List.replicate 355 0) := by
  have length : (fill 124 name ++ fill 32 digits ++ [flag]).length = 157 := by
    rw [List.length_append, List.length_append, length_fill, length_fill, List.length_singleton]
  show fill blockSize (fill 124 name ++ fill 32 digits ++ [flag]) = _
  rw [fill, List.take_of_length_le (by rw [length, blockSize]; decide), length, List.append_assoc, List.append_assoc]
  rfl

theorem header_typeflag (name digits : Bytes) (flag : UInt8) : (Block.header name digits flag).typeflag = flag := by
  have length : (fill 124 name ++ fill 32 digits).length = 156 := by
    rw [List.length_append, length_fill, length_fill]
  rw [Block.typeflag, header_data, ← List.append_assoc, byteAt, List.getD_eq_getElem?_getD,
    List.getElem?_append_right (by rw [length]), length]
  rfl

theorem header_size (eleven : digits.length = 11) : (Block.header name digits flag).size = digits ++ [0] := by
  have short : digits.take 32 = digits := List.take_of_length_le (by omega)
  have twelve : 12 = digits.length + 1 := by omega
  rw [Block.size, Block.field, header_data, List.drop_left' (length_fill 124 name), fill, short, List.append_assoc, twelve,
    List.take_length_add_append, eleven]
  rfl

theorem header_sized (size : Nat) {blocks : Nat} (eleven : digits.length = 11)
    (octal : ∀ c ∈ digits, 48 ≤ c ∧ c ≤ 55) (value : octalFrom 0 digits = size) (small : size < 2 ^ 31)
    (length : blocks = (size + 511) / 512) :
    ∃ size stop, SizeField (Block.header name digits flag).size size stop ∧ (stop = 0 ∨ stop = 32) ∧ size < 2 ^ 31 ∧
      blocks = (size + 511) / 512 :=
  ⟨size, 0, ⟨digits, [], header_size eleven, octal, value⟩, Or.inl rfl, small, length⟩

theorem header_not_spaced (eleven : digits.length = 11) (octal : ∀ c ∈ digits, 48 ≤ c ∧ c ≤ 55) {size : Nat}
    (spaced : SizeField (Block.header name digits flag).size size 32) : size = 0 := by
  obtain ⟨before, rest, split, -⟩ := spaced
  have space : (32 : UInt8) ∈ digits ++ [0] := by
    rw [← header_size eleven, split]
    exact List.mem_append_right before List.mem_cons_self
  obtain among | zero := List.mem_append.mp space
  · exact absurd (octal 32 among).1 (by decide)
  · exact absurd zero (by decide)

end Headers

/-- The members are well formed and aligned. -/
theorem members_wellFormed : (directoryMember.WellFormed ∧ directoryMember.Aligned) ∧
    (fileMember.WellFormed ∧ fileMember.Aligned) ∧ longMember.WellFormed ∧ longMember.Aligned := by
  have zeros : ∀ c ∈ ascii "00000000000", 48 ≤ c ∧ c ≤ 55 := by decide +kernel
  have three : ∀ c ∈ ascii "00000000003", 48 ≤ c ∧ c ≤ 55 := by decide +kernel
  have directory : directoryMember.WellFormed :=
    { long := fun l wrong => by cases wrong
      short := fun _ => by decide +kernel
      named := by decide +kernel
      flag := by
        rw [directoryMember, header_typeflag]
        decide
      size := header_sized 0 rfl zeros (by decide +kernel) (by decide) rfl }
  have file : fileMember.WellFormed :=
    { long := fun l wrong => by cases wrong
      short := fun _ => by decide +kernel
      named := by decide +kernel
      flag := by
        rw [fileMember, header_typeflag]
        decide
      size := header_sized 3 rfl three (by decide +kernel) (by decide) rfl }
  have long : longMember.WellFormed :=
    { long := fun l here => by
        cases here
        exact ⟨by decide +kernel, header_typeflag _ _ _, Nat.le_refl 100, by decide +kernel, by decide, List.append_nil _⟩
      short := fun wrong => by cases wrong
      named := by decide +kernel
      flag := by
        rw [longMember, header_typeflag]
        decide
      size := header_sized 0 rfl zeros (by decide +kernel) (by decide) rfl }
  refine ⟨⟨directory, fun _ => header_not_spaced rfl zeros, fun l wrong => by cases wrong⟩,
    ⟨file, fun _ => header_not_spaced rfl three, fun l wrong => by cases wrong⟩,
    long, fun _ => header_not_spaced rfl zeros, fun l here => ?_⟩
  cases here
  decide +kernel

theorem empty_zeros : ∀ b ∈ [Block.holding []], byteAt b.data 0 = 0 := by
  intro b member
  cases List.mem_singleton.mp member
  rfl

def smallMembers : List Member := [directoryMember, fileMember, longMember]

theorem archive_scanned_small :
    (archiveTree smallMembers [.holding []]).map Node.data = takenFrom 0 smallMembers ∧
      (∀ (before : List Member) (m : Member) (after : List Member), smallMembers = before ++ m :: after → m.longName = none →
        nameAt (archiveBlocks smallMembers [.holding []]) (before.flatMap Member.blocks).length = m.name) ∧
      ∀ v n, (archiveTree smallMembers [.holding []])[v]? = some n → ∃ above last,
        Parts (nodeName (archiveBlocks smallMembers [.holding []]) (archiveTree smallMembers [.holding []]) v) above last ∧
          Placed (archiveBlocks smallMembers [.holding []]) (archiveTree smallMembers [.holding []]) v above n.parent := by
  obtain ⟨directory, file, long⟩ := members_wellFormed
  have fine : ∀ m ∈ smallMembers, m.WellFormed ∧ m.Aligned := by
    rintro m (_ | ⟨_, _ | ⟨_, _ | ⟨_, wrong⟩⟩⟩)
    · exact directory
    · exact file
    · exact long
    · cases wrong
  exact archive_scanned smallMembers [.holding []] (fun m member => (fine m member).1) (fun m member => (fine m member).2) empty_zeros

/-- Of an archive of one member with a long name two blocks are taken: the one that holds the name, and the header. -/
theorem long_name_taken : longMember.WellFormed ∧ longMember.front.length = 2 ∧
    (archiveTree [longMember] [.holding []]).map Node.data = [1, 2] := by
  obtain ⟨-, -, wellFormed, aligned⟩ := members_wellFormed
  refine ⟨wellFormed, rfl, ?_⟩
  have taken := @scanned [longMember] [.holding []] (List.forall_mem_singleton.mpr wellFormed)
    (List.forall_mem_singleton.mpr aligned) empty_zeros []
  exact taken.trans (by decide +kernel)

end Archive

end GnomeVfs.Tar
