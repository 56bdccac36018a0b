import GnomeVfs.Tar

/- The tree that the scan of an archive makes: where its nodes come from, and what a lookup finds in it. -/
namespace GnomeVfs.Tar

section Lookup

variable {blocks : List Block} {t : Tree} {node : Nat} {parent : Option Nat}

theorem mem_children : node ∈ children t parent ↔ ∃ n : Node, t[node]? = some n ∧ n.parent = parent := by
  rw [children, List.mem_filter, List.mem_range, decide_eq_true_eq]
  constructor
  · rintro ⟨inside, same⟩
    rw [List.getElem?_eq_getElem inside, Option.map_some, Option.some.injEq] at same
    exact ⟨t[node], List.getElem?_eq_getElem inside, same⟩
  · rintro ⟨n, there, rfl⟩
    obtain ⟨inside, -⟩ := List.getElem?_eq_some_iff.mp there
    exact ⟨inside, by rw [there]; rfl⟩

theorem lt_of_mem_children (member : node ∈ children t parent) : node < t.length := by
  obtain ⟨n, there, -⟩ := mem_children.mp member
  exact (List.getElem?_eq_some_iff.mp there).1

theorem children_pairwise (t : Tree) (parent : Option Nat) : (children t parent).Pairwise (· < ·) :=
  List.pairwise_lt_range.filter _

theorem next_mem {sibling : Nat} (follows : next t node = some sibling) :
    node < sibling ∧ sibling ∈ children t ((t[node]?.map Node.parent).getD none) := by
  rw [next] at follows
  have behind := List.find?_some follows
  exact ⟨of_decide_eq_true behind, List.mem_of_find?_eq_some follows⟩

theorem realLookupEntry_mem {name : Bytes} (fuel : Nat) : ∀ {tree : Option Nat} {level : Nat},
    realLookupEntry blocks t name fuel tree level = some node → ∃ tree', node ∈ children t tree' := by
  induction fuel with
  | zero => exact fun found => absurd found (Option.some_ne_none _).symm
  | succ fuel ih =>
    intro tree level found
    rw [realLookupEntry] at found
    dsimp only at found
    split at found
    · cases found
    · rename_i sibling among
      split at found
      · exact ih found
      · obtain rfl := Option.some.inj found
        exact ⟨tree, List.mem_of_find?_eq_some among⟩

theorem lookupEither_lt {stray : UInt8} {name : Bytes} (found : lookupEither blocks t stray name = some node) :
    node < t.length := by
  rw [lookupEither] at found
  split at found
  · rename_i first
    obtain rfl := Option.some.inj found
    obtain ⟨tree, member⟩ := realLookupEntry_mem _ first
    exact lt_of_mem_children member
  · split at found
    · obtain ⟨tree, member⟩ := realLookupEntry_mem _ found
      exact lt_of_mem_children member
    · cases found

theorem treeLookupEntry_lt {stray : UInt8} {name : Bytes} (found : treeLookupEntry blocks t stray name = some node) :
    node < t.length := by
  rw [treeLookupEntry] at found
  split at found
  · cases found
  · rename_i first
    split at found
    · exact lt_of_mem_children (next_mem found).2
    · obtain rfl := Option.some.inj found
      exact lookupEither_lt first

theorem dataOf_eq {n : Node} (there : t[node]? = some n) : dataOf blocks t node = n.data := by
  rw [dataOf, there]
  rfl

end Lookup

section Scan

variable {blocks : List Block}

/-- What every tree of a scan is like, with the scan at this block. -/
structure Tree.Sound (blocks : List Block) (i : Nat) (t : Tree) : Prop where
  below : ∀ n ∈ t, n.data < i
  inside : ∀ n ∈ t, n.data < blocks.length
  taken : ∀ n ∈ t, isTaken (blockAt blocks n.data) = true
  rising : t.Pairwise (fun n n' : Node => n.data < n'.data)
  top : ∀ n, t.head? = some n → n.parent = none

theorem Tree.Sound.nil (i : Nat) : Tree.Sound blocks i [] :=
  ⟨fun _ member => absurd member List.not_mem_nil, fun _ member => absurd member List.not_mem_nil,
    fun _ member => absurd member List.not_mem_nil, List.Pairwise.nil, fun _ head => absurd head (Option.some_ne_none _).symm⟩

theorem treeLookupEntry_nil (stray : UInt8) (name : Bytes) : treeLookupEntry blocks [] stray name = none := by
  cases found : treeLookupEntry blocks [] stray name with
  | none => rfl
  | some node => exact absurd (treeLookupEntry_lt found) (Nat.not_lt_zero node)

theorem scanStep_sound {i : Nat} {t : Tree} (sound : t.Sound blocks i) (inside : i < blocks.length) :
    (scanStep blocks i t).2.Sound blocks (scanStep blocks i t).1 := by
  rw [scanStep]
  dsimp only
  split
  · rename_i is_taken
    dsimp only
    generalize placed : treeLookupEntry blocks t 0 (splitName (nameAt blocks i)).1 = parent
    generalize skipBlocks (parseOctal (blockAt blocks i).size) (blocks.length - i) 0 = skipped
    refine ⟨fun n member => ?_, fun n member => ?_, fun n member => ?_, ?_, fun n head => ?_⟩
    · rcases List.mem_append.mp member with old | new
      · have := sound.below n old
        omega
      · rw [List.mem_singleton.mp new]
        exact Nat.lt_succ_of_le (Nat.le_add_right _ _)
    · rcases List.mem_append.mp member with old | new
      · exact sound.inside n old
      · rw [List.mem_singleton.mp new]
        exact inside
    · rcases List.mem_append.mp member with old | new
      · exact sound.taken n old
      · rw [List.mem_singleton.mp new]
        exact is_taken
    · refine List.pairwise_append.mpr ⟨sound.rising, List.pairwise_singleton _ _, fun n old n' new => ?_⟩
      rw [List.mem_singleton.mp new]
      exact sound.below n old
    · cases t with
      | nil =>
        obtain rfl := Option.some.inj head
        rw [← placed, treeLookupEntry_nil]
      | cons first rest => exact sound.top n head
  · exact ⟨fun n member => Nat.lt_succ_of_lt (sound.below n member), sound.inside, sound.taken, sound.rising, sound.top⟩

theorem scanFrom_sound (fuel : Nat) : ∀ {i : Nat} {t : Tree}, t.Sound blocks i →
    ∃ i', (scanFrom blocks fuel i t).Sound blocks i' := by
  induction fuel with
  | zero => exact fun sound => ⟨_, sound⟩
  | succ fuel ih =>
    intro i t sound
    rw [scanFrom]
    split
    · rename_i inside
      exact ih (scanStep_sound sound inside)
    · exact ⟨i, sound⟩

theorem readTarFile_sound (filename : Bytes) (blocks : List Block) :
    ∃ i, (readTarFile filename blocks).infoTree.Sound blocks i := scanFrom_sound _ (.nil 0)

variable {i node : Nat} {t : Tree} (sound : t.Sound blocks i)

include sound in
theorem Tree.Sound.dataOf_lt (inside : node < t.length) : dataOf blocks t node < blocks.length := by
  rw [dataOf_eq (List.getElem?_eq_getElem inside)]
  exact sound.inside _ (List.getElem_mem inside)

include sound in
/-- The first node is the first one below the root. -/
theorem Tree.Sound.head_children (inside : node < t.length) (other : some node ≠ (children t none).head?) :
    0 < dataOf blocks t node := by
  have first : 0 < t.length := Nat.lt_of_le_of_lt (Nat.zero_le node) inside
  have top : 0 ∈ children t none :=
    mem_children.mpr ⟨t[0], List.getElem?_eq_getElem first, sound.top _ (by rw [List.head?_eq_getElem?, List.getElem?_eq_getElem first])⟩
  have head : (children t none).head? = some 0 := by
    have rising := children_pairwise t none
    cases among : children t none with
    | nil =>
      rw [among] at top
      cases top
    | cons least rest =>
      rw [among] at top rising
      rcases List.mem_cons.mp top with rfl | later
      · rfl
      · exact absurd (List.rel_of_pairwise_cons rising later) (Nat.not_lt_zero least)
  have positive : 0 < node := Nat.pos_of_ne_zero fun zero => other (by rw [zero, head])
  have order := List.pairwise_iff_getElem.mp sound.rising 0 node first inside positive
  rw [dataOf_eq (List.getElem?_eq_getElem inside)]
  exact Nat.lt_of_le_of_lt (Nat.zero_le _) order

end Scan

end GnomeVfs.Tar
