import RdfDataset.Proofs.GraphIndex.Enumerate
import RdfDataset.Proofs.GraphIndex.Levels

/-!
# The numbers in the levels of the trees

Adding a triple puts no numbers into the trees but those of the triple, and taking one out puts in none.  So all numbers
that the trees have ever been given are accounted for, also those in levels that were emptied without pruning, which no
lookup shows.

* `Tree.KeysIn` and `GraphIndex.KeysIn`: all numbers in all levels are among some given ones; `GraphIndex.KeysIn.insert`
  and `GraphIndex.KeysIn.erase` keep it.
* `GraphIndex.KeysIn.mem_of_contains`: the triples are made of these numbers.
* `GraphIndex.KeysIn.of_mem_subjects`, `GraphIndex.KeysIn.of_mem_predicates` and `GraphIndex.KeysIn.of_mem_objects`: so
  is what is enumerated.
-/

namespace RdfDataset

variable [Arrangement] {U V : Set Nat}

/-! ### One tree -/

/-- All keys and all members of leaves are among some numbers. -/
def Branch.KeysIn (U : Set Nat) (branch : Branch) : Prop :=
  ∀ (b : Nat) (leaf : Leaf), branch[b]? = some leaf → b ∈ U ∧ ∀ c ∈ leaf, c ∈ U

theorem Branch.KeysIn.insert {branch : Branch} (h : Branch.KeysIn U branch) {b : Nat} {leaf : Leaf} (hb : b ∈ U)
    (hleaf : ∀ c ∈ leaf, c ∈ U) : Branch.KeysIn U (branch.insert b leaf) :=
  forall_getElem?_insert (P := fun b (leaf : Leaf) => b ∈ U ∧ ∀ c ∈ leaf, c ∈ U) h ⟨hb, hleaf⟩

theorem Branch.KeysIn.erase {branch : Branch} (h : Branch.KeysIn U branch) (b : Nat) :
    Branch.KeysIn U (branch.erase b) :=
  forall_getElem?_erase (P := fun b (leaf : Leaf) => b ∈ U ∧ ∀ c ∈ leaf, c ∈ U) h b

/-- All keys of all levels are among some numbers. -/
def Tree.KeysIn (U : Set Nat) (t : Tree) : Prop :=
  ∀ (a : Nat) (branch : Branch), t[a]? = some branch → a ∈ U ∧ Branch.KeysIn U branch

namespace Tree

theorem keysIn_empty : Tree.KeysIn U ∅ := by
  intro a branch h
  simp at h

namespace KeysIn

variable {t : Tree} (ht : t.KeysIn U)
include ht

theorem mono (hUV : U ⊆ V) : t.KeysIn V := by
  intro a branch ha
  obtain ⟨hmem, hbranch⟩ := ht a branch ha
  refine ⟨hUV hmem, fun b leaf hb => ?_⟩
  obtain ⟨hmem, hleaf⟩ := hbranch b leaf hb
  exact ⟨hUV hmem, fun c hc => hUV (hleaf c hc)⟩

theorem branch (a : Nat) : Branch.KeysIn U (t.branch a) := by
  unfold Tree.branch
  cases ha : t[a]? with
  | none =>
    intro b leaf hleaf
    simp at hleaf
  | some branch => exact (ht a branch ha).2

theorem leaf (a b : Nat) : ∀ c ∈ t.leaf a b, c ∈ U := by
  unfold Tree.leaf
  cases hb : (t.branch a)[b]? with
  | none => simp
  | some leaf => exact (ht.branch a b leaf hb).2

theorem insert_branch {a : Nat} {branch : Branch} (ha : a ∈ U) (hbranch : Branch.KeysIn U branch) :
    Tree.KeysIn U (Table.insert t a branch) :=
  forall_getElem?_insert (P := fun a branch => a ∈ U ∧ Branch.KeysIn U branch) ht ⟨ha, hbranch⟩

theorem insert {a b c : Nat} (ha : a ∈ U) (hb : b ∈ U) (hc : c ∈ U) : (t.insert a b c).KeysIn U := by
  refine ht.insert_branch ha ((ht.branch a).insert hb fun d hd => ?_)
  rcases Table.mem_insert.1 hd with rfl | hd
  · exact hc
  · exact ht.leaf a b d hd

/-- The keys on the way to a triple of the tree. -/
theorem mem_of_contains {a b c : Nat} (h : t.contains a b c = true) : a ∈ U ∧ b ∈ U ∧ c ∈ U := by
  obtain ⟨branch, leaf, ha, hb, hc⟩ := Tree.contains_iff.1 h
  obtain ⟨haU, hbranch⟩ := ht a branch ha
  obtain ⟨hbU, hleaf⟩ := hbranch b leaf hb
  exact ⟨haU, hbU, hleaf c (Table.contains_iff_mem.1 hc)⟩

/-- Levels that are left empty may stay or be taken out; no number comes in. -/
theorem erase (prune : Bool) (a b c : Nat) : (t.erase prune a b c).KeysIn U := by
  unfold Tree.erase
  split
  · rename_i hcontains
    obtain ⟨ha, hb, -⟩ := ht.mem_of_contains hcontains
    have hrest : ∀ d ∈ (t.leaf a b).erase c, d ∈ U :=
      fun d hd => ht.leaf a b d (Table.mem_erase.1 hd).2
    dsimp only
    split
    · split
      · exact forall_getElem?_erase (P := fun a branch => a ∈ U ∧ Branch.KeysIn U branch) ht a
      · exact ht.insert_branch ha ((ht.branch a).erase b)
    · exact ht.insert_branch ha ((ht.branch a).insert hb hrest)
  · exact ht

theorem of_mem_keys_leaf {a b c : Nat} (h : c ∈ (t.leaf a b).keys) : c ∈ U :=
  (ht.mem_of_contains (mem_keys_leaf.1 h)).2.2

theorem of_mem_branchKeys {a b : Nat} (h : b ∈ t.branchKeys a) : b ∈ U := by
  obtain ⟨c, hc⟩ := mem_branchKeys.1 h
  exact (ht.mem_of_contains hc).2.1

theorem of_mem_keysThrough {a b : Nat} (h : a ∈ t.keysThrough b) : a ∈ U := by
  obtain ⟨c, hc⟩ := mem_keysThrough.1 h
  exact (ht.mem_of_contains hc).1

theorem of_mem_rootKeys {a : Nat} (h : a ∈ t.rootKeys) : a ∈ U := by
  obtain ⟨b, c, hc⟩ := mem_rootKeys.1 h
  exact (ht.mem_of_contains hc).1

end KeysIn

end Tree

/-! ### Three trees -/

namespace GraphIndex

/-- All numbers in all levels of the three trees are among some given ones. -/
def KeysIn (U : Set Nat) (g : GraphIndex) : Prop :=
  ∀ order, (g.tree order).KeysIn U

theorem keysIn_empty : KeysIn U {} := by
  intro order
  cases order <;> exact Tree.keysIn_empty

namespace KeysIn

variable {g : GraphIndex} (hg : g.KeysIn U)
include hg

theorem mono (hUV : U ⊆ V) : g.KeysIn V :=
  fun order => (hg order).mono hUV

theorem insert {t : Triple Nat} (ht : ∀ n ∈ t.toList, n ∈ U) : (g.insert t).2.KeysIn U := by
  by_cases h : g.contains t = true
  · rwa [insert_of_contains h]
  · simp only [Triple.toList, List.forall_mem_cons] at ht
    obtain ⟨hs, hp, ho, -⟩ := ht
    intro order
    rw [tree_insert (eq_false_of_ne_true h)]
    cases order
    case subjects => exact (hg .subjects).insert hs hp ho
    case predicates => exact (hg .predicates).insert hp ho hs
    case objects => exact (hg .objects).insert ho hs hp

theorem erase (prune : Bool) (t : Triple Nat) : (g.erase prune t).2.KeysIn U := by
  by_cases h : g.contains t = true
  · intro order
    rw [tree_erase h]
    exact (hg order).erase prune _ _ _
  · rwa [erase_of_not_contains prune (eq_false_of_ne_true h)]

theorem mem_of_contains {t : Triple Nat} (h : g.contains t = true) : ∀ n ∈ t.toList, n ∈ U := by
  obtain ⟨hs, hp, ho⟩ := (hg .subjects).mem_of_contains h
  simp only [Triple.toList, List.forall_mem_cons]
  exact ⟨hs, hp, ho, by simp⟩

/-! ### Enumerations -/

theorem of_mem_subjects {p o : Option Nat} {n : Nat} (h : n ∈ g.subjects p o) : n ∈ U := by
  cases p with
  | none =>
    cases o with
    | none => exact (hg .subjects).of_mem_rootKeys h
    | some o => exact (hg .objects).of_mem_branchKeys h
  | some p =>
    cases o with
    | none => exact (hg .subjects).of_mem_keysThrough h
    | some o => exact (hg .predicates).of_mem_keys_leaf h

theorem of_mem_predicates {s o : Option Nat} {n : Nat} (h : n ∈ g.predicates s o) : n ∈ U := by
  cases s with
  | none =>
    cases o with
    | none => exact (hg .predicates).of_mem_rootKeys h
    | some o => exact (hg .predicates).of_mem_keysThrough h
  | some s =>
    cases o with
    | none => exact (hg .subjects).of_mem_branchKeys h
    | some o => exact (hg .objects).of_mem_keys_leaf h

theorem of_mem_objects {s p : Option Nat} {n : Nat} (h : n ∈ g.objects s p) : n ∈ U := by
  cases s with
  | none =>
    cases p with
    | none => exact (hg .objects).of_mem_rootKeys h
    | some p => exact (hg .predicates).of_mem_branchKeys h
  | some s =>
    cases p with
    | none => exact (hg .objects).of_mem_keysThrough h
    | some p => exact (hg .subjects).of_mem_keys_leaf h

end KeysIn

end GraphIndex

end RdfDataset
