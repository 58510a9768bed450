import Mathlib
import RdfDataset.GraphIndex

/-!
# The three trees of a graph

A graph index is coherent when its three trees hold the same triples.

* `GraphIndex.Coherent`: the trees agree; `Coherent.insert` and `Coherent.erase` keep it, with and without pruning.
* `GraphIndex.contains_insert` and `GraphIndex.contains_erase`: which triples there are after a change.
* `GraphIndex.Coherent.mem_matching` and `GraphIndex.nodup_matching`: a lookup lists each matching triple once.
* `GraphIndex.count_eq`, `GraphIndex.Coherent.size_eq` and `GraphIndex.isEmpty_iff`: counting and listing agree.
* `GraphIndex.triples` is the set of the triples.
-/

namespace RdfDataset

/-! ### Patterns -/

/-- A value agrees with what is known of it. -/
def Agrees {α : Type} (known : Option α) (x : α) : Prop :=
  ∀ k ∈ known, x = k

@[simp]
theorem agrees_none {α : Type} (x : α) : Agrees none x := by
  simp [Agrees]

@[simp]
theorem agrees_some {α : Type} {k x : α} : Agrees (some k) x ↔ x = k := by
  simp [Agrees]

instance {α : Type} [DecidableEq α] (known : Option α) (x : α) : Decidable (Agrees known x) :=
  match known with
  | none => isTrue (agrees_none x)
  | some k => decidable_of_iff (x = k) agrees_some.symm

/-- A triple agrees with a pattern in the positions that the pattern knows. -/
def Triple.Matches {α : Type} (pattern : Triple (Option α)) (t : Triple α) : Prop :=
  Agrees pattern.subject t.subject ∧ Agrees pattern.predicate t.predicate ∧ Agrees pattern.object t.object

instance {α : Type} [DecidableEq α] (pattern : Triple (Option α)) (t : Triple α) : Decidable (pattern.Matches t) :=
  inferInstanceAs (Decidable (_ ∧ _))

/-! ### Orders of levels -/

namespace IndexOrder

variable {α : Type}

theorem triple_keys (order : IndexOrder) (t : Triple α) :
    order.triple (order.keys t).1 (order.keys t).2.1 (order.keys t).2.2 = t := by
  cases order <;> rfl

theorem keys_triple (order : IndexOrder) (a b c : α) : order.keys (order.triple a b c) = (a, b, c) := by
  cases order <;> rfl

theorem keys_inj {order : IndexOrder} {t u : Triple α} : order.keys t = order.keys u ↔ t = u := by
  constructor
  · intro h
    rw [← triple_keys order t, h, triple_keys]
  · rintro rfl
    rfl

/-- Agreeing with a pattern, level by level. -/
theorem matches_iff (order : IndexOrder) {pattern : Triple (Option α)} {t : Triple α} :
    pattern.Matches t ↔ Agrees (order.keys pattern).1 (order.keys t).1 ∧
      Agrees (order.keys pattern).2.1 (order.keys t).2.1 ∧ Agrees (order.keys pattern).2.2 (order.keys t).2.2 := by
  cases order <;> simp only [Triple.Matches, keys] <;> tauto

theorem keys_eq_iff {order : IndexOrder} {t u : Triple α} :
    ((order.keys u).1 = (order.keys t).1 ∧ (order.keys u).2.1 = (order.keys t).2.1 ∧
      (order.keys u).2.2 = (order.keys t).2.2) ↔ u = t := by
  rw [← @keys_inj _ order, Prod.ext_iff, Prod.ext_iff]

end IndexOrder

/-! ### Levels of a tree -/

@[simp]
theorem total_eq_sum (counts : List Nat) : total counts = counts.sum :=
  rfl

variable [Arrangement]

theorem mem_entriesAt {β : Type} {level : Table β} {known : Option Nat} {a : Nat} {x : β} :
    (a, x) ∈ entriesAt level known ↔ level[a]? = some x ∧ Agrees known a := by
  cases known with
  | none => simp [entriesAt, Table.mem_toList]
  | some k =>
    simp only [entriesAt, List.mem_map, Option.mem_toList, Prod.mk.injEq, agrees_some]
    constructor
    · rintro ⟨y, hy, rfl, rfl⟩
      exact ⟨hy, rfl⟩
    · rintro ⟨hx, rfl⟩
      exact ⟨x, hx, rfl, rfl⟩

theorem nodup_keys_entriesAt {β : Type} (level : Table β) (known : Option Nat) :
    (entriesAt level known).Pairwise fun x y => x.1 ≠ y.1 := by
  cases known with
  | none =>
    have hkeys : (level.toList.map (·.1)).Nodup := level.map_fst_toList ▸ level.nodup_keys
    exact List.pairwise_map.1 hkeys
  | some k =>
    simp only [entriesAt]
    cases h : level[k]? with
    | none => simp
    | some x => simp

theorem mem_membersAt {leaf : Leaf} {known : Option Nat} {c : Nat} :
    c ∈ membersAt leaf known ↔ leaf.contains c = true ∧ Agrees known c := by
  cases known with
  | none => simp [membersAt, Table.mem_keys, Table.contains_iff_mem]
  | some k =>
    simp only [membersAt, agrees_some]
    split
    · rename_i h
      rw [List.mem_singleton]
      constructor
      · rintro rfl
        exact ⟨h, rfl⟩
      · exact fun hc => hc.2
    · rename_i h
      simp only [List.not_mem_nil, false_iff, not_and]
      rintro hc rfl
      exact h hc

theorem nodup_membersAt (leaf : Leaf) (known : Option Nat) : (membersAt leaf known).Nodup := by
  cases known with
  | none => exact leaf.nodup_keys
  | some k =>
    simp only [membersAt]
    by_cases h : leaf.contains k = true
    · rw [if_pos h]
      exact List.nodup_singleton k
    · rw [if_neg h]
      exact List.nodup_nil

theorem length_membersAt (leaf : Leaf) (known : Option Nat) :
    (membersAt leaf known).length =
      match known with
      | some key => if leaf.contains key then 1 else 0
      | none => leaf.size := by
  cases known with
  | none => exact leaf.length_keys
  | some k =>
    simp only [membersAt]
    split <;> rfl

/-! ### One tree -/

namespace Tree

theorem branch_insert (t : Tree) (a x : Nat) (branch : Branch) :
    Tree.branch (Table.insert t a branch) x = if x = a then branch else t.branch x := by
  unfold Tree.branch
  rw [Table.getElem?_insert]
  split <;> rfl

theorem branch_erase (t : Tree) (a x : Nat) : Tree.branch (Table.erase t a) x = if x = a then ∅ else t.branch x := by
  unfold Tree.branch
  rw [Table.getElem?_erase]
  split <;> rfl

/-- The leaf of a key of a branch, which is empty if there is none. -/
private theorem contains_eq (t : Tree) (a b c : Nat) : t.contains a b c = ((t.branch a)[b]?.getD ∅).contains c := rfl

private theorem getD_insert (branch : Branch) (b y : Nat) (leaf : Leaf) :
    (branch.insert b leaf)[y]?.getD ∅ = if y = b then leaf else branch[y]?.getD ∅ := by
  rw [Table.getElem?_insert]
  split <;> rfl

private theorem getD_erase (branch : Branch) (b y : Nat) :
    (branch.erase b)[y]?.getD ∅ = if y = b then ∅ else branch[y]?.getD ∅ := by
  rw [Table.getElem?_erase]
  split <;> rfl

private theorem leaf_contains_insert (leaf : Leaf) (c z : Nat) :
    (leaf.insert c ()).contains z = true ↔ z = c ∨ leaf.contains z = true := by
  rw [Table.contains_iff_mem, Table.contains_iff_mem, Table.mem_insert]

private theorem leaf_contains_erase (leaf : Leaf) (c z : Nat) :
    (leaf.erase c).contains z = true ↔ leaf.contains z = true ∧ z ≠ c := by
  rw [Table.contains_iff_mem, Table.contains_iff_mem, Table.mem_erase, and_comm]

theorem contains_insert (t : Tree) (a b c x y z : Nat) :
    (t.insert a b c).contains x y z = true ↔ (x = a ∧ y = b ∧ z = c) ∨ t.contains x y z = true := by
  rw [contains_eq, contains_eq, Tree.insert, branch_insert]
  by_cases hx : x = a
  · subst hx
    rw [if_pos rfl, getD_insert]
    by_cases hy : y = b
    · subst hy
      rw [if_pos rfl, leaf_contains_insert]
      simp [Tree.leaf]
    · simp [hy]
  · simp [hx]

theorem contains_erase (t : Tree) (prune : Bool) (a b c x y z : Nat) :
    (t.erase prune a b c).contains x y z = true ↔ t.contains x y z = true ∧ ¬(x = a ∧ y = b ∧ z = c) := by
  unfold Tree.erase
  by_cases hpresent : t.contains a b c = true
  · rw [if_pos hpresent]
    have hleaf : ∀ z, ((t.leaf a b).erase c).contains z = true ↔ t.contains a b z = true ∧ z ≠ c :=
      leaf_contains_erase (t.leaf a b) c
    dsimp only
    split
    · rename_i hempty
      rw [Bool.and_eq_true] at hempty
      -- nothing else is in the leaf
      have honly : ∀ z, t.contains a b z = true → z = c := by
        intro z hz
        by_contra hne
        have := (hleaf z).2 ⟨hz, hne⟩
        exact Table.isEmpty_iff_forall_notMem.1 hempty.2 z (Table.contains_iff_mem.1 this)
      split
      · rename_i hbranch
        rw [contains_eq, branch_erase]
        by_cases hx : x = a
        · subst hx
          have hnone : ∀ z, t.contains x y z = true → y = b := by
            intro z hz
            by_contra hy
            have hget : ((t.branch x).erase b)[y]? = none := Table.getElem?_of_isEmpty hbranch y
            have hgetD := getD_erase (t.branch x) b y
            rw [hget, if_neg hy] at hgetD
            rw [contains_eq, ← hgetD] at hz
            simp at hz
          simp only [if_pos, true_and, not_and]
          constructor
          · intro h
            simp at h
          · rintro ⟨h, hne⟩
            obtain rfl := hnone z h
            exact absurd (honly z h) (hne rfl)
        · simp [hx, contains_eq]
      · rw [contains_eq, branch_insert]
        by_cases hx : x = a
        · subst hx
          rw [if_pos rfl, getD_erase]
          by_cases hy : y = b
          · subst hy
            simpa using honly z
          · simp [hy, contains_eq]
        · simp [hx, contains_eq]
    · rw [contains_eq, branch_insert]
      by_cases hx : x = a
      · subst hx
        rw [if_pos rfl, getD_insert]
        by_cases hy : y = b
        · subst hy
          rw [if_pos rfl, hleaf]
          simp
        · simp [hy, contains_eq]
      · simp [hx, contains_eq]
  · rw [if_neg hpresent]
    refine ⟨fun h => ⟨h, ?_⟩, fun h => h.1⟩
    rintro ⟨rfl, rfl, rfl⟩
    exact hpresent h

/-- All keys under which a tree holds something, as far as they agree with three known ones. -/
def lookUp (t : Tree) (first second third : Option Nat) : List (Nat × Nat × Nat) :=
  (entriesAt t first).flatMap fun (a, branch) =>
    (entriesAt branch second).flatMap fun (b, leaf) => (membersAt leaf third).map fun c => (a, b, c)

/-- What it takes to be in a tree. -/
theorem contains_iff {t : Tree} {a b c : Nat} :
    t.contains a b c = true ↔ ∃ branch leaf, t[a]? = some branch ∧ branch[b]? = some leaf ∧
      leaf.contains c = true := by
  rw [contains_eq, Tree.branch]
  cases ha : t[a]? with
  | none => simp
  | some branch =>
    rw [Option.getD_some]
    cases hb : branch[b]? with
    | none => simp [hb]
    | some leaf => simp [hb]

theorem mem_lookUp {t : Tree} {first second third : Option Nat} {a b c : Nat} :
    (a, b, c) ∈ t.lookUp first second third ↔
      t.contains a b c = true ∧ Agrees first a ∧ Agrees second b ∧ Agrees third c := by
  rw [contains_iff]
  simp only [lookUp, List.mem_flatMap, List.mem_map, Prod.exists, Prod.mk.injEq]
  constructor
  · rintro ⟨a, branch, ha, b, leaf, hb, c, hc, rfl, rfl, rfl⟩
    rw [mem_entriesAt] at ha hb
    rw [mem_membersAt] at hc
    exact ⟨⟨branch, leaf, ha.1, hb.1, hc.1⟩, ha.2, hb.2, hc.2⟩
  · rintro ⟨⟨branch, leaf, ha, hb, hc⟩, hfirst, hsecond, hthird⟩
    exact ⟨a, branch, mem_entriesAt.2 ⟨ha, hfirst⟩, b, leaf, mem_entriesAt.2 ⟨hb, hsecond⟩, c,
      mem_membersAt.2 ⟨hc, hthird⟩, rfl, rfl, rfl⟩

/-- Each triple of keys is listed once. -/
theorem nodup_lookUp (t : Tree) (first second third : Option Nat) : (t.lookUp first second third).Nodup := by
  unfold lookUp
  rw [List.nodup_flatMap]
  constructor
  · rintro ⟨a, branch⟩ -
    rw [List.nodup_flatMap]
    constructor
    · rintro ⟨b, leaf⟩ -
      exact (nodup_membersAt leaf third).map fun c d h => by simpa using h
    · refine (nodup_keys_entriesAt branch second).imp fun {x y} hne => ?_
      rw [Function.onFun, List.disjoint_left]
      simp only [List.mem_map, not_exists, not_and]
      rintro _ ⟨c, -, rfl⟩ d - h
      simp only [Prod.mk.injEq] at h
      exact hne h.2.1.symm
  · refine (nodup_keys_entriesAt t first).imp fun {x y} hne => ?_
    rw [Function.onFun, List.disjoint_left]
    simp only [List.mem_flatMap, List.mem_map, not_exists, not_and]
    rintro _ ⟨b, -, c, -, rfl⟩ b' - c' - h
    simp only [Prod.mk.injEq] at h
    exact hne h.1.symm

theorem length_lookUp (t : Tree) (first second third : Option Nat) :
    (t.lookUp first second third).length =
      ((entriesAt t first).map fun (_, branch) =>
        ((entriesAt branch second).map fun (_, leaf) => (membersAt leaf third).length).sum).sum := by
  simp [lookUp, List.length_flatMap]

end Tree

/-! ### Three trees -/

namespace GraphIndex

/-- Whether the tree of an order holds a triple. -/
def holds (g : GraphIndex) (order : IndexOrder) (t : Triple Nat) : Bool :=
  (g.tree order).contains (order.keys t).1 (order.keys t).2.1 (order.keys t).2.2

/-- The three trees hold the same triples. -/
def Coherent (g : GraphIndex) : Prop :=
  ∀ order t, g.holds order t = g.contains t

theorem contains_empty (t : Triple Nat) : contains {} t = false := by
  simp [contains, Tree.contains, Tree.leaf, Tree.branch]

theorem coherent_empty : Coherent {} := by
  intro order t
  rw [contains_empty]
  cases order <;> simp [holds, tree, Tree.contains, Tree.leaf, Tree.branch]

theorem insert_of_contains {g : GraphIndex} {t : Triple Nat} (h : g.contains t = true) : g.insert t = (false, g) := by
  rw [insert, if_pos h]

theorem erase_of_not_contains {g : GraphIndex} {t : Triple Nat} (prune : Bool) (h : g.contains t = false) :
    g.erase prune t = (false, g) := by
  rw [erase, if_neg (by simp [h])]

@[simp]
theorem insert_fst (g : GraphIndex) (t : Triple Nat) : (g.insert t).1 = !g.contains t := by
  unfold insert
  split <;> simp_all

@[simp]
theorem erase_fst (g : GraphIndex) (prune : Bool) (t : Triple Nat) : (g.erase prune t).1 = g.contains t := by
  unfold erase
  split <;> simp_all

theorem contains_eq_holds (g : GraphIndex) (t : Triple Nat) : g.contains t = g.holds .subjects t :=
  rfl

/-- A new triple is added to each tree. -/
theorem tree_insert {g : GraphIndex} {t : Triple Nat} (h : g.contains t = false) (order : IndexOrder) :
    (g.insert t).2.tree order =
      (g.tree order).insert (order.keys t).1 (order.keys t).2.1 (order.keys t).2.2 := by
  rw [insert, if_neg (by simp [h])]
  cases order <;> rfl

/-- A triple is taken out of each tree. -/
theorem tree_erase {g : GraphIndex} {t : Triple Nat} (h : g.contains t = true) (prune : Bool) (order : IndexOrder) :
    (g.erase prune t).2.tree order =
      (g.tree order).erase prune (order.keys t).1 (order.keys t).2.1 (order.keys t).2.2 := by
  rw [erase, if_pos h]
  cases order <;> rfl

private theorem holds_insert {g : GraphIndex} {t : Triple Nat} (h : g.contains t = false) (order : IndexOrder)
    (u : Triple Nat) : (g.insert t).2.holds order u = true ↔ u = t ∨ g.holds order u = true := by
  rw [holds, tree_insert h, Tree.contains_insert, IndexOrder.keys_eq_iff]
  rfl

private theorem holds_erase {g : GraphIndex} {t : Triple Nat} (h : g.contains t = true) (prune : Bool)
    (order : IndexOrder) (u : Triple Nat) :
    (g.erase prune t).2.holds order u = true ↔ g.holds order u = true ∧ u ≠ t := by
  rw [holds, tree_erase h, Tree.contains_erase, IndexOrder.keys_eq_iff]
  rfl

/-- What is in a graph after a triple has been added. -/
theorem contains_insert (g : GraphIndex) (t u : Triple Nat) :
    (g.insert t).2.contains u = true ↔ u = t ∨ g.contains u = true := by
  by_cases h : g.contains t = true
  · rw [insert_of_contains h]
    constructor
    · exact .inr
    · rintro (rfl | hu)
      · exact h
      · exact hu
  · rw [contains_eq_holds, holds_insert (eq_false_of_ne_true h), contains_eq_holds]

/-- What is in a graph after a triple has been taken out. -/
theorem contains_erase (g : GraphIndex) (prune : Bool) (t u : Triple Nat) :
    (g.erase prune t).2.contains u = true ↔ g.contains u = true ∧ u ≠ t := by
  by_cases h : g.contains t = true
  · rw [contains_eq_holds, holds_erase h, contains_eq_holds]
  · rw [erase_of_not_contains prune (eq_false_of_ne_true h)]
    refine ⟨fun hu => ⟨hu, ?_⟩, fun hu => hu.1⟩
    rintro rfl
    exact h hu

namespace Coherent

variable {g : GraphIndex}

theorem insert (hg : g.Coherent) (t : Triple Nat) : (g.insert t).2.Coherent := by
  by_cases h : g.contains t = true
  · rwa [insert_of_contains h]
  · intro order u
    rw [Bool.eq_iff_iff, contains_insert, holds_insert (eq_false_of_ne_true h), hg]

theorem erase (hg : g.Coherent) (prune : Bool) (t : Triple Nat) : (g.erase prune t).2.Coherent := by
  by_cases h : g.contains t = true
  · intro order u
    rw [Bool.eq_iff_iff, contains_erase, holds_erase h, hg]
  · rwa [erase_of_not_contains prune (eq_false_of_ne_true h)]

end Coherent

/-! ### Lookups -/

theorem matching_eq (g : GraphIndex) (pattern : Triple (Option Nat)) :
    g.matching pattern =
      ((g.tree (orderFor pattern)).lookUp ((orderFor pattern).keys pattern).1 ((orderFor pattern).keys pattern).2.1
        ((orderFor pattern).keys pattern).2.2).map fun (a, b, c) => (orderFor pattern).triple a b c := by
  simp [matching, Tree.lookUp, List.map_flatMap, Function.comp_def]

/-- A lookup lists the triples of the graph that agree with the pattern. -/
theorem Coherent.mem_matching {g : GraphIndex} (hg : g.Coherent) {pattern : Triple (Option Nat)} {t : Triple Nat} :
    t ∈ g.matching pattern ↔ g.contains t = true ∧ pattern.Matches t := by
  rw [matching_eq, ← hg (orderFor pattern) t, IndexOrder.matches_iff (orderFor pattern), holds, ← Tree.mem_lookUp]
  generalize orderFor pattern = order
  simp only [List.mem_map, Prod.exists]
  constructor
  · rintro ⟨a, b, c, h, rfl⟩
    rwa [IndexOrder.keys_triple]
  · exact fun h => ⟨_, _, _, h, IndexOrder.triple_keys order t⟩

/-- A lookup lists no triple twice. -/
theorem nodup_matching (g : GraphIndex) (pattern : Triple (Option Nat)) : (g.matching pattern).Nodup := by
  rw [matching_eq]
  refine (Tree.nodup_lookUp _ _ _ _).map ?_
  rintro ⟨a, b, c⟩ ⟨x, y, z⟩ h
  have := congrArg (orderFor pattern).keys h
  rwa [IndexOrder.keys_triple, IndexOrder.keys_triple] at this

/-- Counting the triples of a pattern gives the length of their list. -/
theorem count_eq (g : GraphIndex) (pattern : Triple (Option Nat)) : g.count pattern = (g.matching pattern).length := by
  rw [matching_eq, List.length_map, Tree.length_lookUp]
  simp only [length_membersAt]
  rfl

/-- The size of a coherent graph is the number of its triples. -/
theorem Coherent.size_eq {g : GraphIndex} (hg : g.Coherent) : g.size = g.toList.length := by
  -- the size is counted in another tree than the one that is listed
  have hsize : g.size = (g.bySubject.lookUp none none none).length := by
    rw [Tree.length_lookUp]
    simp only [length_membersAt]
    rfl
  have hperm : (g.toList.map IndexOrder.subjects.keys).Perm (g.bySubject.lookUp none none none) := by
    have hnodup : (g.toList.map IndexOrder.subjects.keys).Nodup :=
      (g.nodup_matching _).map fun t u h => IndexOrder.keys_inj.1 h
    rw [List.perm_ext_iff_of_nodup hnodup (Tree.nodup_lookUp _ _ _ _)]
    rintro ⟨a, b, c⟩
    rw [Tree.mem_lookUp, List.mem_map]
    constructor
    · rintro ⟨t, ht, heq⟩
      have hcontains := (hg.mem_matching.1 ht).1
      have hparts : t.subject = a ∧ t.predicate = b ∧ t.object = c := by simpa [IndexOrder.keys] using heq
      rw [← hparts.1, ← hparts.2.1, ← hparts.2.2]
      exact ⟨hcontains, by simp⟩
    · rintro ⟨h, -⟩
      have hmem : (⟨a, b, c⟩ : Triple Nat) ∈ g.toList := hg.mem_matching.2 ⟨h, by simp [Triple.Matches]⟩
      exact ⟨_, hmem, rfl⟩
  rw [hsize, ← hperm.length_eq, List.length_map]

/-- The triples of a graph. -/
def triples (g : GraphIndex) : Finset (Triple Nat) :=
  g.toList.toFinset

theorem Coherent.mem_triples {g : GraphIndex} (hg : g.Coherent) {t : Triple Nat} :
    t ∈ g.triples ↔ g.contains t = true := by
  rw [triples, List.mem_toFinset, toList, hg.mem_matching]
  simp [Triple.Matches]

theorem Coherent.card_triples {g : GraphIndex} (hg : g.Coherent) : g.triples.card = g.size := by
  rw [hg.size_eq]
  exact List.toFinset_card_of_nodup (g.nodup_matching _)

theorem Coherent.triples_insert {g : GraphIndex} (hg : g.Coherent) (t : Triple Nat) :
    (g.insert t).2.triples = Insert.insert t g.triples := by
  ext u
  rw [(hg.insert t).mem_triples, contains_insert, Finset.mem_insert, hg.mem_triples]

/-- A graph is empty when it has no triples. -/
theorem isEmpty_iff {g : GraphIndex} : g.isEmpty = true ↔ ∀ t, g.contains t = false := by
  simp only [isEmpty, List.all_eq_true, Prod.forall, Table.mem_toList, Table.isEmpty_iff_forall_notMem]
  constructor
  · rintro h ⟨a, b, c⟩
    rw [← Bool.not_eq_true]
    intro ht
    obtain ⟨branch, leaf, ha, hb, hc⟩ := Tree.contains_iff.1 ht
    exact h a branch ha b leaf hb c (Table.contains_iff_mem.1 hc)
  · intro h a branch ha b leaf hb c hc
    have ht := h ⟨a, b, c⟩
    rw [contains, Tree.contains_iff.2 ⟨branch, leaf, ha, hb, Table.contains_iff_mem.2 hc⟩] at ht
    cases ht

end GraphIndex

end RdfDataset
