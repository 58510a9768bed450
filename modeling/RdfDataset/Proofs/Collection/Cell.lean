import RdfDataset.Dataset.Collection
import RdfDataset.Proofs.Dataset.Enumerate
import RdfDataset.Proofs.Result

/-!
# Cells of collections

What it takes for a node to be a cell of a collection is said by the quads that it is the subject or the object of.

* `Dataset.IsCell`: a node has one item and one next cell, and is the subject of quads of one graph only.
* `Dataset.IsHead` and `Dataset.IsInner`: how the first cell and the other cells may be mentioned besides.
* `Cell.Finds`: what reading a node without finding a fault says about its quads.
* `Cell.exists_read`: a node that is a cell and is at most mentioned as a head is read without a fault.
-/

namespace RdfDataset

open Vocabulary.Rdf

namespace Cell

theorem isListArc_iff {q : Quad} : isListArc q = true ↔ q.predicate = firstTerm ∨ q.predicate = restTerm := by
  simp [isListArc]

theorem firstTerm_ne_restTerm : firstTerm ≠ restTerm := by
  decide

theorem isValid_listTerms : firstTerm.IsValid ∧ restTerm.IsValid ∧ nilTerm.IsValid := by
  simp only [firstTerm, restTerm, nilTerm, Term.isValid_iri]
  decide

/-! ### Arcs out of a cell -/

/-- How a cell changes when some arcs out of it are taken into account and nothing is wrong with them. -/
structure TakesOutgoing (graph : Term) (isReferenced : Bool) (qs : List Quad) (c c' : Cell) : Prop where
  confined : ∀ q ∈ qs, q.graph = graph
  item : c'.item.toList = c.item.toList ++ (qs.filter (·.predicate = firstTerm)).map Quad.object
  hasRest : c'.hasRest.toNat = c.hasRest.toNat + qs.countP (·.predicate = restTerm)
  isHead : c'.isHead.toNat = c.isHead.toNat + qs.countP (!isListArc ·)
  previous : c'.previous = c.previous
  arcs : c'.arcs = c.arcs ++ qs.filter isListArc
  eq_nil : c.isHead = true → qs = []
  not_referenced : qs.countP (!isListArc ·) ≠ 0 → isReferenced = false

variable {graph : Term} {isReferenced : Bool} {c c' : Cell}

private theorem takesOutgoing_single {q : Quad} (h : addOutgoing graph isReferenced c q = .ok c') :
    TakesOutgoing graph isReferenced [q] c c' := by
  unfold addOutgoing at h
  split at h
  · cases h
  rename_i hgraph
  split at h
  · cases h
  rename_i hhead
  split at h
  · rename_i hfirst
    have hrest : q.predicate ≠ restTerm := fun h => firstTerm_ne_restTerm (hfirst.symm.trans h)
    split at h
    · cases h
    · rename_i hitem
      rw [← Except.ok.inj h]
      constructor <;> simp_all [isListArc]
  · rename_i hfirst
    split at h
    · rename_i hrest
      split at h
      · cases h
      · rename_i hnone
        rw [← Except.ok.inj h]
        constructor <;> simp_all [isListArc]
    · rename_i hrest
      split at h
      · cases h
      · rename_i hreferenced
        rw [← Except.ok.inj h]
        constructor <;> simp_all [isListArc]

private theorem TakesOutgoing.cons {q : Quad} {qs : List Quad} {c'' : Cell}
    (h : TakesOutgoing graph isReferenced [q] c c') (h' : TakesOutgoing graph isReferenced qs c' c'') :
    TakesOutgoing graph isReferenced (q :: qs) c c'' where
  confined := by
    rintro r (_ | ⟨_, hr⟩)
    · exact h.confined q List.mem_cons_self
    · exact h'.confined r hr
  item := by
    rw [h'.item, h.item, List.append_assoc, ← List.map_append, ← List.filter_append, List.singleton_append]
  hasRest := by
    rw [h'.hasRest, h.hasRest, Nat.add_assoc, ← List.countP_append, List.singleton_append]
  isHead := by
    rw [h'.isHead, h.isHead, Nat.add_assoc, ← List.countP_append, List.singleton_append]
  previous := h'.previous.trans h.previous
  arcs := by
    rw [h'.arcs, h.arcs, List.append_assoc, ← List.filter_append, List.singleton_append]
  eq_nil hhead := absurd (h.eq_nil hhead) (List.cons_ne_nil q [])
  not_referenced hne := by
    by_cases hq : [q].countP (!isListArc ·) = 0
    · refine h'.not_referenced fun hzero => hne ?_
      rw [← List.singleton_append, List.countP_append, hq, hzero]
    · exact h.not_referenced hq

/-- What has been found when all arcs out of a cell have been taken into account. -/
theorem takesOutgoing {qs : List Quad} (h : qs.foldlM (addOutgoing graph isReferenced) c = .ok c') :
    TakesOutgoing graph isReferenced qs c c' := by
  induction qs generalizing c with
  | nil =>
    rw [← Except.ok.inj h]
    constructor <;> simp
  | cons q qs ih =>
    rw [List.foldlM_cons] at h
    obtain ⟨c₁, hq, hqs⟩ := bind_eq_ok.1 h
    exact (takesOutgoing_single hq).cons (ih hqs)

/-- List arcs are taken into account as long as no position is taken twice. -/
theorem exists_foldlM_addOutgoing {qs : List Quad} (hgraph : ∀ q ∈ qs, q.graph = graph)
    (harcs : ∀ q ∈ qs, isListArc q = true) (hhead : c.isHead = false)
    (hfirst : c.item.toList.length + qs.countP (·.predicate = firstTerm) ≤ 1)
    (hrest : c.hasRest.toNat + qs.countP (·.predicate = restTerm) ≤ 1) :
    ∃ c', qs.foldlM (addOutgoing graph isReferenced) c = .ok c' := by
  induction qs generalizing c with
  | nil => exact ⟨c, rfl⟩
  | cons q qs ih =>
    -- the first arc goes through, and the positions that it takes are counted on
    have hstep : ∃ c₁, addOutgoing graph isReferenced c q = .ok c₁ := by
      have hq := hgraph q List.mem_cons_self
      unfold addOutgoing
      rcases isListArc_iff.1 (harcs q List.mem_cons_self) with hp | hp
      · have hitem : c.item = none := by
          rw [List.countP_cons, decide_eq_true hp, if_pos rfl] at hfirst
          cases hitem : c.item with
          | none => rfl
          | some t => simp [hitem] at hfirst
        simp [hq, hhead, hp, hitem]
      · have hnone : c.hasRest = false := by
          rw [List.countP_cons, decide_eq_true hp, if_pos rfl] at hrest
          cases hnone : c.hasRest with
          | false => rfl
          | true => simp [hnone] at hrest
        simp [hq, hhead, hp, hnone, firstTerm_ne_restTerm.symm]
    obtain ⟨c₁, hc₁⟩ := hstep
    have htakes := takesOutgoing_single hc₁
    have hhead₁ : c₁.isHead = false := by
      have := htakes.isHead
      rw [hhead, List.countP_singleton, harcs q List.mem_cons_self] at this
      simpa using this
    rw [List.foldlM_cons, hc₁]
    refine ih (fun r hr => hgraph r (List.mem_cons_of_mem q hr)) (fun r hr => harcs r (List.mem_cons_of_mem q hr))
      hhead₁ ?_ ?_
    · rw [htakes.item, List.length_append, List.length_map, ← List.countP_eq_length_filter, Nat.add_assoc,
        ← List.countP_append]
      exact hfirst
    · rw [htakes.hasRest, Nat.add_assoc, ← List.countP_append]
      exact hrest

/-! ### Arcs into a cell -/

/-- How a cell changes when some arcs into it are taken into account and nothing is wrong with them. -/
structure TakesIncoming (qs : List Quad) (c c' : Cell) : Prop where
  item : c'.item = c.item
  hasRest : c'.hasRest = c.hasRest
  arcs : c'.arcs = c.arcs
  previous : c'.previous.toList = c.previous.toList ++ (qs.filter (·.predicate = restTerm)).map Quad.subject
  isHead : c'.isHead.toNat = c.isHead.toNat + qs.countP (·.predicate ≠ restTerm)

private theorem takesIncoming_single {q : Quad} (h : addIncoming c q = .ok c') : TakesIncoming [q] c c' := by
  unfold addIncoming at h
  split at h
  · cases h
  rename_i hhead
  split at h
  · rename_i hrest
    split at h
    · cases h
    · rename_i hprevious
      rw [← Except.ok.inj h]
      constructor <;> simp_all
  · rename_i hrest
    rw [← Except.ok.inj h]
    constructor <;> simp_all

private theorem TakesIncoming.cons {q : Quad} {qs : List Quad} {c'' : Cell} (h : TakesIncoming [q] c c')
    (h' : TakesIncoming qs c' c'') : TakesIncoming (q :: qs) c c'' where
  item := h'.item.trans h.item
  hasRest := h'.hasRest.trans h.hasRest
  arcs := h'.arcs.trans h.arcs
  previous := by
    rw [h'.previous, h.previous, List.append_assoc, ← List.map_append, ← List.filter_append, List.singleton_append]
  isHead := by
    rw [h'.isHead, h.isHead, Nat.add_assoc, ← List.countP_append, List.singleton_append]

/-- What has been found when all arcs into a cell have been taken into account. -/
theorem takesIncoming {qs : List Quad} (h : qs.foldlM addIncoming c = .ok c') : TakesIncoming qs c c' := by
  induction qs generalizing c with
  | nil =>
    rw [← Except.ok.inj h]
    constructor <;> simp
  | cons q qs ih =>
    rw [List.foldlM_cons] at h
    obtain ⟨c₁, hq, hqs⟩ := bind_eq_ok.1 h
    exact (takesIncoming_single hq).cons (ih hqs)

/-! ### Lists as sets -/

private theorem filter_toFinset (qs : List Quad) (p : Quad → Prop) [DecidablePred p] :
    qs.toFinset.filter p = (qs.filter (p ·)).toFinset := by
  simp [List.toFinset_filter]

private theorem card_filter_toFinset {qs : List Quad} (hqs : qs.Nodup) (p : Quad → Prop) [DecidablePred p] :
    (qs.toFinset.filter p).card = qs.countP (p ·) := by
  rw [filter_toFinset, List.toFinset_card_of_nodup (hqs.filter _), List.countP_eq_length_filter]

private theorem eq_singleton {qs : List Quad} {q : Quad} (hqs : qs.Nodup) (h : qs.toFinset = {q}) : qs = [q] := by
  refine List.perm_singleton.1 (List.perm_of_nodup_nodup_toFinset_eq hqs (List.nodup_singleton q) ?_)
  rw [h, List.toFinset_cons, List.toFinset_nil, insert_empty_eq]

end Cell

variable [Arrangement]

/-! ### Cells -/

namespace Dataset

/-- The quads that a node is the subject of. -/
def arcsFrom (d : Dataset) (node : Term) : Finset Quad :=
  d.quads.filter (·.subject = node)

/-- The quads that a node is the object of. -/
def arcsTo (d : Dataset) (node : Term) : Finset Quad :=
  d.quads.filter (·.object = node)

/-- A node has exactly one item and one next cell, both in a given graph, and nothing is stated about it in any other
graph. -/
structure IsCell (d : Dataset) (graph node item next : Term) : Prop where
  first : (d.arcsFrom node).filter (·.predicate = firstTerm) = {⟨node, firstTerm, item, graph⟩}
  rest : (d.arcsFrom node).filter (·.predicate = restTerm) = {⟨node, restTerm, next, graph⟩}
  confined : ∀ q ∈ d.arcsFrom node, q.graph = graph

/-- A node is the next cell of another one; nothing is stated about it besides its item and its next cell, and nothing
else refers to it in any graph. -/
structure IsInner (d : Dataset) (graph previous node : Term) : Prop where
  arcsFrom : ∀ q ∈ d.arcsFrom node, q.predicate = firstTerm ∨ q.predicate = restTerm
  arcsTo : d.arcsTo node = {⟨previous, restTerm, node, graph⟩}

/-- A node is the next cell of nothing, and at most one quad mentions it besides those of a cell. -/
structure IsHead (d : Dataset) (node : Term) : Prop where
  no_rest : ∀ q ∈ d.arcsTo node, q.predicate ≠ restTerm
  card_le : ((d.arcsFrom node).filter fun q => ¬(q.predicate = firstTerm ∨ q.predicate = restTerm)).card +
    (d.arcsTo node).card ≤ 1

theorem mem_arcsFrom {d : Dataset} {node : Term} {q : Quad} : q ∈ d.arcsFrom node ↔ q ∈ d.quads ∧ q.subject = node :=
  Finset.mem_filter

theorem mem_arcsTo {d : Dataset} {node : Term} {q : Quad} : q ∈ d.arcsTo node ↔ q ∈ d.quads ∧ q.object = node :=
  Finset.mem_filter

end Dataset

namespace Cell

/-! ### Both together -/

/-- What reading a node as a cell has found, when nothing is wrong with it. -/
structure Finds (d : Dataset) (graph node item : Term) (cell : Cell) : Prop where
  first : (d.arcsFrom node).filter (·.predicate = firstTerm) = {⟨node, firstTerm, item, graph⟩}
  card_rest : ((d.arcsFrom node).filter (·.predicate = restTerm)).card ≤ 1
  confined : ∀ q ∈ d.arcsFrom node, q.graph = graph
  isHead : ((d.arcsFrom node).filter fun q => ¬(q.predicate = firstTerm ∨ q.predicate = restTerm)).card +
    ((d.arcsTo node).filter (·.predicate ≠ restTerm)).card = cell.isHead.toNat
  not_both : ((d.arcsFrom node).filter fun q => ¬(q.predicate = firstTerm ∨ q.predicate = restTerm)) = ∅ ∨
    d.arcsTo node = ∅
  previous : (d.arcsTo node).filter (·.predicate = restTerm) = ∅ ∧ cell.previous = none ∨
    ∃ r, (d.arcsTo node).filter (·.predicate = restTerm) = {r} ∧ cell.previous = some r.subject

/-- The arcs out of a node, in the order in which they are looked at. -/
private def sortedArcs (d : Dataset) (node : Term) : List Quad :=
  (d.matching { subject := some node }).filter isListArc ++
    (d.matching { subject := some node }).filter (!isListArc ·)

variable {d : Dataset} {node item : Term}

private theorem sortedArcs_perm : (sortedArcs d node).Perm (d.matching { subject := some node }) :=
  List.filter_append_perm isListArc _

private theorem nodup_sortedArcs (hd : d.Consistent) : (sortedArcs d node).Nodup :=
  sortedArcs_perm.nodup_iff.2 (hd.nodup_matching _)

private theorem toFinset_outgoing (hd : d.Consistent) (hnode : d.terms.Distinguishes node) :
    (d.matching { subject := some node }).toFinset = d.arcsFrom node := by
  have hpattern : ({ subject := some node } : Pattern).DistinguishedBy d.terms := by
    constructor <;> simp [hnode]
  ext q
  rw [List.mem_toFinset, hd.mem_matching hpattern, Dataset.mem_arcsFrom]
  simp [Pattern.Matches]

private theorem toFinset_sortedArcs (hd : d.Consistent) (hnode : d.terms.Distinguishes node) :
    (sortedArcs d node).toFinset = d.arcsFrom node := by
  rw [List.toFinset_eq_of_perm _ _ sortedArcs_perm, toFinset_outgoing hd hnode]

theorem toFinset_incoming (hd : d.Consistent) (hnode : d.terms.Distinguishes node) :
    (d.matching { object := some node }).toFinset = d.arcsTo node := by
  have hpattern : ({ object := some node } : Pattern).DistinguishedBy d.terms := by
    constructor <;> simp [hnode]
  ext q
  rw [List.mem_toFinset, hd.mem_matching hpattern, Dataset.mem_arcsTo]
  simp [Pattern.Matches]

private theorem read_eq (isHead : Bool) :
    Cell.read d graph isHead node = (do
      let isReferenced := !(d.matching { object := some node }).isEmpty
      let cell ← (sortedArcs d node).foldlM (addOutgoing graph isReferenced) { isHead }
      let cell ← (d.matching { object := some node }).foldlM addIncoming cell
      match cell.item with
      | some item => return (item, cell)
      | none => throw .missingFirst) :=
  rfl

/-- Reading a node without a fault goes through the arcs out of it and then through those into it. -/
private theorem exists_of_read {isHead : Bool} {cell : Cell} (h : Cell.read d graph isHead node = .ok (item, cell)) :
    ∃ c, (sortedArcs d node).foldlM (addOutgoing graph (!(d.matching { object := some node }).isEmpty)) { isHead } =
        .ok c ∧
      (d.matching { object := some node }).foldlM addIncoming c = .ok cell ∧ cell.item = some item := by
  rw [read_eq] at h
  obtain ⟨c₁, hout, h⟩ := bind_eq_ok.1 h
  obtain ⟨c₂, hin, h⟩ := bind_eq_ok.1 h
  cases hitem : c₂.item with
  | none => simp [hitem] at h
  | some t =>
    simp only [hitem, pure_eq_ok, Prod.mk.injEq] at h
    obtain ⟨rfl, rfl⟩ := h
    exact ⟨c₁, hout, hin, hitem⟩

/-- Reading a node without finding a fault. -/
theorem finds_of_read (hd : d.Consistent) (hnode : d.terms.Distinguishes node) {cell : Cell}
    (h : Cell.read d graph false node = .ok (item, cell)) : Finds d graph node item cell := by
  obtain ⟨c₁, hout, hin, hitem⟩ := exists_of_read h
  have hout := takesOutgoing hout
  have hin := takesIncoming hin
  have harcs : (sortedArcs d node).Nodup := nodup_sortedArcs hd
  have hfrom := toFinset_sortedArcs hd hnode
  have hto := toFinset_incoming hd hnode
  have hothers : ((d.arcsFrom node).filter fun q => ¬(q.predicate = firstTerm ∨ q.predicate = restTerm)).card =
      (sortedArcs d node).countP (!isListArc ·) := by
    rw [← hfrom, card_filter_toFinset harcs]
    simp [isListArc]
  have hmem : ∀ q, q ∈ sortedArcs d node ↔ q ∈ d.arcsFrom node := fun q => by rw [← hfrom, List.mem_toFinset]
  constructor
  · have hfirst : ((sortedArcs d node).filter (·.predicate = firstTerm)).map Quad.object = [item] := by
      have := hout.item
      rw [← hin.item, hitem] at this
      exact this.symm
    obtain ⟨f, hf, hobject⟩ := List.map_eq_singleton_iff.1 hfirst
    obtain ⟨hfmem, hpredicate⟩ := List.mem_filter.1 (hf ▸ List.mem_singleton_self f)
    have hfeq : f = ⟨node, firstTerm, item, graph⟩ := by
      obtain ⟨s, p, o, g⟩ := f
      have hs : s = node := (Dataset.mem_arcsFrom.1 ((hmem _).1 hfmem)).2
      have hg : g = graph := hout.confined _ hfmem
      rw [← hs, ← hg, ← hobject, ← of_decide_eq_true hpredicate]
    rw [← hfrom, filter_toFinset, hf, hfeq]
    rfl
  · rw [← hfrom, card_filter_toFinset harcs]
    have := hout.hasRest
    have hle := Bool.toNat_le c₁.hasRest
    omega
  · exact fun q hq => hout.confined q ((hmem q).2 hq)
  · have hout := hout.isHead
    rw [hothers, ← hto, card_filter_toFinset (hd.nodup_matching _), hin.isHead, hout]
    simp
  · rw [← Finset.card_eq_zero, hothers]
    by_cases hzero : (sortedArcs d node).countP (!isListArc ·) = 0
    · exact .inl hzero
    · -- an arc that is no list arc is a fault if anything refers to the node
      right
      have := hout.not_referenced hzero
      rw [← hto]
      simpa using this
  · have hprevious := hin.previous
    rw [hout.previous] at hprevious
    rw [← hto]
    cases h : cell.previous with
    | none =>
      left
      rw [h] at hprevious
      have hnil : (d.matching { object := some node }).filter (·.predicate = restTerm) = [] :=
        List.map_eq_nil_iff.1 hprevious.symm
      rw [filter_toFinset, hnil]
      exact ⟨rfl, rfl⟩
    | some p =>
      right
      rw [h] at hprevious
      obtain ⟨r, hr, hsubject⟩ := List.map_eq_singleton_iff.1 hprevious.symm
      rw [filter_toFinset, hr]
      exact ⟨r, rfl, congrArg some hsubject.symm⟩

/-- The arcs that reading a node gathers are the list arcs out of it. -/
private theorem arcs_eq_of_read {isHead : Bool} {cell : Cell} (h : Cell.read d graph isHead node = .ok (item, cell)) :
    cell.arcs = (sortedArcs d node).filter isListArc := by
  obtain ⟨c₁, hout, hin, -⟩ := exists_of_read h
  rw [(takesIncoming hin).arcs, (takesOutgoing hout).arcs, List.nil_append]

theorem arcs_subset_of_read (hd : d.Consistent) {isHead : Bool} {cell : Cell}
    (h : Cell.read d graph isHead node = .ok (item, cell)) : ∀ q ∈ cell.arcs, q ∈ d.quads := by
  intro q hq
  rw [arcs_eq_of_read h] at hq
  exact hd.mem_quads_of_mem_matching (sortedArcs_perm.mem_iff.1 (List.mem_of_mem_filter hq))

theorem mem_arcs_of_read (hd : d.Consistent) (hnode : d.terms.Distinguishes node) {isHead : Bool} {cell : Cell}
    (h : Cell.read d graph isHead node = .ok (item, cell)) {q : Quad} :
    q ∈ cell.arcs ↔ q ∈ d.arcsFrom node ∧ isListArc q = true := by
  rw [arcs_eq_of_read h, List.mem_filter, ← List.mem_toFinset, toFinset_sortedArcs hd hnode]

/-- A node that something is stated about is not read as a cell in front of a head. -/
theorem not_read_of_isHead (graph : Term) (hd : d.Consistent) (hnode : d.terms.Distinguishes node)
    (hfrom : (d.arcsFrom node).Nonempty) : ∃ violation, Cell.read d graph true node = .error violation := by
  cases h : Cell.read d graph true node with
  | error violation => exact ⟨violation, rfl⟩
  | ok result =>
    obtain ⟨c₁, hout, -⟩ := exists_of_read h
    have hnil := (takesOutgoing hout).eq_nil rfl
    rw [← toFinset_sortedArcs hd hnode, hnil] at hfrom
    exact absurd hfrom Finset.not_nonempty_empty

namespace Finds

variable {cell : Cell}

/-- A node that is read without a fault is a cell, if anything is its next cell. -/
theorem isCell (h : Finds d graph node item cell) {r : Quad} (hr : r ∈ d.arcsFrom node)
    (hrest : r.predicate = restTerm) : d.IsCell graph node item r.object where
  first := h.first
  rest := by
    have hmem : r ∈ (d.arcsFrom node).filter (·.predicate = restTerm) := Finset.mem_filter.2 ⟨hr, hrest⟩
    have hr' : (⟨node, restTerm, r.object, graph⟩ : Quad) = r := by
      rw [← (Dataset.mem_arcsFrom.1 hr).2, ← hrest, ← h.confined r hr]
    rw [hr', Finset.eq_singleton_iff_unique_mem]
    exact ⟨hmem, fun q hq => Finset.card_le_one.1 h.card_rest q hq r hmem⟩
  confined := h.confined

theorem isHead_of_previous (h : Finds d graph node item cell) (hprevious : cell.previous = none) : d.IsHead node where
  no_rest := by
    obtain ⟨hnone, -⟩ | ⟨r, -, hsome⟩ := h.previous
    · intro q hq hrest
      exact Finset.eq_empty_iff_forall_notMem.1 hnone q (Finset.mem_filter.2 ⟨hq, hrest⟩)
    · rw [hprevious] at hsome
      cases hsome
  card_le := by
    have hall : (d.arcsTo node).filter (·.predicate ≠ restTerm) = d.arcsTo node := by
      refine Finset.filter_true_of_mem fun q hq hrest => ?_
      obtain ⟨hnone, -⟩ | ⟨r, -, hsome⟩ := h.previous
      · exact Finset.eq_empty_iff_forall_notMem.1 hnone q (Finset.mem_filter.2 ⟨hq, hrest⟩)
      · rw [hprevious] at hsome
        cases hsome
    have hcard := h.isHead
    rw [hall] at hcard
    rw [hcard]
    exact Bool.toNat_le _

/-- A node with a cell before it that is read without a fault is mentioned once more at most, as the object of a quad
that only a head may have. -/
theorem exists_arc_of_previous (h : Finds d graph node item cell) {p : Term} (hprevious : cell.previous = some p) :
    ∃ r ∈ d.arcsTo node, r.predicate = restTerm ∧ r.subject = p ∧
      (∀ q ∈ d.arcsFrom node, q.predicate = firstTerm ∨ q.predicate = restTerm) ∧
      (d.arcsTo node).card = 1 + cell.isHead.toNat := by
  obtain ⟨-, hnone⟩ | ⟨r, hr, hsome⟩ := h.previous
  · rw [hprevious] at hnone
    cases hnone
  · obtain ⟨hmem, hrest⟩ := Finset.mem_filter.1 (hr ▸ Finset.mem_singleton_self r)
    have hothers := h.not_both.resolve_right (Finset.ne_empty_of_mem hmem)
    refine ⟨r, hmem, hrest, Option.some.inj (hsome.symm.trans hprevious), fun q hq => ?_, ?_⟩
    · by_contra hother
      exact Finset.eq_empty_iff_forall_notMem.1 hothers q (Finset.mem_filter.2 ⟨hq, hother⟩)
    · have hcard := h.isHead
      rw [hothers, Finset.card_empty, Nat.zero_add] at hcard
      rw [← Finset.card_filter_add_card_filter_not (·.predicate = restTerm), hr, Finset.card_singleton, hcard]

end Finds

/-! ### Cells that are read -/

omit [Arrangement] in
/-- Behind the list arcs of a cell, one more arc out of it or into it is taken into account. -/
private theorem exists_foldlM_of_length_le {others incoming : List Quad} (hgraph : ∀ q ∈ others, q.graph = graph)
    (hothers : ∀ q ∈ others, isListArc q = false) (hlength : others.length + incoming.length ≤ 1)
    (hhead : c.isHead = false) (hprevious : c.previous = none) :
    ∃ c₁, others.foldlM (addOutgoing graph (!incoming.isEmpty)) c = .ok c₁ ∧
      ∃ c₂, incoming.foldlM addIncoming c₁ = .ok c₂ ∧ c₂.item = c.item := by
  cases others with
  | nil =>
    refine ⟨c, rfl, ?_⟩
    cases incoming with
    | nil => exact ⟨c, rfl, rfl⟩
    | cons q qs =>
      rw [List.length_nil, List.length_cons] at hlength
      obtain rfl : qs = [] := List.eq_nil_of_length_eq_zero (by omega)
      have hstep : ∃ c₂, addIncoming c q = .ok c₂ := by
        rw [addIncoming, hhead, hprevious]
        by_cases hrest : q.predicate = restTerm <;> simp [hrest]
      obtain ⟨c₂, hc₂⟩ := hstep
      refine ⟨c₂, ?_, (takesIncoming_single hc₂).item⟩
      rw [List.foldlM_cons, hc₂]
      rfl
  | cons q qs =>
    rw [List.length_cons] at hlength
    obtain rfl : qs = [] := List.eq_nil_of_length_eq_zero (by omega)
    obtain rfl : incoming = [] := List.eq_nil_of_length_eq_zero (by omega)
    have hq := hgraph q List.mem_cons_self
    have hother := hothers q List.mem_cons_self
    obtain ⟨hfirst, hrest⟩ := not_or.1 (isListArc_iff.not.1 (Bool.eq_false_iff.1 hother))
    refine ⟨{ c with isHead := true }, ?_, _, rfl, rfl⟩
    rw [List.foldlM_cons]
    simp [addOutgoing, hq, hhead, hfirst, hrest]

/-- Among the arcs that are looked at first, each position of a cell is taken once. -/
private theorem exists_foldlM_listArcs (hd : d.Consistent) (hnode : d.terms.Distinguishes node) {next : Term}
    (hcell : d.IsCell graph node item next) (isReferenced : Bool) :
    ∃ c, ((d.matching { subject := some node }).filter isListArc).foldlM (addOutgoing graph isReferenced) {} = .ok c ∧
      c.item = some item ∧ c.isHead = false ∧ c.previous = none := by
  have hfrom := toFinset_outgoing hd hnode
  have hout := hd.nodup_matching { subject := some node }
  generalize d.matching { subject := some node } = outgoing at *
  have hfirst : (outgoing.filter isListArc).filter (·.predicate = firstTerm) = [⟨node, firstTerm, item, graph⟩] := by
    refine eq_singleton ((hout.filter _).filter _) ?_
    rw [← hcell.first, ← hfrom]
    ext q
    simp only [List.mem_toFinset, List.mem_filter, Finset.mem_filter, isListArc_iff, decide_eq_true_eq]
    tauto
  have hrest : (outgoing.filter isListArc).filter (·.predicate = restTerm) = [⟨node, restTerm, next, graph⟩] := by
    refine eq_singleton ((hout.filter _).filter _) ?_
    rw [← hcell.rest, ← hfrom]
    ext q
    simp only [List.mem_toFinset, List.mem_filter, Finset.mem_filter, isListArc_iff, decide_eq_true_eq]
    tauto
  have hconfined : ∀ q ∈ outgoing.filter isListArc, q.graph = graph := by
    intro q hq
    refine hcell.confined q ?_
    rw [← hfrom]
    exact List.mem_toFinset.2 (List.mem_of_mem_filter hq)
  obtain ⟨c, hc⟩ : ∃ c, (outgoing.filter isListArc).foldlM (addOutgoing graph isReferenced) {} = .ok c := by
    refine exists_foldlM_addOutgoing hconfined (fun q hq => List.of_mem_filter hq) rfl ?_ ?_
    · rw [List.countP_eq_length_filter, hfirst]
      rfl
    · rw [List.countP_eq_length_filter, hrest]
      rfl
  have htakes := takesOutgoing hc
  have hitem := htakes.item
  rw [hfirst] at hitem
  have hhead := htakes.isHead
  rw [List.countP_eq_length_filter, List.filter_filter] at hhead
  exact ⟨c, hc, Option.toList_eq_singleton_iff.1 hitem, by simpa using hhead, htakes.previous⟩

/-- A cell that is mentioned only as the cells of collections may be is read without a fault. -/
theorem exists_read (hd : d.Consistent) (hnode : d.terms.Distinguishes node) {next : Term}
    (hcell : d.IsCell graph node item next) (hplace : d.IsHead node ∨ ∃ previous, d.IsInner graph previous node) :
    ∃ cell, Cell.read d graph false node = .ok (item, cell) := by
  have hfrom := toFinset_outgoing hd hnode
  have hto := toFinset_incoming hd hnode
  have hout := hd.nodup_matching { subject := some node }
  have hin := hd.nodup_matching { object := some node }
  have hmem : ∀ q ∈ d.matching { subject := some node }, q ∈ d.arcsFrom node := fun q hq => by
    rw [← hfrom]
    exact List.mem_toFinset.2 hq
  obtain ⟨c₁, hc₁, hitem, hhead, hprevious⟩ :=
    exists_foldlM_listArcs hd hnode hcell (!(d.matching { object := some node }).isEmpty)
  rw [read_eq, sortedArcs]
  dsimp only
  generalize d.matching { subject := some node } = outgoing at *
  generalize d.matching { object := some node } = incoming at *
  have hothers : ((d.arcsFrom node).filter fun q => ¬(q.predicate = firstTerm ∨ q.predicate = restTerm)).card =
      (outgoing.filter (!isListArc ·)).length := by
    rw [← hfrom, card_filter_toFinset hout, List.countP_eq_length_filter]
    simp [isListArc]
  -- behind the list arcs there is at most one more arc, out of the node or into it
  have hlength : (outgoing.filter (!isListArc ·)).length + incoming.length ≤ 1 := by
    rw [← hothers, ← List.toFinset_card_of_nodup hin, hto]
    obtain hhead | ⟨previous, hinner⟩ := hplace
    · exact hhead.card_le
    · rw [hinner.arcsTo, Finset.card_singleton, Finset.filter_false_of_mem fun q hq => not_not.2 (hinner.arcsFrom q hq)]
      simp
  obtain ⟨c₂, hc₂, c₃, hc₃, hsame⟩ := exists_foldlM_of_length_le
    (fun q hq => hcell.confined q (hmem q (List.mem_of_mem_filter hq)))
    (fun q hq => by simpa using List.of_mem_filter hq) hlength hhead hprevious
  refine ⟨c₃, ?_⟩
  rw [List.foldlM_append, hc₁]
  simp only [bind, Except.bind, hc₂, hc₃, hsame, hitem]
  rfl

/-! ### Cells that are referred to twice -/

omit [Arrangement] in
/-- When a cell comes before a node, nothing else refers to the node, or one more quad that is looked at afterwards. -/
private theorem eq_of_previous {incoming : List Quad} {p : Term} (h : incoming.foldlM addIncoming c = .ok c')
    (hhead : c.isHead = false) (hnone : c.previous = none) (hsome : c'.previous = some p) :
    ∃ r, r.predicate = restTerm ∧ r.subject = p ∧ (incoming = [r] ∧ c'.isHead = false ∨
      ∃ q, q.predicate ≠ restTerm ∧ incoming = [r, q] ∧ c'.isHead = true) := by
  cases incoming with
  | nil =>
    rw [← Except.ok.inj h, hnone] at hsome
    cases hsome
  | cons r qs =>
    rw [List.foldlM_cons] at h
    obtain ⟨c₁, hc₁, h⟩ := bind_eq_ok.1 h
    rw [addIncoming, hhead, hnone] at hc₁
    by_cases hr : r.predicate = restTerm
    · have hc₁ : c₁ = { c with previous := some r.subject, isHead := false } := by simpa [hr] using hc₁.symm
      refine ⟨r, hr, ?_⟩
      cases qs with
      | nil =>
        rw [← Except.ok.inj h, hc₁] at hsome ⊢
        exact ⟨Option.some.inj hsome, .inl ⟨rfl, rfl⟩⟩
      | cons q qs =>
        rw [List.foldlM_cons] at h
        obtain ⟨c₂, hc₂, h⟩ := bind_eq_ok.1 h
        rw [addIncoming, hc₁] at hc₂
        have hq : q.predicate ≠ restTerm := by
          intro hq
          simp [hq] at hc₂
        have hc₂ : c₂ = { c with previous := some r.subject, isHead := true } := by simpa [hhead, hq] using hc₂.symm
        cases qs with
        | nil =>
          rw [← Except.ok.inj h, hc₂] at hsome ⊢
          exact ⟨Option.some.inj hsome, .inr ⟨q, hq, rfl, rfl⟩⟩
        | cons q' qs => simp [hc₂, addIncoming] at h
    · have hc₁ : c₁ = { c with previous := none, isHead := true } := by simpa [hr] using hc₁.symm
      cases qs with
      | nil =>
        rw [← Except.ok.inj h, hc₁] at hsome
        cases hsome
      | cons q qs => simp [hc₁, addIncoming] at h

/-- What refers to a node that is read without a fault and that a cell comes before. -/
theorem incoming_of_read (hd : d.Consistent) (hnode : d.terms.Distinguishes node) {cell : Cell}
    (h : Cell.read d graph false node = .ok (item, cell)) {p : Term} (hprevious : cell.previous = some p) :
    ∃ r, r.predicate = restTerm ∧ r.subject = p ∧
      (d.matching { object := some node } = [r] ∧ cell.isHead = false ∨
        ∃ q, q.predicate ≠ restTerm ∧ d.matching { object := some node } = [r, q] ∧ cell.isHead = true) := by
  obtain ⟨r₀, hr₀, -, -, harcs, -⟩ := (finds_of_read hd hnode h).exists_arc_of_previous hprevious
  have hfrom := toFinset_sortedArcs hd hnode
  obtain ⟨c₁, hout, hin, -⟩ := exists_of_read h
  have htakes := takesOutgoing hout
  have hlist : (sortedArcs d node).countP (!isListArc ·) = 0 := by
    rw [List.countP_eq_zero]
    intro q hq
    rw [← List.mem_toFinset, hfrom] at hq
    simp [isListArc_iff.2 (harcs q hq)]
  have hhead : c₁.isHead = false := by
    have := htakes.isHead
    rw [hlist] at this
    simpa using this
  exact eq_of_previous hin hhead htakes.previous hprevious

/-- A cell that one more quad refers to, which is looked at last, is taken for a head although a cell comes before
it. -/
theorem exists_read_of_incoming (hd : d.Consistent) (hnode : d.terms.Distinguishes node) {next : Term}
    (hcell : d.IsCell graph node item next)
    (harcs : ∀ q ∈ d.arcsFrom node, q.predicate = firstTerm ∨ q.predicate = restTerm) {r q : Quad}
    (hincoming : d.matching { object := some node } = [r, q]) (hr : r.predicate = restTerm)
    (hq : q.predicate ≠ restTerm) :
    ∃ cell, Cell.read d graph false node = .ok (item, cell) ∧ cell.previous = some r.subject ∧ cell.isHead = true := by
  obtain ⟨c, hc, hitem, hhead, hprevious⟩ := exists_foldlM_listArcs hd hnode hcell true
  have hothers : (d.matching { subject := some node }).filter (!isListArc ·) = [] := by
    rw [List.filter_eq_nil_iff]
    intro q hq
    rw [← List.mem_toFinset, toFinset_outgoing hd hnode] at hq
    simp [isListArc_iff.2 (harcs q hq)]
  refine ⟨{ c with previous := some r.subject, isHead := true }, ?_, rfl, rfl⟩
  rw [read_eq, sortedArcs, hothers, List.append_nil, hincoming]
  simp [hc, addIncoming, hhead, hprevious, hr, hq, hitem]

end Cell

end RdfDataset
