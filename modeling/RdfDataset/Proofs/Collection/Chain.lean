import RdfDataset.Proofs.Collection.Cell

/-!
# Chains of cells

A chain that is followed backwards from its last cell is a collection, or some cell on the way is at fault.

* `Dataset.IsCollection`: the cells of a well-formed collection with their items.
* `Approaches` is what holds on the way: the cells so far are in order and the next one to be read is in front of them.
* `followChain_of_isCollection`: every collection is found from its last cell.
* `isCollection_of_followChain`: nothing else is found.
* `Dataset.Chained.eq_last_of_mem`: cells can lead to themselves again through `rdf:nil` only.
-/

namespace RdfDataset

open Vocabulary.Rdf

namespace Dataset

/-- Where some cells begin; no cells are the empty list. -/
def start (cells : List (Term × Term)) : Term :=
  (cells.head?.map Prod.fst).getD nilTerm

@[simp]
theorem start_cons (cell : Term × Term) (cells : List (Term × Term)) : start (cell :: cells) = cell.1 := rfl

variable [Arrangement]

/-- Cells with their items, each of which but the last one leads to the one behind it, and the last one to the empty
list. -/
def Chained (d : Dataset) (graph : Term) : List (Term × Term) → Prop
  | [] => True
  | (cell, item) :: cells =>
    d.IsCell graph cell item (start cells) ∧ (∀ next ∈ cells.head?, d.IsInner graph cell next.1) ∧ Chained d graph cells

/-- The cells of a well-formed collection of a graph, with their items. -/
structure IsCollection (d : Dataset) (graph : Term) (cells : List (Term × Term)) : Prop where
  ne_nil : cells ≠ []
  head : d.IsHead (start cells)
  chained : d.Chained graph cells

/-- A quad leads from one of some cells to its item or to the next cell. -/
structure IsListArcOf (d : Dataset) (cells : List (Term × Term)) (q : Quad) : Prop where
  mem : q ∈ d.quads
  subject : q.subject ∈ cells.map Prod.fst
  predicate : q.predicate = firstTerm ∨ q.predicate = restTerm

variable {d : Dataset} {graph node : Term} {cells : List (Term × Term)}

/-! ### Arcs of cells -/

theorem isListArcOf_iff {q : Quad} : d.IsListArcOf cells q ↔
    q ∈ d.quads ∧ q.subject ∈ cells.map Prod.fst ∧ (q.predicate = firstTerm ∨ q.predicate = restTerm) :=
  ⟨fun h => ⟨h.mem, h.subject, h.predicate⟩, fun h => ⟨h.1, h.2.1, h.2.2⟩⟩

theorem isListArcOf_append {cells' : List (Term × Term)} {q : Quad} :
    d.IsListArcOf (cells ++ cells') q ↔ d.IsListArcOf cells q ∨ d.IsListArcOf cells' q := by
  simp only [isListArcOf_iff, List.map_append, List.mem_append]
  tauto

theorem IsCell.first_mem {item next : Term} (h : d.IsCell graph node item next) :
    (⟨node, firstTerm, item, graph⟩ : Quad) ∈ d.quads := by
  have hmem := Finset.mem_singleton_self (⟨node, firstTerm, item, graph⟩ : Quad)
  rw [← h.first] at hmem
  exact (mem_arcsFrom.1 (Finset.mem_of_mem_filter _ hmem)).1

theorem IsCell.rest_mem {item next : Term} (h : d.IsCell graph node item next) :
    (⟨node, restTerm, next, graph⟩ : Quad) ∈ d.quads := by
  have hmem := Finset.mem_singleton_self (⟨node, restTerm, next, graph⟩ : Quad)
  rw [← h.rest] at hmem
  exact (mem_arcsFrom.1 (Finset.mem_of_mem_filter _ hmem)).1

/-- A cell has no other next cell, in any graph. -/
theorem IsCell.eq_of_rest {item next : Term} (h : d.IsCell graph node item next) {r : Quad} (hr : r ∈ d.quads)
    (hsubject : r.subject = node) (hrest : r.predicate = restTerm) : r = ⟨node, restTerm, next, graph⟩ := by
  have hmem : r ∈ (d.arcsFrom node).filter (·.predicate = restTerm) :=
    Finset.mem_filter.2 ⟨mem_arcsFrom.2 ⟨hr, hsubject⟩, hrest⟩
  rw [h.rest] at hmem
  exact Finset.mem_singleton.1 hmem

/-- A cell has no other item, in any graph. -/
theorem IsCell.eq_of_first {item next : Term} (h : d.IsCell graph node item next) {q : Quad} (hq : q ∈ d.quads)
    (hsubject : q.subject = node) (hfirst : q.predicate = firstTerm) : q = ⟨node, firstTerm, item, graph⟩ := by
  have hmem : q ∈ (d.arcsFrom node).filter (·.predicate = firstTerm) :=
    Finset.mem_filter.2 ⟨mem_arcsFrom.2 ⟨hq, hsubject⟩, hfirst⟩
  rw [h.first] at hmem
  exact Finset.mem_singleton.1 hmem

theorem Chained.of_append {before : List (Term × Term)} (h : d.Chained graph (before ++ cells)) :
    d.Chained graph cells := by
  induction before with
  | nil => exact h
  | cons cell before ih => exact ih h.2.2

/-- Every cell leads to what is behind it. -/
theorem Chained.exists_of_mem (h : d.Chained graph cells) {cell : Term × Term} (hcell : cell ∈ cells) :
    ∃ before after, cells = before ++ cell :: after ∧ d.IsCell graph cell.1 cell.2 (start after) := by
  obtain ⟨before, after, rfl⟩ := List.append_of_mem hcell
  exact ⟨before, after, rfl, h.of_append.1⟩

/-- Every cell but the first one is behind another one. -/
theorem Chained.isInner_of_mem (h : d.Chained graph cells) {item : Term} (hcell : (node, item) ∈ cells) :
    (∃ next, d.IsCell graph node item next) ∧
      (node = start cells ∨ ∃ previous ∈ cells.map Prod.fst, d.IsInner graph previous node) := by
  obtain ⟨before, after, rfl⟩ := List.append_of_mem hcell
  refine ⟨⟨_, h.of_append.1⟩, ?_⟩
  obtain rfl | ⟨before, ⟨previous, item'⟩, rfl⟩ := List.eq_nil_or_concat' before
  · exact .inl rfl
  · rw [List.append_assoc] at h
    exact .inr ⟨previous, by simp, h.of_append.2.1 _ rfl⟩

/-! ### Chains that end -/

/-- Nothing follows `rdf:nil`. -/
def NilEnds (d : Dataset) : Prop :=
  ∀ q ∈ d.quads, q.subject = nilTerm → q.predicate ≠ restTerm

theorem Chained.start_ne_nil (h : d.Chained graph cells) (hnil : d.NilEnds) (hcells : cells ≠ []) :
    start cells ≠ nilTerm := by
  obtain ⟨⟨cell, item⟩, cells, rfl⟩ := List.exists_cons_of_ne_nil hcells
  exact fun heq => hnil _ h.1.rest_mem heq rfl

/-- One of some cells can lead to the first one only if it is the last one, and the first one is `rdf:nil`. -/
theorem Chained.eq_last_of_mem (h : d.Chained graph cells) (hnodup : (cells.map Prod.fst).Nodup) {r : Quad}
    (hr : r ∈ d.quads) (hrest : r.predicate = restTerm) (hobject : r.object = start cells)
    (hmem : r.subject ∈ cells.map Prod.fst) :
    start cells = nilTerm ∧ ∃ before item, cells = before ++ [(r.subject, item)] := by
  obtain ⟨⟨cell, item⟩, hcell, hsubject⟩ := List.mem_map.1 hmem
  obtain ⟨before, after, rfl, hiscell⟩ := h.exists_of_mem hcell
  obtain rfl : cell = r.subject := hsubject
  -- this cell leads to what is behind it and to the first one
  have hnext : start after = start (before ++ (r.subject, item) :: after) := by
    rw [← hobject, hiscell.eq_of_rest hr rfl hrest]
  cases after with
  | nil => exact ⟨hnext.symm, before, item, rfl⟩
  | cons next after =>
    have hdisjoint : ∀ t ∈ (before ++ [(r.subject, item)]).map Prod.fst, t ∉ (next :: after).map Prod.fst := by
      rw [List.append_cons, List.map_append, List.nodup_append] at hnodup
      exact fun t ht ht' => hnodup.2.2 t ht t ht' rfl
    have hfirst : start (before ++ (r.subject, item) :: next :: after) ∈
        (before ++ [(r.subject, item)]).map Prod.fst := by
      cases before <;> simp
    refine absurd ?_ (hdisjoint _ hfirst)
    rw [← hnext]
    simp

/-- What leads to the first one of some cells is none of them. -/
theorem Chained.notMem (h : d.Chained graph cells) (hnil : d.NilEnds) (hnodup : (cells.map Prod.fst).Nodup) {r : Quad}
    (hr : r ∈ d.quads) (hrest : r.predicate = restTerm) (hobject : r.object = start cells) :
    r.subject ∉ cells.map Prod.fst := by
  intro hmem
  refine h.start_ne_nil hnil ?_ (h.eq_last_of_mem hnodup hr hrest hobject hmem).1
  rintro rfl
  cases hmem

theorem Chained.nodup (h : d.Chained graph cells) (hnil : d.NilEnds) : (cells.map Prod.fst).Nodup := by
  induction cells with
  | nil => exact List.nodup_nil
  | cons cell cells ih =>
    have hcells := ih h.2.2
    rw [List.map_cons, List.nodup_cons]
    exact ⟨h.2.2.notMem hnil hcells h.1.rest_mem rfl rfl, hcells⟩

/-- Cells are determined by the first one. -/
theorem Chained.unique (h : d.Chained graph cells) (hnil : d.NilEnds) {graph' : Term} {cells' : List (Term × Term)}
    (h' : d.Chained graph' cells') (hstart : start cells = start cells') : cells = cells' := by
  induction cells generalizing cells' with
  | nil =>
    cases cells' with
    | nil => rfl
    | cons cell cells' => exact absurd hstart.symm (h'.start_ne_nil hnil (List.cons_ne_nil _ _))
  | cons cell cells ih =>
    obtain ⟨cell, item⟩ := cell
    cases cells' with
    | nil => exact absurd hstart (h.start_ne_nil hnil (List.cons_ne_nil _ _))
    | cons cell' cells' =>
      obtain ⟨cell', item'⟩ := cell'
      obtain rfl : cell = cell' := hstart
      have hitem : item = item' := congrArg Quad.object (h'.1.eq_of_first h.1.first_mem rfl rfl)
      have hnext : start cells = start cells' := congrArg Quad.object (h'.1.eq_of_rest h.1.rest_mem rfl rfl)
      rw [hitem, ih h.2.2 h'.2.2 hnext]

/-- Nodes that something is stated about are no more than there are subjects. -/
theorem length_le_subjects (hd : d.Consistent) {nodes : List Term} (hnodup : nodes.Nodup)
    (h : ∀ t ∈ nodes, ∃ q ∈ d.quads, q.subject = t) : nodes.length ≤ (d.subjects {}).length :=
  (List.subperm_of_subset hnodup fun t ht => hd.mem_subjects.2 (h t ht)).length_le

/-- Something is stated about every cell. -/
theorem Chained.exists_subject (h : d.Chained graph cells) {t : Term} (ht : t ∈ cells.map Prod.fst) :
    ∃ q ∈ d.quads, q.subject = t := by
  obtain ⟨cell, hcell, rfl⟩ := List.mem_map.1 ht
  obtain ⟨_, _, -, hiscell⟩ := h.exists_of_mem hcell
  exact ⟨_, hiscell.rest_mem, rfl⟩

/-- One more node that is a subject, in front of cells or anywhere else. -/
theorem Chained.length_lt_subjects (h : d.Chained graph cells) (hd : d.Consistent)
    (hnode : ∃ q ∈ d.quads, q.subject = node) (hnodup : (node :: cells.map Prod.fst).Nodup) :
    cells.length < (d.subjects {}).length := by
  have hsubjects : ∀ t ∈ node :: cells.map Prod.fst, ∃ q ∈ d.quads, q.subject = t := by
    intro t ht
    rcases List.mem_cons.1 ht with rfl | ht
    · exact hnode
    · exact h.exists_subject ht
  have hle := length_le_subjects hd hnodup hsubjects
  rwa [List.length_cons, List.length_map] at hle

end Dataset

/-! ### Following a chain -/

open Dataset

variable [Arrangement] {d : Dataset} {graph node : Term} {cells : List (Term × Term)}

section Steps

variable {isHead : Bool} {item : Term} {cell : Cell} (fuel : Nat) (items : List Term) (arcs : List Quad)

theorem followChain_of_fault {violation : ListViolation} (hread : Cell.read d graph isHead node = .error violation) :
    followChain d graph (fuel + 1) isHead node items arcs = .malformed ⟨node, violation⟩ := by
  rw [followChain, hread]

theorem followChain_of_head (hread : Cell.read d graph isHead node = .ok (item, cell))
    (hprevious : cell.previous = none) :
    followChain d graph (fuel + 1) isHead node items arcs = .list node (item :: items) (cell.arcs ++ arcs) := by
  rw [followChain, hread]
  dsimp only
  rw [hprevious]

theorem followChain_of_previous (hread : Cell.read d graph isHead node = .ok (item, cell)) {p : Term}
    (hprevious : cell.previous = some p) :
    followChain d graph (fuel + 1) isHead node items arcs =
      followChain d graph fuel cell.isHead p (item :: items) (cell.arcs ++ arcs) := by
  rw [followChain, hread]
  dsimp only
  rw [hprevious]

/-- A cell that may only be a head has a cell before it all the same: this cell is at fault. -/
theorem followChain_of_isHead (hd : d.Consistent) (hfrom : (d.arcsFrom node).Nonempty) :
    ∃ fault, followChain d graph (fuel + 1) true node items arcs = .malformed fault := by
  have hnode : d.terms.Distinguishes node := by
    obtain ⟨q, hq⟩ := hfrom
    obtain ⟨hmem, rfl⟩ := mem_arcsFrom.1 hq
    exact (hd.distinguishedBy_of_mem hmem).subject
  obtain ⟨violation, hread⟩ := Cell.not_read_of_isHead graph hd hnode hfrom
  exact ⟨⟨node, violation⟩, followChain_of_fault fuel items arcs hread⟩

end Steps

/-- The cells that a chain has been followed through are in order, and the node in front of them leads to the first
one, which nothing else refers to. -/
structure Approaches (d : Dataset) (graph node : Term) (cells : List (Term × Term)) : Prop where
  chained : d.Chained graph cells
  exists_arc : ∃ r ∈ d.arcsFrom node, r.predicate = restTerm ∧ r.object = start cells ∧
    ∀ cell ∈ cells.head?, d.arcsTo cell.1 = {r} ∧
      ∀ q ∈ d.arcsFrom cell.1, q.predicate = firstTerm ∨ q.predicate = restTerm

/-- An arc to the empty list. -/
def Dataset.IsLastArc (d : Dataset) (last : Quad) : Prop :=
  last ∈ d.quads ∧ last.predicate = restTerm ∧ last.object = nilTerm

theorem Dataset.IsLastArc.eq_quad {last : Quad} (h : d.IsLastArc last) :
    last = ⟨last.subject, restTerm, nilTerm, last.graph⟩ := by
  rw [← h.2.1, ← h.2.2]

theorem Dataset.IsLastArc.approaches {last : Quad} (h : d.IsLastArc last) :
    Approaches d last.graph last.subject [] where
  chained := trivial
  exists_arc := ⟨last, mem_arcsFrom.2 ⟨h.1, rfl⟩, h.2.1, h.2.2, by simp⟩

/-- What is known when one more cell has been read without a fault: it is the head, or a cell before it is approached,
or the cell before it will be at fault. -/
theorem Approaches.read (h : Approaches d graph node cells) (hd : d.Consistent) {item : Term} {cell : Cell}
    (hread : Cell.read d graph false node = .ok (item, cell)) :
    d.Chained graph ((node, item) :: cells) ∧ (cell.previous = none → d.IsHead node) ∧
      ∀ p, cell.previous = some p →
        (∃ r ∈ d.arcsFrom p, r.predicate = restTerm ∧ r.object = node) ∧
          (cell.isHead = false → Approaches d graph p ((node, item) :: cells)) := by
  obtain ⟨r, hr, hrest, hobject, hbehind⟩ := h.exists_arc
  have hnode : d.terms.Distinguishes node := by
    obtain ⟨hmem, rfl⟩ := mem_arcsFrom.1 hr
    exact (hd.distinguishedBy_of_mem hmem).subject
  have hfinds := Cell.finds_of_read hd hnode hread
  have hcell := hfinds.isCell hr hrest
  rw [hobject] at hcell
  -- only now is it known that the arc is in the same graph
  have hr' : r = ⟨node, restTerm, start cells, graph⟩ :=
    hcell.eq_of_rest (mem_arcsFrom.1 hr).1 (mem_arcsFrom.1 hr).2 hrest
  have hchained : d.Chained graph ((node, item) :: cells) := by
    refine ⟨hcell, fun next hnext => ⟨(hbehind next hnext).2, ?_⟩, h.chained⟩
    rw [(hbehind next hnext).1, hr', start, Option.mem_def.1 hnext]
    rfl
  refine ⟨hchained, hfinds.isHead_of_previous, fun p hp => ?_⟩
  obtain ⟨r', hto, hrest', hsubject', harcs, hcard⟩ := hfinds.exists_arc_of_previous hp
  obtain ⟨hmem', hobject'⟩ := mem_arcsTo.1 hto
  have hfrom : r' ∈ d.arcsFrom p := mem_arcsFrom.2 ⟨hmem', hsubject'⟩
  refine ⟨⟨r', hfrom, hrest', hobject'⟩, fun hhead => ⟨hchained, r', hfrom, hrest', hobject', ?_⟩⟩
  rintro _ ⟨⟩
  refine ⟨?_, harcs⟩
  obtain ⟨q, hq⟩ := Finset.card_eq_one.1 (hcard.trans (by rw [hhead]; rfl))
  rw [hq] at hto ⊢
  rw [Finset.mem_singleton.1 hto]

/-- Only collections are found. -/
theorem Approaches.isCollection_of_followChain (h : Approaches d graph node cells) (hd : d.Consistent) {fuel : Nat}
    {items items' : List Term} {arcs arcs' : List Quad} {head : Term}
    (hfollow : followChain d graph fuel false node items arcs = .list head items' arcs') :
    ∃ before item, d.IsCollection graph (before ++ (node, item) :: cells) ∧
      head = start (before ++ (node, item) :: cells) ∧ items' = (before ++ [(node, item)]).map Prod.snd ++ items ∧
      ∀ q, q ∈ arcs' ↔ d.IsListArcOf (before ++ [(node, item)]) q ∨ q ∈ arcs := by
  -- the cells that have been read grow at the front while the fuel shrinks
  induction fuel generalizing node cells items arcs with
  | zero => cases hfollow
  | succ fuel ih =>
    cases hread : Cell.read d graph false node with
    | error violation =>
      rw [followChain_of_fault fuel items arcs hread] at hfollow
      cases hfollow
    | ok result =>
      obtain ⟨item, cell⟩ := result
      obtain ⟨hchained, hhead, hbefore⟩ := h.read hd hread
      have harcs : ∀ q, q ∈ cell.arcs ↔ d.IsListArcOf [(node, item)] q := by
        intro q
        rw [Cell.mem_arcs_of_read hd (hd.distinguishedBy_of_mem hchained.1.rest_mem).subject hread, mem_arcsFrom,
          Cell.isListArc_iff]
        simp [isListArcOf_iff, and_assoc]
      cases hprevious : cell.previous with
      | none =>
        rw [followChain_of_head fuel items arcs hread hprevious] at hfollow
        cases hfollow
        refine ⟨[], item, ⟨List.cons_ne_nil _ _, hhead hprevious, hchained⟩, rfl, rfl, fun q => ?_⟩
        rw [List.mem_append, harcs, List.nil_append]
      | some p =>
        rw [followChain_of_previous fuel items arcs hread hprevious] at hfollow
        obtain ⟨⟨r, hr, -⟩, happroaches⟩ := hbefore p hprevious
        cases hflag : cell.isHead with
        | true =>
          rw [hflag] at hfollow
          cases fuel with
          | zero => cases hfollow
          | succ fuel =>
            obtain ⟨fault, hfault⟩ := followChain_of_isHead fuel (item :: items) (cell.arcs ++ arcs) hd ⟨r, hr⟩
            rw [hfault] at hfollow
            cases hfollow
        | false =>
          rw [hflag] at hfollow
          obtain ⟨before, item', hcollection, hstart, hitems, hall⟩ := ih (happroaches hflag) hfollow
          refine ⟨before ++ [(p, item')], item, ?_, ?_, ?_, fun q => ?_⟩
          · rw [List.append_assoc]
            exact hcollection
          · rw [List.append_assoc]
            exact hstart
          · rw [hitems]
            simp
          · rw [hall, List.mem_append, harcs, ← or_assoc, ← isListArcOf_append]

/-- A cell behind another one is read without a fault, and the other one comes next. -/
theorem exists_read_of_isInner (hd : d.Consistent) {item next p : Term} (hcell : d.IsCell graph node item next)
    (hinner : d.IsInner graph p node) :
    ∃ cell, Cell.read d graph false node = .ok (item, cell) ∧ cell.previous = some p ∧ cell.isHead = false := by
  have hnode : d.terms.Distinguishes node := (hd.distinguishedBy_of_mem hcell.rest_mem).subject
  obtain ⟨cell, hread⟩ := Cell.exists_read hd hnode hcell (.inr ⟨p, hinner⟩)
  have hfinds := Cell.finds_of_read hd hnode hread
  refine ⟨cell, hread, ?_⟩
  cases hprevious : cell.previous with
  | none =>
    have hmem := Finset.mem_singleton_self (⟨p, restTerm, node, graph⟩ : Quad)
    rw [← hinner.arcsTo] at hmem
    exact absurd rfl ((hfinds.isHead_of_previous hprevious).no_rest _ hmem)
  | some p' =>
    obtain ⟨r, hr, -, hsubject, -, hcard⟩ := hfinds.exists_arc_of_previous hprevious
    rw [hinner.arcsTo] at hr hcard
    rw [Finset.mem_singleton.1 hr] at hsubject
    rw [Finset.card_singleton] at hcard
    exact ⟨congrArg some hsubject.symm, Bool.toNat_eq_zero.1 (by omega)⟩

/-- A head is read without a fault, and no cell comes next. -/
private theorem exists_read_of_isHead (hd : d.Consistent) {item next : Term} (hcell : d.IsCell graph node item next)
    (hhead : d.IsHead node) : ∃ cell, Cell.read d graph false node = .ok (item, cell) ∧ cell.previous = none := by
  have hnode : d.terms.Distinguishes node := (hd.distinguishedBy_of_mem hcell.rest_mem).subject
  obtain ⟨cell, hread⟩ := Cell.exists_read hd hnode hcell (.inl hhead)
  obtain ⟨-, hnone⟩ | ⟨r, hr, -⟩ := (Cell.finds_of_read hd hnode hread).previous
  · exact ⟨cell, hread, hnone⟩
  · obtain ⟨hmem, hrest⟩ := Finset.mem_filter.1 (hr ▸ Finset.mem_singleton_self r)
    exact absurd hrest (hhead.no_rest r hmem)

/-- Every collection is found from each of its cells on, if as many cells may be read as there are before it. -/
theorem followChain_of_isCollection (hd : d.Consistent) {before : List (Term × Term)} {item : Term}
    (h : d.IsCollection graph (before ++ (node, item) :: cells)) {fuel : Nat} (hfuel : before.length < fuel)
    (items : List Term) (arcs : List Quad) :
    ∃ arcs', followChain d graph fuel false node items arcs =
      .list (start (before ++ (node, item) :: cells)) ((before ++ [(node, item)]).map Prod.snd ++ items) arcs' := by
  -- the chain is followed from its end, so the cells before this one are taken away from theirs
  induction before using List.reverseRecOn generalizing node item cells items arcs fuel with
  | nil =>
    obtain ⟨fuel, rfl⟩ : ∃ n, fuel = n + 1 := ⟨fuel - 1, by omega⟩
    obtain ⟨cell, hread, hprevious⟩ := exists_read_of_isHead hd h.chained.1 h.head
    exact ⟨_, followChain_of_head fuel items arcs hread hprevious⟩
  | append_singleton before previous ih =>
    obtain ⟨p, item'⟩ := previous
    rw [List.length_append, List.length_singleton] at hfuel
    obtain ⟨fuel, rfl⟩ : ∃ n, fuel = n + 1 := ⟨fuel - 1, by omega⟩
    rw [List.append_assoc] at h
    obtain ⟨-, hinner, hcell, -⟩ := h.chained.of_append
    obtain ⟨cell, hread, hprevious, hflag⟩ := exists_read_of_isInner hd hcell (hinner (node, item) rfl)
    have hfuel' : before.length < fuel := by omega
    obtain ⟨arcs', hfollow⟩ := ih h hfuel' (item :: items) (cell.arcs ++ arcs)
    refine ⟨arcs', ?_⟩
    rw [followChain_of_previous fuel items arcs hread hprevious, hflag, hfollow]
    simp

/-- The arcs of a chain are quads of the dataset. -/
theorem arcs_subset_of_followChain (hd : d.Consistent) {fuel : Nat} {isHead : Bool} {items items' : List Term}
    {arcs arcs' : List Quad} {head : Term} (harcs : ∀ q ∈ arcs, q ∈ d.quads)
    (h : followChain d graph fuel isHead node items arcs = .list head items' arcs') : ∀ q ∈ arcs', q ∈ d.quads := by
  induction fuel generalizing isHead node items arcs with
  | zero => cases h
  | succ fuel ih =>
    cases hread : Cell.read d graph isHead node with
    | error violation =>
      rw [followChain_of_fault fuel items arcs hread] at h
      cases h
    | ok result =>
      obtain ⟨item, cell⟩ := result
      have hmore : ∀ q ∈ cell.arcs ++ arcs, q ∈ d.quads := by
        intro q hq
        rcases List.mem_append.1 hq with hq | hq
        · exact Cell.arcs_subset_of_read hd hread q hq
        · exact harcs q hq
      cases hprevious : cell.previous with
      | none =>
        rw [followChain_of_head fuel items arcs hread hprevious] at h
        cases h
        exact hmore
      | some p =>
        rw [followChain_of_previous fuel items arcs hread hprevious] at h
        exact ih hmore h

end RdfDataset
