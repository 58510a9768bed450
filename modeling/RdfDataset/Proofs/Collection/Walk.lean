import RdfDataset.Proofs.Collection.Chain

/-!
# Walks along a chain

A chain is followed backwards from one cell to the next until a cell is the head or at fault, and nothing keeps count of
the cells.  Such a walk comes to no cell twice, unless the cells form a ring through `rdf:nil`.

* `Dataset.Walk`: the cells that are read until the walk stops; `Dataset.Walk.unique`: there is only one way to go.
* `forall_ne_circular_iff`: following a chain with enough fuel is a walk.
* `Dataset.IsRing`: cells that lead from `rdf:nil` to `rdf:nil` again.
* `Approaches.exists_walk_or_isRing`: a walk ends, and meets each cell once, or its cells are a ring.
* `Dataset.IsRing.not_walk` and `Dataset.IsRing.comes_again`: what becomes of a walk along a ring.
* `Dataset.Consistent.walk_cases`: from a last arc there are these three kinds of walks.
-/

namespace RdfDataset

open Vocabulary.Rdf

variable [Arrangement]

namespace Dataset

/-- The cells that are read from a node on, one after the other, until one is a head or at fault. -/
inductive Walk (d : Dataset) (graph : Term) : Bool → Term → List Term → Prop
  | fault {isHead : Bool} {node : Term} {violation : ListViolation}
    (hread : Cell.read d graph isHead node = .error violation) : Walk d graph isHead node [node]
  | head {isHead : Bool} {node item : Term} {cell : Cell} (hread : Cell.read d graph isHead node = .ok (item, cell))
    (hprevious : cell.previous = none) : Walk d graph isHead node [node]
  | step {isHead : Bool} {node item previous : Term} {cell : Cell} {visited : List Term}
    (hread : Cell.read d graph isHead node = .ok (item, cell)) (hprevious : cell.previous = some previous)
    (hmore : Walk d graph cell.isHead previous visited) : Walk d graph isHead node (node :: visited)

variable {d : Dataset} {graph node : Term} {isHead : Bool} {visited : List Term}

theorem Walk.exists_cons (h : d.Walk graph isHead node visited) : ∃ others, visited = node :: others := by
  cases h with
  | fault => exact ⟨_, rfl⟩
  | head => exact ⟨_, rfl⟩
  | step => exact ⟨_, rfl⟩

/-- A walk that goes on is one from the cell before. -/
theorem Walk.of_previous (h : d.Walk graph isHead node visited) {item previous : Term} {cell : Cell}
    (hread : Cell.read d graph isHead node = .ok (item, cell)) (hprevious : cell.previous = some previous) :
    ∃ others, visited = node :: others ∧ d.Walk graph cell.isHead previous others := by
  cases h with
  | fault hread' =>
    rw [hread] at hread'
    cases hread'
  | head hread' hnone =>
    obtain ⟨-, rfl⟩ := Prod.mk.inj (Except.ok.inj (hread.symm.trans hread'))
    rw [hprevious] at hnone
    cases hnone
  | step hread' hprevious' hmore =>
    obtain ⟨-, rfl⟩ := Prod.mk.inj (Except.ok.inj (hread.symm.trans hread'))
    obtain rfl := Option.some.inj (hprevious.symm.trans hprevious')
    exact ⟨_, rfl, hmore⟩

/-- There is only one way to go. -/
theorem Walk.unique (h : d.Walk graph isHead node visited) {visited' : List Term}
    (h' : d.Walk graph isHead node visited') : visited = visited' := by
  induction h generalizing visited' with
  | fault hread =>
    cases h' with
    | fault => rfl
    | head => rfl
    | step hread' =>
      rw [hread] at hread'
      cases hread'
  | head hread hprevious =>
    cases h' with
    | fault => rfl
    | head => rfl
    | step hread' hprevious' =>
      obtain ⟨-, rfl⟩ := Prod.mk.inj (Except.ok.inj (hread.symm.trans hread'))
      rw [hprevious] at hprevious'
      cases hprevious'
  | step hread hprevious _ ih =>
    obtain ⟨others, rfl, hmore⟩ := h'.of_previous hread hprevious
    rw [ih hmore]

end Dataset

open Dataset

/-! ### Walks and fuel -/

variable {d : Dataset} {graph node : Term} {isHead : Bool} {fuel : Nat}

/-- A chain is not circular if there is a walk that needs no more cells than there is fuel for. -/
theorem followChain_ne_circular {visited : List Term} (h : d.Walk graph isHead node visited)
    (hfuel : visited.length ≤ fuel) (items : List Term) (arcs : List Quad) (cell : Term) :
    followChain d graph fuel isHead node items arcs ≠ .circular cell := by
  induction h generalizing fuel items arcs with
  | fault hread =>
    obtain ⟨fuel, rfl⟩ := Nat.exists_eq_add_one.2 hfuel
    rw [followChain_of_fault fuel items arcs hread]
    simp
  | head hread hprevious =>
    obtain ⟨fuel, rfl⟩ := Nat.exists_eq_add_one.2 hfuel
    rw [followChain_of_head fuel items arcs hread hprevious]
    simp
  | step hread hprevious _ ih =>
    rw [List.length_cons] at hfuel
    obtain ⟨fuel, rfl⟩ : ∃ n, fuel = n + 1 := ⟨fuel - 1, by omega⟩
    rw [followChain_of_previous fuel items arcs hread hprevious]
    exact ih (by omega) _ _

/-- A chain that is not circular is a walk. -/
theorem exists_walk_of_ne_circular {items : List Term} {arcs : List Quad}
    (h : ∀ cell, followChain d graph fuel isHead node items arcs ≠ .circular cell) :
    ∃ visited, d.Walk graph isHead node visited ∧ visited.length ≤ fuel := by
  induction fuel generalizing isHead node items arcs with
  | zero => exact absurd rfl (h node)
  | succ fuel ih =>
    cases hread : Cell.read d graph isHead node with
    | error violation => exact ⟨_, .fault hread, by simp⟩
    | ok result =>
      obtain ⟨item, cell⟩ := result
      cases hprevious : cell.previous with
      | none => exact ⟨_, .head hread hprevious, by simp⟩
      | some p =>
        rw [followChain_of_previous fuel items arcs hread hprevious] at h
        obtain ⟨visited, hwalk, hle⟩ := ih h
        exact ⟨_, .step hread hprevious hwalk, by simpa using hle⟩

theorem forall_ne_circular_iff {items : List Term} {arcs : List Quad} :
    (∀ cell, followChain d graph fuel isHead node items arcs ≠ .circular cell) ↔
      ∃ visited, d.Walk graph isHead node visited ∧ visited.length ≤ fuel :=
  ⟨exists_walk_of_ne_circular, fun ⟨_, hwalk, hle⟩ cell => followChain_ne_circular hwalk hle items arcs cell⟩

/-! ### Rings -/

/-- Cells that lead from `rdf:nil` through different nodes to `rdf:nil` again, about which nothing else is stated. -/
structure Dataset.IsRing (d : Dataset) (last : Quad) (cells : List (Term × Term)) : Prop where
  chained : d.Chained last.graph cells
  nodup : (cells.map Prod.fst).Nodup
  start : start cells = nilTerm
  ends : ∃ before item, cells = before ++ [(last.subject, item)]
  arcsFrom : ∀ q ∈ d.arcsFrom nilTerm, q.predicate = firstTerm ∨ q.predicate = restTerm

/-- A walk that has come through some cells, each of which it has met once, ends without meeting a cell again, or comes
to `rdf:nil` and finds that the last of its cells comes before it. -/
theorem Approaches.exists_walk_or_isRing {cells : List (Term × Term)} (h : Approaches d graph node cells)
    (hd : d.Consistent) (hnodup : (node :: cells.map Prod.fst).Nodup) :
    (∃ visited, d.Walk graph false node visited ∧ (visited ++ cells.map Prod.fst).Nodup ∧
        ∀ t ∈ visited, ∃ q ∈ d.quads, q.subject = t) ∨
      ∃ before item, let all := before ++ (node, item) :: cells
        d.Chained graph all ∧ (all.map Prod.fst).Nodup ∧ start all = nilTerm ∧
          ∃ before' p item' item'' cell, all = before' ++ [(p, item')] ∧
            Cell.read d graph false nilTerm = .ok (item'', cell) ∧ cell.previous = some p := by
  obtain ⟨r, hr, -, -, -⟩ := h.exists_arc
  have hsubject : ∃ q ∈ d.quads, q.subject = node := ⟨r, mem_arcsFrom.1 hr⟩
  -- each cell that is met takes one of the subjects away
  have hle := h.chained.length_lt_subjects hd hsubject hnodup
  generalize hn : (d.subjects {}).length - cells.length = n
  induction n generalizing node cells r with
  | zero => omega
  | succ n ih =>
    cases hread : Cell.read d graph false node with
    | error violation => exact .inl ⟨[node], .fault hread, hnodup, by simpa using hsubject⟩
    | ok result =>
      obtain ⟨item, cell⟩ := result
      obtain ⟨hchained, -, hbefore⟩ := h.read hd hread
      cases hprevious : cell.previous with
      | none => exact .inl ⟨[node], .head hread hprevious, hnodup, by simpa using hsubject⟩
      | some p =>
        obtain ⟨⟨r', hr', hrest', hobject'⟩, happroaches⟩ := hbefore p hprevious
        obtain ⟨hmem', rfl⟩ := mem_arcsFrom.1 hr'
        by_cases hagain : r'.subject ∈ node :: cells.map Prod.fst
        · -- the cell before has been met
          obtain ⟨hstart, before', item', hall⟩ := hchained.eq_last_of_mem hnodup hmem' hrest' hobject' hagain
          obtain rfl : node = nilTerm := hstart
          exact .inr ⟨[], item, hchained, hnodup, rfl, before', _, item', item, cell, hall, hread, hprevious⟩
        have hnodup' : (r'.subject :: node :: cells.map Prod.fst).Nodup := List.nodup_cons.2 ⟨hagain, hnodup⟩
        have hsubject' : ∃ q ∈ d.quads, q.subject = r'.subject := ⟨r', hmem', rfl⟩
        cases hflag : cell.isHead with
        | true =>
          -- it is taken for a head although a cell comes before it, which is at fault for this
          have htold := (hd.distinguishedBy_of_mem hmem').subject
          obtain ⟨violation, hfault⟩ := Cell.not_read_of_isHead graph hd htold ⟨r', hr'⟩
          refine .inl ⟨[node, r'.subject], .step hread hprevious (hflag ▸ .fault hfault), ?_, ?_⟩
          · exact (List.Perm.swap _ _ _).nodup_iff.1 hnodup'
          · simpa using ⟨hsubject, hsubject'⟩
        | false =>
          have hle' := hchained.length_lt_subjects hd hsubject' hnodup'
          have hless : (d.subjects {}).length - (cells.length + 1) = n := by omega
          obtain ⟨visited, hwalk, hvisited, hsubjects⟩ | ⟨before, item', hring⟩ :=
            ih (happroaches hflag) hnodup' r' hr' hsubject' hle' hless
          · refine .inl ⟨node :: visited, .step hread hprevious (hflag ▸ hwalk), ?_, ?_⟩
            · exact List.perm_middle.nodup_iff.1 hvisited
            · exact List.forall_mem_cons.2 ⟨hsubject, hsubjects⟩
          · refine .inr ⟨before ++ [(r'.subject, item')], item, ?_⟩
            rw [List.append_assoc]
            exact hring

theorem Dataset.distinguishes_nilTerm (d : Dataset) : d.terms.Distinguishes nilTerm :=
  Interner.distinguishes_iri _ rfl (by decide)

namespace Dataset.IsRing

variable {last : Quad} {cells : List (Term × Term)} (hring : d.IsRing last cells) (hd : d.Consistent)
  (hlast : d.IsLastArc last)
include hring hd hlast

/-- When nothing but the last arc refers to `rdf:nil`, a cell of the ring comes before each of them. -/
private theorem exists_previous (hrefs : d.matching { object := some nilTerm } = [last])
    (hnode : node ∈ cells.map Prod.fst) :
    ∃ item cell p, Cell.read d last.graph false node = .ok (item, cell) ∧ cell.previous = some p ∧
      cell.isHead = false ∧ p ∈ cells.map Prod.fst := by
  obtain ⟨⟨node, item⟩, hcell, rfl⟩ := List.mem_map.1 hnode
  obtain ⟨⟨next, hiscell⟩, hplace⟩ := hring.chained.isInner_of_mem hcell
  have hinner : ∃ p ∈ cells.map Prod.fst, d.IsInner last.graph p node := by
    obtain hstart | hinner := hplace
    · -- the first cell is `rdf:nil`, and the last one comes before it
      obtain ⟨before, item', hends⟩ := hring.ends
      rw [hring.start] at hstart
      refine ⟨last.subject, by simp [hends], ?_, ?_⟩
      · rw [hstart]
        exact hring.arcsFrom
      · rw [hstart, ← Cell.toFinset_incoming hd d.distinguishes_nilTerm, hrefs, ← hlast.eq_quad]
        rfl
    · exact hinner
  obtain ⟨p, hp, hinner⟩ := hinner
  obtain ⟨cell, hread, hprevious, hhead⟩ := exists_read_of_isInner hd hiscell hinner
  exact ⟨item, cell, p, hread, hprevious, hhead, hp⟩

/-- When nothing but the last arc refers to `rdf:nil`, a walk goes round and never ends. -/
theorem not_walk (hrefs : d.matching { object := some nilTerm } = [last]) (hnode : node ∈ cells.map Prod.fst)
    (visited : List Term) : ¬d.Walk last.graph false node visited := by
  induction visited generalizing node with
  | nil =>
    intro hwalk
    obtain ⟨others, hvisited⟩ := hwalk.exists_cons
    cases hvisited
  | cons t others ih =>
    intro hwalk
    obtain ⟨item, cell, p, hread, hprevious, hhead, hp⟩ := hring.exists_previous hd hlast hrefs hnode
    obtain ⟨others', hvisited, hmore⟩ := hwalk.of_previous hread hprevious
    obtain ⟨-, rfl⟩ := List.cons.inj hvisited
    exact ih hp (hhead ▸ hmore)

/-- When one more quad refers to `rdf:nil`, and is looked at after the last arc, a walk comes to its first cell again
and ends there. -/
theorem comes_again {q : Quad} (hrefs : d.matching { object := some nilTerm } = [last, q])
    (hq : q.predicate ≠ restTerm) {before after : List (Term × Term)} {item : Term}
    (hcells : cells = before ++ (node, item) :: after) :
    ∃ front, d.Walk last.graph false node (node :: front ++ [last.subject]) ∧ front.length = before.length := by
  have hchained := hring.chained
  have hstart := hring.start
  rw [hcells] at hchained hstart
  clear hcells
  -- from the first cell on, which is `rdf:nil`, to those behind it
  induction before using List.reverseRecOn generalizing node item after with
  | nil =>
    obtain rfl : node = nilTerm := hstart
    obtain ⟨cell, hread, hprevious, hhead⟩ := Cell.exists_read_of_incoming hd d.distinguishes_nilTerm hchained.1
      hring.arcsFrom hrefs hlast.2.1 hq
    have htold := (hd.distinguishedBy_of_mem hlast.1).subject
    obtain ⟨violation, hfault⟩ :=
      Cell.not_read_of_isHead last.graph hd htold ⟨last, mem_arcsFrom.2 ⟨hlast.1, rfl⟩⟩
    exact ⟨[], .step hread hprevious (hhead ▸ .fault hfault), rfl⟩
  | append_singleton before previous ih =>
    obtain ⟨p, item'⟩ := previous
    rw [List.append_assoc] at hchained hstart
    obtain ⟨front, hwalk, hlength⟩ := ih hchained hstart
    obtain ⟨-, hinner, hcell, -⟩ := hchained.of_append
    obtain ⟨cell, hread, hprevious, hhead⟩ := exists_read_of_isInner hd hcell (hinner (node, item) rfl)
    exact ⟨p :: front, .step hread hprevious (hhead ▸ hwalk), by simp [hlength]⟩

/-- So it meets a cell twice, and no more cells than there are subjects and one. -/
theorem exists_walk_not_nodup {q : Quad} (hrefs : d.matching { object := some nilTerm } = [last, q])
    (hq : q.predicate ≠ restTerm) :
    ∃ visited, d.Walk last.graph false last.subject visited ∧ ¬visited.Nodup ∧
      visited.length ≤ (d.subjects {}).length + 1 := by
  obtain ⟨before, item, hends⟩ := hring.ends
  obtain ⟨front, hwalk, hlength⟩ := hring.comes_again hd hlast hrefs hq hends
  have hle := length_le_subjects hd hring.nodup fun t ht => hring.chained.exists_subject ht
  rw [List.length_map, hends, List.length_append, List.length_singleton] at hle
  refine ⟨_, hwalk, by simp, ?_⟩
  simp only [List.length_append, List.length_cons, List.length_nil]
  omega

end Dataset.IsRing

namespace Dataset.Consistent

variable (hd : d.Consistent) {last : Quad} (hlast : d.IsLastArc last)
include hd hlast

/-- A walk from a last arc meets each cell once and ends, or its cells form a ring.  Then nothing but the last arc
refers to `rdf:nil`, or one more quad does. -/
theorem walk_cases :
    (∃ visited, d.Walk last.graph false last.subject visited ∧ visited.Nodup ∧
        visited.length ≤ (d.subjects {}).length) ∨
      (∃ cells, d.IsRing last cells ∧ d.matching { object := some nilTerm } = [last]) ∨
      ∃ cells q, d.IsRing last cells ∧ d.matching { object := some nilTerm } = [last, q] ∧ q.predicate ≠ restTerm := by
  obtain ⟨visited, hwalk, hnodup, hsubjects⟩ | ⟨before, item, hchained, hnodup, hstart, hend⟩ :=
    hlast.approaches.exists_walk_or_isRing hd (by simp)
  · have hnodup : visited.Nodup := by simpa using hnodup
    exact .inl ⟨visited, hwalk, hnodup, length_le_subjects hd hnodup hsubjects⟩
  · obtain ⟨before', p, item', item'', cell, hall, hread, hprevious⟩ := hend
    obtain ⟨-, hcell⟩ := List.append_inj' hall rfl
    obtain ⟨rfl, -⟩ := Prod.mk.inj (List.singleton_inj.1 hcell)
    obtain ⟨_, _, -, -, harcs, -⟩ :=
      (Cell.finds_of_read hd d.distinguishes_nilTerm hread).exists_arc_of_previous hprevious
    have hring : d.IsRing last (before ++ [(last.subject, item)]) := ⟨hchained, hnodup, hstart, ⟨_, _, rfl⟩, harcs⟩
    obtain ⟨r, hrest, hsubject, hrefs⟩ := Cell.incoming_of_read hd d.distinguishes_nilTerm hread hprevious
    -- the quad that leads to `rdf:nil` is the last arc itself
    have hmem : r ∈ d.matching { object := some nilTerm } := by
      obtain ⟨hrefs, -⟩ | ⟨q, -, hrefs, -⟩ := hrefs <;> simp [hrefs]
    have hmem : r ∈ d.quads := hd.mem_quads_of_mem_matching hmem
    have hlastcell := hchained.of_append.1
    have hr : r = last :=
      (hlastcell.eq_of_rest hmem hsubject hrest).trans (hlastcell.eq_of_rest hlast.1 rfl hlast.2.1).symm
    subst hr
    obtain ⟨hrefs, -⟩ | ⟨q, hq, hrefs, -⟩ := hrefs
    · exact .inr (.inl ⟨_, hring, hrefs⟩)
    · exact .inr (.inr ⟨_, q, hring, hrefs, hq⟩)

/-- Where nothing follows `rdf:nil`, every walk from a last arc meets each cell once and ends. -/
theorem exists_walk (hnil : d.NilEnds) :
    ∃ visited, d.Walk last.graph false last.subject visited ∧ visited.Nodup ∧
      visited.length ≤ (d.subjects {}).length := by
  have hnoring : ∀ cells, ¬d.IsRing last cells := by
    intro cells hring
    obtain ⟨before, item, rfl⟩ := hring.ends
    exact hring.chained.start_ne_nil hnil (by simp) hring.start
  obtain hwalk | ⟨cells, hring, -⟩ | ⟨cells, q, hring, -⟩ := hd.walk_cases hlast
  · exact hwalk
  · exact absurd hring (hnoring cells)
  · exact absurd hring (hnoring cells)

/-- A walk from a last arc meets each cell once exactly if its cells form no ring; it ends exactly if they form no ring
to which nothing else refers, and otherwise the chain is found to be circular. -/
theorem walk_iff :
    ((∃ visited, d.Walk last.graph false last.subject visited ∧ visited.Nodup ∧
        visited.length ≤ (d.subjects {}).length) ↔
      ¬∃ cells, d.IsRing last cells ∧ (d.matching { object := some nilTerm } = [last] ∨
        ∃ q, d.matching { object := some nilTerm } = [last, q] ∧ q.predicate ≠ restTerm)) ∧
    ((∃ visited, d.Walk last.graph false last.subject visited) ↔
      ¬∃ cells, d.IsRing last cells ∧ d.matching { object := some nilTerm } = [last]) ∧
    ((∃ cell, d.chainOf last = .circular cell) ↔ ¬∃ visited, d.Walk last.graph false last.subject visited) := by
  have hnever : ∀ cells, d.IsRing last cells → d.matching { object := some nilTerm } = [last] →
      ∀ visited, ¬d.Walk last.graph false last.subject visited := by
    intro cells hring hrefs
    obtain ⟨before, item, hends⟩ := hring.ends
    exact hring.not_walk hd hlast hrefs (by simp [hends])
  have hcases := hd.walk_cases hlast
  refine ⟨⟨?_, fun hno => ?_⟩, ⟨?_, fun hno => ?_⟩, ?_⟩
  · rintro ⟨visited, hwalk, hnodup, -⟩ ⟨cells, hring, hrefs | ⟨q, hrefs, hq⟩⟩
    · exact hnever cells hring hrefs visited hwalk
    · obtain ⟨visited', hwalk', hdup, -⟩ := hring.exists_walk_not_nodup hd hlast hrefs hq
      exact hdup (hwalk.unique hwalk' ▸ hnodup)
  · obtain hwalk | ⟨cells, hring, hrefs⟩ | ⟨cells, q, hring, hrefs, hq⟩ := hcases
    · exact hwalk
    · exact absurd ⟨cells, hring, .inl hrefs⟩ hno
    · exact absurd ⟨cells, hring, .inr ⟨q, hrefs, hq⟩⟩ hno
  · rintro ⟨visited, hwalk⟩ ⟨cells, hring, hrefs⟩
    exact hnever cells hring hrefs visited hwalk
  · obtain ⟨visited, hwalk, -⟩ | ⟨cells, hring, hrefs⟩ | ⟨cells, q, hring, hrefs, hq⟩ := hcases
    · exact ⟨visited, hwalk⟩
    · exact absurd ⟨cells, hring, hrefs⟩ hno
    · obtain ⟨visited, hwalk, -⟩ := hring.exists_walk_not_nodup hd hlast hrefs hq
      exact ⟨visited, hwalk⟩
  · rw [← not_iff_not, not_not, not_exists]
    -- the fuel is enough for every walk that ends
    refine forall_ne_circular_iff.trans ⟨fun ⟨visited, hwalk, _⟩ => ⟨visited, hwalk⟩, fun ⟨visited, hwalk⟩ => ?_⟩
    obtain ⟨visited, hwalk, -, hle⟩ | ⟨cells, hring, hrefs⟩ | ⟨cells, q, hring, hrefs, hq⟩ := hcases
    · exact ⟨visited, hwalk, Nat.le_succ_of_le hle⟩
    · exact absurd hwalk (hnever cells hring hrefs visited)
    · obtain ⟨visited, hwalk, -, hle⟩ := hring.exists_walk_not_nodup hd hlast hrefs hq
      exact ⟨visited, hwalk, hle⟩

end Dataset.Consistent

end RdfDataset
