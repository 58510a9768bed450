import RdfDataset.Proofs.Collection.Extract
import RdfDataset.Proofs.Dataset.Call

/-!
# Chains that lead nowhere

After any calls a chain is followed to its end, unless its cells form a ring through `rdf:nil` to which no other quad
refers.  If one other quad refers to `rdf:nil`, the chain is followed once round and a cell is met twice.

* `Dataset.walk_calls`: which walks end, which of them meet each cell once, and when extraction does not end.
* `Dataset.not_walk_two_cells`: a ring of two cells.
-/

namespace RdfDataset.Dataset

open Vocabulary.Rdf

section

variable [Arrangement]

/-- A chain that is found to be circular is that of one of the arcs. -/
theorem exists_of_gatherLists_eq_endless {d : Dataset} {ignoreErrors : Bool} {lasts : List Quad}
    {found : Extraction × List Quad} {cell : Term}
    (h : d.gatherLists ignoreErrors lasts found = .endless cell) :
    ∃ last ∈ lasts, d.chainOf last = .circular cell := by
  induction lasts generalizing found with
  | nil => cases h
  | cons last others ih =>
    have hothers : ∀ found, d.gatherLists ignoreErrors others found = .endless cell →
        ∃ last' ∈ last :: others, d.chainOf last' = .circular cell := by
      intro found hfound
      obtain ⟨last', hlast', hchain⟩ := ih hfound
      exact ⟨last', List.mem_cons_of_mem _ hlast', hchain⟩
    unfold gatherLists at h
    cases hchain : d.chainOf last with
    | list head items arcs =>
      rw [hchain] at h
      exact hothers _ h
    | malformed fault =>
      rw [hchain] at h
      dsimp only at h
      split at h
      · exact hothers _ h
      · cases h
    | circular cell' =>
      rw [hchain] at h
      cases h
      exact ⟨last, List.mem_cons_self, hchain⟩

theorem exists_of_extractLists_eq_endless {d : Dataset} {options : ExtractOptions} {cell : Term}
    (h : (d.extractLists options).1 = .endless cell) :
    ∃ last ∈ d.matching { predicate := some restTerm, object := some nilTerm }, d.chainOf last = .circular cell := by
  unfold extractLists at h
  dsimp only at h
  split at h
  · cases h
  · rename_i hgather
    cases h
    exact exists_of_gatherLists_eq_endless hgather
  · cases h

/-- After any calls, a walk from a last arc meets each cell once, and no more cells than there are subjects, exactly if
its cells do not form a ring to which at most one other quad refers.  It ends exactly if its cells do not form a ring to
which nothing else refers.  Where it does not end the chain is found to be circular, and only then does an extraction,
whatever its options are, not come to an end. -/
theorem walk_calls (settings : Settings) (calls : List Call) {last : Quad}
    (hlast : (calls.foldl Call.run { settings }).IsLastArc last) :
    let d := calls.foldl Call.run { settings }
    ((∃ visited, d.Walk last.graph false last.subject visited ∧ visited.Nodup ∧
        visited.length ≤ (d.subjects {}).length) ↔
      ¬∃ cells, d.IsRing last cells ∧ (d.matching { object := some nilTerm } = [last] ∨
        ∃ q, d.matching { object := some nilTerm } = [last, q] ∧ q.predicate ≠ restTerm)) ∧
    ((∃ visited, d.Walk last.graph false last.subject visited) ↔
      ¬∃ cells, d.IsRing last cells ∧ d.matching { object := some nilTerm } = [last]) ∧
    ((∃ cell, d.chainOf last = .circular cell) ↔ ¬∃ visited, d.Walk last.graph false last.subject visited) ∧
    ∀ options cell, (d.extractLists options).1 = .endless cell →
      ∃ last' cells, d.IsLastArc last' ∧ d.IsRing last' cells ∧ d.matching { object := some nilTerm } = [last'] := by
  intro d
  have hd : d.Consistent := (sound_calls settings calls).consistent
  obtain ⟨honce, hends, hcircular⟩ := hd.walk_iff hlast
  refine ⟨honce, hends, hcircular, fun options cell hextract => ?_⟩
  obtain ⟨last', hmem, hchain⟩ := exists_of_extractLists_eq_endless hextract
  have hlast' := hd.mem_lastArcs.1 hmem
  obtain ⟨-, hends', hcircular'⟩ := hd.walk_iff hlast'
  have hring := not_not.1 (mt hends'.2 (hcircular'.1 ⟨cell, hchain⟩))
  obtain ⟨cells, hring⟩ := hring
  exact ⟨last', cells, hlast', hring⟩

end

/-- Two cells lead to each other, and one of them to `rdf:nil` as well. -/
theorem walk_calls_fault :
    let last : Quad := ⟨.blank "l", restTerm, nilTerm, .defaultGraph⟩
    let quads : List Quad := [⟨.blank "l", firstTerm, .literal (.plain "1"), .defaultGraph⟩, last,
      ⟨.blank "l", restTerm, .blank "m", .defaultGraph⟩, ⟨.blank "m", firstTerm, .literal (.plain "2"), .defaultGraph⟩,
      ⟨.blank "m", restTerm, .blank "l", .defaultGraph⟩]
    let d := [Call.update (.insertMany quads)].foldl Call.run {}
    d.IsLastArc last ∧ ∃ visited, d.Walk .defaultGraph false (.blank "l") visited ∧ visited.Nodup ∧
      visited.length ≤ (d.subjects {}).length := by
  intro last quads d
  have hblank : ∀ label ∈ ["l", "m"], (Term.blank label).IsValid := by
    simp only [Term.isValid_blank]
    decide
  have hplain : ∀ value, (Term.literal (.plain value)).IsValid := .plain
  simp only [List.forall_mem_cons] at hblank
  have hvalid : ∀ q ∈ quads, q.IsValid := by
    simp only [quads, last, List.forall_mem_cons, Quad.isValid_iff]
    simp [hblank, Cell.isValid_listTerms, hplain, Term.IsValid.defaultGraph]
  have hquads : d.quads = quads.toFinset := quads_call_insertMany hvalid
  have hlast : d.IsLastArc last := by
    refine ⟨?_, rfl, rfl⟩
    rw [hquads]
    decide
  have hends : d.NilEnds := by
    rw [NilEnds, hquads]
    decide
  obtain ⟨honce, -⟩ := walk_calls {} [.update (.insertMany quads)] hlast
  refine ⟨hlast, honce.2 ?_⟩
  rintro ⟨cells, hring, -⟩
  obtain ⟨before, item, rfl⟩ := hring.ends
  exact hring.chained.start_ne_nil hends (by simp) hring.start

/-- A blank node and `rdf:nil` lead to each other, and nothing else refers to `rdf:nil`: a walk never ends, and no
extraction does. -/
theorem not_walk_two_cells :
    let last : Quad := ⟨.blank "l", restTerm, nilTerm, .defaultGraph⟩
    let quads : List Quad := [⟨.blank "l", firstTerm, .literal (.plain "1"), .defaultGraph⟩, last,
      ⟨nilTerm, firstTerm, .literal (.plain "2"), .defaultGraph⟩, ⟨nilTerm, restTerm, .blank "l", .defaultGraph⟩]
    let d := [Call.update (.insertMany quads)].foldl Call.run {}
    d.IsLastArc last ∧ (∀ q ∈ d.quads, q.subject = nilTerm → q.predicate = restTerm → q.object ≠ nilTerm) ∧
      (¬∃ visited, d.Walk .defaultGraph false (.blank "l") visited) ∧
      ∀ options, ∃ cell, (d.extractLists options).1 = .endless cell := by
  intro last quads d
  have hblank : (Term.blank "l").IsValid := by
    simp only [Term.isValid_blank]
    decide
  have hplain : ∀ value, (Term.literal (.plain value)).IsValid := .plain
  have hvalid : ∀ q ∈ quads, q.IsValid := by
    simp only [quads, last, List.forall_mem_cons, Quad.isValid_iff]
    simp [hblank, Cell.isValid_listTerms, hplain, Term.IsValid.defaultGraph]
  have hquads : d.quads = quads.toFinset := quads_call_insertMany hvalid
  have hd : d.Consistent := (sound_calls {} [.update (.insertMany quads)]).consistent
  have hlast : d.IsLastArc last := by
    refine ⟨?_, rfl, rfl⟩
    rw [hquads]
    decide
  have hinner : d.IsInner .defaultGraph nilTerm (.blank "l") := by
    constructor
    · rw [arcsFrom, hquads]
      decide
    · rw [arcsTo, hquads]
      decide
  have hring : d.IsRing last [(nilTerm, .literal (.plain "2")), (.blank "l", .literal (.plain "1"))] := by
    refine ⟨⟨⟨?_, ?_, ?_⟩, ?_, ⟨?_, ?_, ?_⟩, by simp, trivial⟩, by decide, rfl, ⟨[_], _, rfl⟩, ?_⟩
    case refine_4 =>
      intro cell hcell
      obtain rfl := Option.some.inj hcell
      exact hinner
    all_goals
      rw [arcsFrom, hquads]
      decide
  have hrefs : d.matching { object := some nilTerm } = [last] := by
    refine hd.matching_eq_singleton fun q => ?_
    rw [← List.mem_toFinset, Cell.toFinset_incoming hd d.distinguishes_nilTerm, arcsTo, hquads, ← Finset.mem_singleton]
    revert q
    rw [← Finset.ext_iff]
    decide
  have hlasts : d.matching { predicate := some restTerm, object := some nilTerm } = [last] := by
    refine hd.matching_eq_singleton fun q => ?_
    rw [hd.mem_lastArcs]
    constructor
    · intro hq
      have hto : q ∈ d.matching { object := some nilTerm } := by
        rw [← List.mem_toFinset, Cell.toFinset_incoming hd d.distinguishes_nilTerm]
        exact mem_arcsTo.2 ⟨hq.1, hq.2.2⟩
      rw [hrefs] at hto
      exact List.mem_singleton.1 hto
    · rintro rfl
      exact hlast
  have hnowalk : ¬∃ visited, d.Walk .defaultGraph false (.blank "l") visited := by
    rintro ⟨visited, hwalk⟩
    exact hring.not_walk hd hlast hrefs (by simp) visited hwalk
  obtain ⟨-, -, hcircular⟩ := hd.walk_iff hlast
  obtain ⟨cell, hchain⟩ := hcircular.2 hnowalk
  refine ⟨hlast, ?_, hnowalk, fun options => ⟨cell, ?_⟩⟩
  · rw [hquads]
    decide
  · rw [extractLists]
    dsimp only
    rw [hlasts, gatherLists, hchain]

end RdfDataset.Dataset
