import RdfDataset.Proofs.Collection.Among
import RdfDataset.Proofs.Collection.Removal
import RdfDataset.Proofs.Dataset.Alike
import RdfDataset.Proofs.Dataset.Counter

/-!
# Collections of alike datasets

Alike datasets have the same collections, but list the arcs of a cell and the ends of chains in different orders.  So an
extraction finds the same lists and as many faults, while it can meet another fault first and find something else wrong
with a cell.

* `Dataset.Alike.isCollection_iff`: what is a collection depends on the quads alone.
* `FoundAlike`: two extractions have found the same lists and as many faults, or both have failed.
* `Dataset.Alike.extractLists`: the same extraction of alike datasets.
-/

namespace RdfDataset

variable [Arrangement]

/-- Two extractions have found the same lists, in one order or another, and as many faults, or both have failed. -/
inductive FoundAlike : Gathered Extraction → Gathered Extraction → Prop
  | ok {found found' : Extraction} (hlists : found'.lists.Perm found.lists)
      (hfaults : found'.faults.length = found.faults.length) : FoundAlike (.ok found) (.ok found')
  | error (e e' : ListError) : FoundAlike (.error e) (.error e')

namespace Dataset

variable {d e : Dataset}

/-- Extraction gives no term a number. -/
theorem terms_extractLists (d : Dataset) (options : ExtractOptions) : (d.extractLists options).2.terms = d.terms :=
  extractLists_induction (P := fun d' => d'.terms = d.terms) rfl
    (fun d' graph t h => (d'.terms_eraseIds graph t).1.trans h) options

namespace Alike

variable (h : d.Alike e)
include h

/-! ### Collections -/

theorem symm : e.Alike d :=
  ⟨h.right, h.left, h.terms.symm, h.nextBlank.symm, h.blankNodePrefix.symm, fun graph t => (h.contains graph t).symm⟩

theorem nilEnds (hnil : d.NilEnds) : e.NilEnds := by
  rwa [NilEnds, h.quads]

theorem isLastArc_iff {last : Quad} : e.IsLastArc last ↔ d.IsLastArc last := by
  rw [IsLastArc, IsLastArc, h.quads]

theorem isListArcOf_iff {cells : List (Term × Term)} {q : Quad} : e.IsListArcOf cells q ↔ d.IsListArcOf cells q := by
  rw [Dataset.isListArcOf_iff, Dataset.isListArcOf_iff, h.quads]

theorem isCollection_iff {graph : Term} {cells : List (Term × Term)} :
    e.IsCollection graph cells ↔ d.IsCollection graph cells := by
  have hkeep : ∀ {d e : Dataset}, d.Alike e → d.IsCollection graph cells → e.IsCollection graph cells :=
    fun h hcells => hcells.among h.quads.ge fun q hq hnot => absurd (h.quads.le hq) hnot
  exact ⟨hkeep h.symm, hkeep h⟩

theorem endsCollection_iff {last : Quad} : e.EndsCollection last ↔ d.EndsCollection last := by
  simp only [EndsCollection, h.isCollection_iff]

/-! ### What is found -/

/-- Whatever is found in alike datasets is the same but for the order and for what the faults are. -/
theorem foundAlike {found found' : Extraction} (hfound : d.IsExtraction found) (hfound' : e.IsExtraction found') :
    found'.lists.Perm found.lists ∧ found'.faults.length = found.faults.length := by
  constructor
  · refine (List.perm_ext_iff_of_nodup hfound'.nodup_ids.of_map hfound.nodup_ids.of_map).2 fun list => ?_
    rw [hfound'.mem_lists, hfound.mem_lists]
    simp only [h.isCollection_iff]
  · obtain ⟨lasts, hnodup, hlasts, hfaults⟩ := hfound.faults
    obtain ⟨lasts', hnodup', hlasts', hfaults'⟩ := hfound'.faults
    have hperm : lasts'.Perm lasts := by
      refine (List.perm_ext_iff_of_nodup hnodup' hnodup).2 fun last => ?_
      rw [hlasts', hlasts, h.isLastArc_iff, h.endsCollection_iff]
    have hlength := congrArg List.length hfaults
    have hlength' := congrArg List.length hfaults'
    simp only [List.length_map] at hlength hlength'
    rw [← hlength, ← hlength', hperm.length_eq]

variable (hnil : d.NilEnds)
include hnil

theorem extractLists_fst (options : ExtractOptions) :
    FoundAlike (d.extractLists options).1 (e.extractLists options).1 := by
  obtain ⟨found, hok, hfound, hstrict⟩ := h.left.consistent.exists_isExtraction hnil options.remove
  obtain ⟨found', hok', hfound', hstrict'⟩ := h.right.consistent.exists_isExtraction (h.nilEnds hnil) options.remove
  obtain ⟨hlists, hfaults⟩ := h.foundAlike hfound hfound'
  obtain ⟨remove, ignoreErrors⟩ := options
  cases ignoreErrors with
  | true =>
    rw [hok, hok']
    exact .ok hlists hfaults
  | false =>
    -- either both have no faults, or both report the first one that they have
    rw [hstrict, hstrict']
    cases hf : found.faults with
    | nil =>
      cases hf' : found'.faults with
      | nil => exact .ok hlists hfaults
      | cons fault' faults' => simp [hf, hf'] at hfaults
    | cons fault faults =>
      cases hf' : found'.faults with
      | nil => simp [hf, hf'] at hfaults
      | cons fault' faults' => exact .error _ _

/-- The same quads are left. -/
theorem quads_extractLists (options : ExtractOptions) :
    (e.extractLists options).2.quads = (d.extractLists options).2.quads := by
  have hfound := h.extractLists_fst hnil options
  by_cases hremove : options.remove = false
  · rw [extractLists_unchanged (.inl hremove), extractLists_unchanged (.inl hremove), h.quads]
  · have hremove := Bool.eq_true_of_not_eq_false hremove
    generalize hresult : (d.extractLists options).1 = result, hresult' : (e.extractLists options).1 = result' at hfound
    cases hfound with
    | error x x' =>
      rw [extractLists_unchanged (.inr (.inl ⟨x, hresult⟩)), extractLists_unchanged (.inr (.inl ⟨x', hresult'⟩)),
        h.quads]
    | @ok found found' hlists hfaults =>
      by_cases hnone : found.faults = []
      · have hnone' : found'.faults = [] := by
          rw [hnone] at hfaults
          exact List.length_eq_zero_iff.1 hfaults
        have hquads := (h.left.consistent.mem_quads_extractLists hnil hremove hresult hnone).2.1
        have hquads' := (h.right.consistent.mem_quads_extractLists (h.nilEnds hnil) hremove hresult' hnone').2.1
        ext q
        rw [hquads, hquads', h.quads]
        simp only [IsExtractedArc, h.isCollection_iff, h.isListArcOf_iff, hlists.mem_iff]
      · have hnone' : found'.faults ≠ [] := by
          rwa [← List.length_pos_iff, hfaults, List.length_pos_iff]
        rw [extractLists_unchanged (.inr (.inr ⟨found, hresult, hnone⟩)),
          extractLists_unchanged (.inr (.inr ⟨found', hresult', hnone'⟩)), h.quads]

/-- An extraction from alike datasets in which nothing follows `rdf:nil` finds the same lists, and leaves them alike. -/
theorem extractLists (options : ExtractOptions) :
    FoundAlike (d.extractLists options).1 (e.extractLists options).1 ∧
      (d.extractLists options).2.Alike (e.extractLists options).2 := by
  have hleft := h.left.extractLists options
  have hright := h.right.extractLists options
  refine ⟨h.extractLists_fst hnil options, of_quads hleft.sound hright.sound ?_ ?_ ?_ (h.quads_extractLists hnil options)⟩
  · rw [terms_extractLists, terms_extractLists, h.terms]
  · rw [nextBlank_extractLists, nextBlank_extractLists, h.nextBlank]
  · rw [hleft.settings, hright.settings, h.blankNodePrefix]

end Alike

end Dataset

end RdfDataset
