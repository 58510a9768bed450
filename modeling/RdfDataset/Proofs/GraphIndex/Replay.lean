import RdfDataset.Proofs.GraphIndex

/-!
# A graph index as a set of triples

Whatever is added and taken out, pruning or not from one call to the next, the three trees of an index hold the triples
of a plain set on which the same calls are replayed.

* `IndexChange` is a call on an index, with `IndexChange.run` for indices and `IndexChange.replay` for sets.
* `IndexChange.run_refines` is one call, `runSteps_refines` any number of steps of two systems that go together.
* `GraphIndex.Represents`: an index shows the triples of a set, whichever way it is asked.
* `GraphIndex.represents_replay`: after any sequence of calls on an empty index it represents the replayed set.
-/

namespace RdfDataset

/-! ### Steps of two systems -/

/-- Takes steps one after the other, with what each of them says. -/
def runSteps {σ α ω : Type} (step : σ → α → ω × σ) (s : σ) : List α → List ω × σ
  | [] => ([], s)
  | a :: as => ((step s a).1 :: (runSteps step (step s a).2 as).1, (runSteps step (step s a).2 as).2)

/-- Steps that go on where others have ended. -/
theorem runSteps_append_snd {σ α ω : Type} (step : σ → α → ω × σ) (s : σ) (as bs : List α) :
    (runSteps step s (as ++ bs)).2 = (runSteps step (runSteps step s as).2 bs).2 := by
  induction as generalizing s with
  | nil => rfl
  | cons a as ih => exact ih (step s a).2

/-- Systems that say the same in every step from related states, and stay related, say the same in every run. -/
theorem runSteps_refines {σ τ α ω : Type} {step : σ → α → ω × σ} {step' : τ → α → ω × τ} {R : σ → τ → Prop}
    (hstep : ∀ s t, R s t → ∀ a, (step s a).1 = (step' t a).1 ∧ R (step s a).2 (step' t a).2) {s : σ} {t : τ}
    (h : R s t) (as : List α) :
    (runSteps step s as).1 = (runSteps step' t as).1 ∧ R (runSteps step s as).2 (runSteps step' t as).2 := by
  induction as generalizing s t with
  | nil => exact ⟨rfl, h⟩
  | cons a as ih =>
    obtain ⟨houtcome, hrelated⟩ := hstep s t h a
    obtain ⟨hall, hfinal⟩ := ih hrelated
    refine ⟨?_, hfinal⟩
    rw [runSteps, runSteps, houtcome, hall]

variable [Arrangement]

/-! ### Changes of an index -/

/-- A call that changes an index.  Each removal says for itself whether it prunes. -/
inductive IndexChange
  | insert (t : Triple Nat)
  | erase (prune : Bool) (t : Triple Nat)
  deriving DecidableEq, Repr

namespace IndexChange

/-- The call on an index, and whether it says that something has changed. -/
def run (g : GraphIndex) : IndexChange → Bool × GraphIndex
  | insert t => g.insert t
  | erase prune t => g.erase prune t

/-- The call on a set, and whether it changes the set. -/
def replay (s : Finset (Triple Nat)) : IndexChange → Bool × Finset (Triple Nat)
  | insert t => (decide (t ∉ s), Insert.insert t s)
  | erase _ t => (decide (t ∈ s), s.erase t)

/-- A call that says that nothing has changed leaves the index as it is, empty levels included. -/
theorem run_of_fst_eq_false {g : GraphIndex} {c : IndexChange} (h : (c.run g).1 = false) : (c.run g).2 = g := by
  cases c with
  | insert t =>
    have ht : g.contains t = true := by simpa [run] using h
    rw [run, GraphIndex.insert_of_contains ht]
  | erase prune t =>
    have ht : g.contains t = false := by simpa [run] using h
    rw [run, GraphIndex.erase_of_not_contains prune ht]

end IndexChange

namespace GraphIndex

theorem triples_empty : triples {} = ∅ := by
  ext t
  rw [coherent_empty.mem_triples, contains_empty]
  simp

theorem Coherent.triples_erase {g : GraphIndex} (hg : g.Coherent) (prune : Bool) (t : Triple Nat) :
    (g.erase prune t).2.triples = g.triples.erase t := by
  ext u
  rw [(hg.erase prune t).mem_triples, contains_erase, Finset.mem_erase, hg.mem_triples, and_comm]

end GraphIndex

/-- A call on a coherent index keeps it coherent, and does and says what it does and says on the set of its triples. -/
theorem IndexChange.run_refines (c : IndexChange) {g : GraphIndex} (hg : g.Coherent) :
    (c.run g).1 = (c.replay g.triples).1 ∧ (c.run g).2.Coherent ∧ (c.run g).2.triples = (c.replay g.triples).2 := by
  cases c with
  | insert t =>
    refine ⟨?_, hg.insert t, hg.triples_insert t⟩
    rw [run, GraphIndex.insert_fst, replay, Bool.eq_iff_iff, decide_eq_true_iff, hg.mem_triples]
    simp
  | erase prune t =>
    refine ⟨?_, hg.erase prune t, hg.triples_erase prune t⟩
    rw [run, GraphIndex.erase_fst, replay, Bool.eq_iff_iff, decide_eq_true_iff, hg.mem_triples]

namespace GraphIndex

/-! ### What an index shows -/

/-- An index shows the triples of a set: each tree holds them, every lookup lists and counts those of its pattern, and
the whole is counted. -/
structure Represents (g : GraphIndex) (s : Finset (Triple Nat)) : Prop where
  holds : ∀ order t, g.holds order t = true ↔ t ∈ s
  contains : ∀ t, g.contains t = true ↔ t ∈ s
  size : g.size = s.card
  isEmpty : g.isEmpty = true ↔ s = ∅
  nodup_matching : ∀ pattern, (g.matching pattern).Nodup
  mem_matching : ∀ pattern t, t ∈ g.matching pattern ↔ t ∈ s ∧ pattern.Matches t
  count : ∀ pattern, g.count pattern = (s.filter (pattern.Matches ·)).card

/-- A coherent index represents its triples. -/
theorem Coherent.represents {g : GraphIndex} (hg : g.Coherent) : g.Represents g.triples where
  holds order t := by rw [hg order t, hg.mem_triples]
  contains t := hg.mem_triples.symm
  size := hg.card_triples.symm
  isEmpty := by
    rw [isEmpty_iff, Finset.eq_empty_iff_forall_notMem]
    simp only [hg.mem_triples, Bool.not_eq_true]
  nodup_matching := g.nodup_matching
  mem_matching pattern t := by rw [hg.mem_matching, hg.mem_triples]
  count pattern := by
    have hlisted : (g.matching pattern).toFinset = g.triples.filter (pattern.Matches ·) := by
      ext t
      rw [List.mem_toFinset, hg.mem_matching, Finset.mem_filter, hg.mem_triples]
    rw [count_eq, ← List.toFinset_card_of_nodup (g.nodup_matching pattern), hlisted]

/-- After any calls on an empty index, whether or not each removal prunes, every call has said what it says on a set of
triples and the index represents this set.  A further call that says that nothing has changed changes nothing. -/
theorem represents_replay (cs : List IndexChange) :
    (runSteps IndexChange.run {} cs).1 = (runSteps IndexChange.replay ∅ cs).1 ∧
      (runSteps IndexChange.run {} cs).2.Represents (runSteps IndexChange.replay ∅ cs).2 ∧
      ∀ c : IndexChange, (c.run (runSteps IndexChange.run {} cs).2).1 = false →
        (c.run (runSteps IndexChange.run {} cs).2).2 = (runSteps IndexChange.run {} cs).2 := by
  -- the invariant of the run: the index is coherent and the set is that of its triples
  have hstep : ∀ (g : GraphIndex) s, g.Coherent ∧ g.triples = s → ∀ c : IndexChange,
      (c.run g).1 = (c.replay s).1 ∧ (c.run g).2.Coherent ∧ (c.run g).2.triples = (c.replay s).2 := by
    rintro g _ ⟨hg, rfl⟩ c
    exact c.run_refines hg
  obtain ⟨houtcome, hcoherent, htriples⟩ := runSteps_refines hstep ⟨coherent_empty, triples_empty⟩ cs
  refine ⟨houtcome, ?_, fun c => IndexChange.run_of_fst_eq_false⟩
  rw [← htriples]
  exact hcoherent.represents

end GraphIndex

end RdfDataset
