import RdfDataset.Proofs.Dataset.Change

/-!
# Datasets as sets

A dataset answers every sequence of calls as a plain set of quads does on which the sequence is replayed.

* `Update` is a call that changes a dataset, with `Update.run` for datasets and `Update.replay` for sets.
* `Update.run_refines` is one step: it gives the same outcome and goes on with the same quads.
* `Dataset.refines_set`: after any sequence of calls, the outcomes and all later answers are those of the set.
-/

namespace RdfDataset

/-! ### Patterns -/

/-- The pattern of one quad. -/
def Quad.pattern (q : Quad) : Pattern :=
  ⟨some q.subject, some q.predicate, some q.object, some q.graph⟩

theorem Quad.matches_pattern {q r : Quad} : q.pattern.Matches r ↔ r = q := by
  obtain ⟨s, p, o, g⟩ := q
  obtain ⟨s', p', o', g'⟩ := r
  simp [Quad.pattern, Pattern.Matches]

theorem Quad.IsValid.pattern {q : Quad} (hq : q.IsValid) : q.pattern.IsValid := by
  obtain ⟨hs, hp, ho, hg⟩ := Quad.isValid_iff.1 hq
  constructor
  · rintro t ⟨⟩
    exact hs
  · rintro t ⟨⟩
    exact hp
  · rintro t ⟨⟩
    exact ho
  · rintro t ⟨⟩
    exact hg

private theorem Pattern.matches_graph {graph : Term} {q : Quad} :
    ({ graph := some graph } : Pattern).Matches q ↔ q.graph = graph := by
  simp [Pattern.Matches]

/-! ### Calls -/

/-- A call that changes a dataset. -/
inductive Update
  | insert (q : Quad)
  | insertMany (quads : List Quad)
  | extend (quads : List Quad)
  | erase (q : Quad)
  | eraseMany (quads : List Quad)
  | eraseMatching (pattern : Pattern)
  | eraseGraph (graph : Term)
  | freshBlank (suggestion : Option String)
  | resetBlankCounter
  deriving DecidableEq, Repr

/-- What a call says about the quads. -/
inductive Outcome
  | changed (isChanged : Bool)
  | counted (n : Nat)
  | silent
  deriving DecidableEq, Repr

section

variable [Arrangement]

namespace Update

/-- Only valid terms are put in. -/
def IsValid : Update → Prop
  | insert q | erase q => q.IsValid
  | insertMany quads | extend quads | eraseMany quads => ∀ q ∈ quads, q.IsValid
  | eraseMatching pattern => pattern.IsValid
  | eraseGraph graph => graph.IsValid
  | freshBlank _ | resetBlankCounter => True

/-- The call on a dataset. -/
def run (d : Dataset) : Update → Outcome × Dataset
  | insert q => (.changed (d.insert q).1, (d.insert q).2)
  | insertMany quads => (.counted (d.insertMany quads).1, (d.insertMany quads).2)
  | extend quads => (.silent, (d.insertMany quads).2)
  | erase q => (.changed (d.erase q).1, (d.erase q).2)
  | eraseMany quads => (.counted (d.eraseMany quads).1, (d.eraseMany quads).2)
  | eraseMatching pattern => (.counted (d.eraseMatching pattern).1, (d.eraseMatching pattern).2)
  | eraseGraph graph => (.counted (d.eraseGraph graph).1, (d.eraseGraph graph).2)
  | freshBlank suggestion => (.silent, (d.freshBlank suggestion).2)
  | resetBlankCounter => (.silent, d.resetBlankCounter)

/-- The call on a set. -/
def replay (quads : Finset Quad) : Update → Outcome × Finset Quad
  | insert q => (.changed (decide (q ∉ quads)), Insert.insert q quads)
  | insertMany new => (.counted (new.toFinset \ quads).card, quads ∪ new.toFinset)
  | extend new => (.silent, quads ∪ new.toFinset)
  | erase q => (.changed (decide (q ∈ quads)), quads.erase q)
  | eraseMany old => (.counted (quads ∩ old.toFinset).card, quads \ old.toFinset)
  | eraseMatching pattern =>
    (.counted (quads.filter (pattern.Matches ·)).card, quads.filter (¬pattern.Matches ·))
  | eraseGraph graph => (.counted (quads.filter (·.graph = graph)).card, quads.filter (·.graph ≠ graph))
  | freshBlank _ | resetBlankCounter => (.silent, quads)

/-- The calls on a dataset one after the other, with their outcomes. -/
def runAll (d : Dataset) : List Update → List Outcome × Dataset
  | [] => ([], d)
  | u :: us => ((u.run d).1 :: (runAll (u.run d).2 us).1, (runAll (u.run d).2 us).2)

/-- The calls on a set one after the other, with their outcomes. -/
def replayAll (quads : Finset Quad) : List Update → List Outcome × Finset Quad
  | [] => ([], quads)
  | u :: us => ((u.replay quads).1 :: (replayAll (u.replay quads).2 us).1, (replayAll (u.replay quads).2 us).2)

/-- A call on a valid dataset keeps it valid, and does and says what it does and says on the set of its quads. -/
theorem run_refines {d : Dataset} (hd : d.Valid) {u : Update} (hu : u.IsValid) :
    (u.run d).2.Valid ∧ (u.run d).1 = (u.replay d.quads).1 ∧ (u.run d).2.quads = (u.replay d.quads).2 := by
  cases u with
  | insert q =>
    obtain ⟨hvalid, -, hquads, hnew⟩ := hd.insert hu
    dsimp only [run, replay]
    exact ⟨hvalid, congrArg Outcome.changed hnew, hquads⟩
  | insertMany quads =>
    obtain ⟨hvalid, -, hquads, hcount⟩ := hd.insertMany hu
    dsimp only [run, replay]
    exact ⟨hvalid, congrArg Outcome.counted hcount, hquads⟩
  | extend quads =>
    obtain ⟨hvalid, -, hquads, -⟩ := hd.insertMany hu
    dsimp only [run, replay]
    exact ⟨hvalid, rfl, hquads⟩
  | erase q =>
    obtain ⟨hvalid, -, hquads, hthere⟩ := hd.erase hu
    dsimp only [run, replay]
    exact ⟨hvalid, congrArg Outcome.changed hthere, hquads⟩
  | eraseMany quads =>
    obtain ⟨hvalid, -, hquads, hcount⟩ := hd.eraseMany hu
    dsimp only [run, replay]
    exact ⟨hvalid, congrArg Outcome.counted hcount, hquads⟩
  | eraseMatching pattern =>
    obtain ⟨hvalid, -, hquads, hcount⟩ := hd.eraseMatching hu
    dsimp only [run, replay]
    exact ⟨hvalid, congrArg Outcome.counted hcount, hquads⟩
  | eraseGraph graph =>
    have hpattern : ({ graph := some graph } : Pattern).IsValid := by
      constructor
      · simp
      · simp
      · simp
      · rintro t ⟨⟩
        exact hu
    obtain ⟨hvalid, -, hquads, hcount⟩ := hd.eraseMatching hpattern
    simp only [Pattern.matches_graph] at hquads hcount
    dsimp only [run, replay]
    exact ⟨hvalid, congrArg Outcome.counted hcount, hquads⟩
  | freshBlank suggestion =>
    obtain ⟨hvalid, -, hquads⟩ := hd.freshBlank suggestion
    exact ⟨hvalid, rfl, hquads⟩
  | resetBlankCounter => exact ⟨hd.resetBlankCounter.1, rfl, hd.resetBlankCounter.2⟩

/-- The same for a sequence of calls. -/
theorem runAll_refines {d : Dataset} (hd : d.Valid) {us : List Update} (hus : ∀ u ∈ us, u.IsValid) :
    (runAll d us).2.Valid ∧ (runAll d us).1 = (replayAll d.quads us).1 ∧
      (runAll d us).2.quads = (replayAll d.quads us).2 := by
  induction us generalizing d with
  | nil => exact ⟨hd, rfl, rfl⟩
  | cons u us ih =>
    obtain ⟨hvalid, houtcome, hquads⟩ := run_refines hd (hus u List.mem_cons_self)
    obtain ⟨hvalid', houtcomes, hquads'⟩ := ih hvalid fun v hv => hus v (List.mem_cons_of_mem u hv)
    rw [hquads] at houtcomes hquads'
    refine ⟨hvalid', ?_, hquads'⟩
    simp only [runAll, replayAll, houtcome, houtcomes]

end Update

namespace Dataset

/-- A dataset answers all queries of valid terms from a set of quads. -/
structure Answers (d : Dataset) (quads : Finset Quad) : Prop where
  nodup_matching : ∀ pattern, pattern.IsValid → (d.matching pattern).Nodup
  mem_matching : ∀ pattern, pattern.IsValid → ∀ q, q ∈ d.matching pattern ↔ q ∈ quads ∧ pattern.Matches q
  count : ∀ pattern, pattern.IsValid → d.count pattern = (d.matching pattern).length
  contains : ∀ q, q.IsValid → (d.contains q = true ↔ q ∈ quads)
  contains_iff_matching : ∀ q, q.IsValid → (d.contains q = true ↔ d.matching q.pattern ≠ [])
  any : ∀ pattern, pattern.IsValid → ∀ test,
    (d.any pattern test = true ↔ ∃ q ∈ quads, pattern.Matches q ∧ test q = true)
  every : ∀ pattern, pattern.IsValid → ∀ test,
    (d.every pattern test = true ↔
      (∃ q ∈ quads, pattern.Matches q) ∧ ∀ q ∈ quads, pattern.Matches q → test q = true)

/-- A valid dataset answers from its quads. -/
theorem Valid.answers {d : Dataset} (hd : d.Valid) : d.Answers d.quads where
  nodup_matching pattern _ := hd.nodup_matching pattern
  mem_matching _ hpattern _ := hd.mem_matching hpattern
  count pattern _ := hd.count_eq pattern
  contains _ hq := hd.contains_iff hq
  contains_iff_matching q hq := by
    rw [hd.contains_iff hq, ne_eq, List.eq_nil_iff_forall_not_mem]
    simp only [hd.mem_matching hq.pattern, Quad.matches_pattern, not_and', forall_eq, not_not]
  any pattern hpattern test := by
    simp only [Dataset.any, List.any_eq_true, hd.mem_matching hpattern, and_assoc]
  every pattern hpattern test := by
    have hsome : (!(d.matching pattern).isEmpty) = true ↔ ∃ q ∈ d.quads, pattern.Matches q := by
      rw [Bool.not_eq_true', List.isEmpty_eq_false_iff_exists_mem]
      simp only [hd.mem_matching hpattern]
    simp only [Dataset.every, Bool.and_eq_true, hsome, List.all_eq_true, hd.mem_matching hpattern, and_imp]

/-- After any calls on an empty dataset, pruning or not, each call has had the outcome that it has on a set of quads,
and everything that is asked of the dataset is answered from this set. -/
theorem refines_set (settings : Settings) {us : List Update} (hus : ∀ u ∈ us, u.IsValid) :
    (Update.runAll { settings } us).1 = (Update.replayAll ∅ us).1 ∧
      (Update.runAll { settings } us).2.Answers (Update.replayAll ∅ us).2 := by
  obtain ⟨hvalid, houtcomes, hquads⟩ := Update.runAll_refines (Valid.empty settings) hus
  rw [Valid.quads_empty] at houtcomes hquads
  rw [← hquads]
  exact ⟨houtcomes, hvalid.answers⟩

end Dataset

end

/-- Quads that come and go, in batches with repetitions, without pruning, among them one about a quoted quad. -/
theorem Dataset.refines_set_batches :
    let q : Quad := ⟨.blank "n", .iri "a:p", .literal (.plain "\""), .defaultGraph⟩
    let r : Quad := ⟨q.quote, .iri "a:p", .blank "n", .iri "a:g"⟩
    let d := Update.runAll { settings := { pruneEmptyLevels := false } }
      [.insert q, .insertMany [r, q, r], .freshBlank none, .erase q, .eraseMany [q, q], .eraseGraph (.iri "a:unseen"),
        .insert q, .eraseMatching { subject := some (.blank "n") }]
    d.1 = [.changed true, .counted 1, .silent, .changed true, .counted 0, .counted 0, .changed true, .counted 1] ∧
      (d.2.contains r = true ∧ ¬d.2.contains q = true) := by
  have hlabel : checkBlank "n" = .ok () := by decide
  have hpredicate : checkIri "a:p" = .ok () := by decide
  have hgraph : checkIri "a:g" = .ok () := by decide
  have hunseen : checkIri "a:unseen" = .ok () := by decide
  intro q r d
  have hq : q.IsValid := by
    rw [Quad.isValid_iff]
    exact ⟨Term.isValid_blank.2 hlabel, Term.isValid_iri.2 hpredicate, .plain _, .defaultGraph⟩
  have hr : r.IsValid := by
    rw [Quad.isValid_iff]
    exact ⟨hq, Term.isValid_iri.2 hpredicate, Term.isValid_blank.2 hlabel, Term.isValid_iri.2 hgraph⟩
  have hpattern : ({ subject := some (.blank "n") } : Pattern).IsValid := by
    constructor <;> simp [hlabel]
  have hus : ∀ u ∈ ([.insert q, .insertMany [r, q, r], .freshBlank none, .erase q, .eraseMany [q, q],
      .eraseGraph (.iri "a:unseen"), .insert q, .eraseMatching { subject := some (.blank "n") }] : List Update),
      u.IsValid := by
    simp [Update.IsValid, hq, hr, hpattern, hunseen]
  obtain ⟨houtcomes, hanswers⟩ := refines_set { pruneEmptyLevels := false } hus
  refine ⟨houtcomes.trans (by decide), ?_, ?_⟩
  · rw [hanswers.contains r hr]
    decide
  · rw [hanswers.contains q hq]
    decide

end RdfDataset
