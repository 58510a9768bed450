import RdfDataset.Proofs.Dataset.BlankNode

/-!
# The counter of blank nodes

Blank nodes without a suggested label are counted.  Nothing else moves the counter, but for starting it again, and it
never gets ahead of the terms.

* `Dataset.nextBlank_insertMany`, `Dataset.nextBlank_eraseMatching`, `Dataset.nextBlank_reasonOver` and so on: what
  changes quads and what reasons leaves the counter alone.
* `Dataset.Reachable.exists_resolve?_of_lt_nextBlank`: all labels below the counter have been used.
* `Dataset.Reachable.nextBlank_le_size`: so the counter is at most the number of terms.
-/

namespace RdfDataset.Dataset

variable [Arrangement] (d : Dataset)

/-! ### What leaves the counter alone -/

theorem nextBlank_insert (q : Quad) : (d.insert q).2.nextBlank = d.nextBlank := by
  simp only [Dataset.insert]

theorem nextBlank_insertMany (quads : List Quad) : (d.insertMany quads).2.nextBlank = d.nextBlank :=
  insertMany_induction (P := fun d' => d'.nextBlank = d.nextBlank) rfl (fun d' q h => (d'.nextBlank_insert q).trans h)
    quads

private theorem nextBlank_eraseIds (d' : Dataset) (graph : Nat) (t : Triple Nat) (h : d'.nextBlank = d.nextBlank) :
    (d'.eraseIds graph t).2.nextBlank = d.nextBlank :=
  (d'.terms_eraseIds graph t).2.trans h

theorem nextBlank_erase (q : Quad) : (d.erase q).2.nextBlank = d.nextBlank :=
  erase_induction (P := fun d' => d'.nextBlank = d.nextBlank) rfl d.nextBlank_eraseIds q

theorem nextBlank_eraseMany (quads : List Quad) : (d.eraseMany quads).2.nextBlank = d.nextBlank :=
  eraseMany_induction (P := fun d' => d'.nextBlank = d.nextBlank) rfl d.nextBlank_eraseIds quads

theorem nextBlank_eraseMatching (pattern : Pattern) : (d.eraseMatching pattern).2.nextBlank = d.nextBlank :=
  eraseMatching_induction (P := fun d' => d'.nextBlank = d.nextBlank) rfl d.nextBlank_eraseIds pattern

theorem nextBlank_extractLists (options : ExtractOptions) : (d.extractLists options).2.nextBlank = d.nextBlank :=
  extractLists_induction (P := fun d' => d'.nextBlank = d.nextBlank) rfl d.nextBlank_eraseIds options

theorem nextBlank_size : d.size.2.nextBlank = d.nextBlank := by
  unfold Dataset.size
  split <;> rfl

theorem nextBlank_load (format : Format) (text : String) (base : Option String) :
    (d.load format text base).2.nextBlank = d.nextBlank := by
  obtain ⟨e, -, h⟩ | ⟨quads, -, h⟩ := d.load_cases format text base
  · rw [h]
  · rw [h]
    exact d.nextBlank_insertMany quads

theorem nextBlank_closeGraph (rules : List CompiledRule) (stats : ReasoningStats) (graph : Nat) :
    (d.closeGraph rules stats graph).2.nextBlank = d.nextBlank := by
  cases hget : d.graphs[graph]? with
  | none => rw [closeGraph_of_none rules stats hget]
  | some index => rw [closeGraph_of_some rules stats hget]

theorem nextBlank_closeGraphs (rules : List CompiledRule) (graphs : List Nat) :
    (d.closeGraphs rules graphs).2.nextBlank = d.nextBlank :=
  List.foldlRecOn graphs (fun r graph => r.2.closeGraph rules r.1 graph) (motive := fun r => r.2.nextBlank = d.nextBlank)
    (b := ({ rules := rules.length }, d)) rfl fun r h graph _ => (r.2.nextBlank_closeGraph rules r.1 graph).trans h

theorem nextBlank_reasonOver (rules : List Rule) (choose : Dataset → List Nat) :
    (d.reasonOver rules choose).2.nextBlank = d.nextBlank := by
  unfold Dataset.reasonOver
  dsimp only
  split
  · rfl
  · exact nextBlank_closeGraphs _ _ _

/-- An update leaves the counter alone, or asks for a blank node, or starts the counter again. -/
theorem nextBlank_update (u : Update) :
    (u.run d).2.nextBlank = d.nextBlank ∨ (∃ suggestion, (u.run d).2 = (d.freshBlank suggestion).2) ∨
      (u.run d).2 = d.resetBlankCounter := by
  cases u <;> dsimp only [Update.run]
  case insert q => exact .inl (d.nextBlank_insert q)
  case insertMany quads => exact .inl (d.nextBlank_insertMany quads)
  case extend quads => exact .inl (d.nextBlank_insertMany quads)
  case erase q => exact .inl (d.nextBlank_erase q)
  case eraseMany quads => exact .inl (d.nextBlank_eraseMany quads)
  case eraseMatching pattern => exact .inl (d.nextBlank_eraseMatching pattern)
  case eraseGraph graph => exact .inl (d.nextBlank_eraseMatching _)
  case freshBlank suggestion => exact .inr (.inl ⟨suggestion, rfl⟩)
  case resetBlankCounter => exact .inr (.inr rfl)

/-- So does every call. -/
theorem Step.nextBlank {d d' : Dataset} (h : Step d d') :
    d'.nextBlank = d.nextBlank ∨ (∃ suggestion, d' = (d.freshBlank suggestion).2) ∨ d' = d.resetBlankCounter := by
  cases h with
  | update hu => exact d.nextBlank_update _
  | size => exact .inl d.nextBlank_size
  | extractLists options => exact .inl (d.nextBlank_extractLists options)
  | load format text base => exact .inl (d.nextBlank_load format text base)
  | reason hrules => exact .inl (d.nextBlank_reasonOver _ _)
  | reasonIn hrules graph => exact .inl (d.nextBlank_reasonOver _ _)

/-! ### Labels below the counter -/

variable {d}

/-- A label that is looked for without a suggestion has a number unless it is unused. -/
theorem Reachable.exists_resolve?_countedLabel (hd : d.Reachable) {n : Nat} :
    (∃ number, d.terms.resolve? number = some (.blank (d.countedLabel n))) ↔
      d.terms.find? (.blank (d.countedLabel n)) ≠ none := by
  have hlabel : (Term.blank (d.countedLabel n)).IsValid :=
    Term.isValid_blank.2 (checkBlank_append (checkBlank_of_check hd.check_settings) n)
  rw [ne_eq, hd.valid.terms.find?_eq_none_iff hlabel]
  push Not
  rfl

/-- All labels below the counter have been used: they were given to blank nodes, or had been used before. -/
theorem Reachable.exists_resolve?_of_lt_nextBlank (hd : d.Reachable) :
    ∀ n < d.nextBlank, ∃ number, d.terms.resolve? number = some (.blank (d.countedLabel n)) := by
  induction hd with
  | init h =>
    obtain ⟨_, -, h⟩ := bind_eq_ok.1 h
    rw [← pure_eq_ok.1 h]
    exact fun n hn => absurd hn (Nat.not_lt_zero n)
  | @step d d' hd hstep ih =>
    have hevolves := hstep.evolves hd.sound
    have hold : ∀ n, d.terms.find? (.blank (d.countedLabel n)) ≠ none →
        ∃ number, d'.terms.resolve? number = some (.blank (d'.countedLabel n)) := by
      intro n hn
      obtain ⟨number, hnumber⟩ := hd.exists_resolve?_countedLabel.2 hn
      rw [countedLabel, hevolves.settings]
      exact ⟨number, hevolves.keeps number _ hnumber⟩
    have hkept : ∀ n < d.nextBlank, ∃ number, d'.terms.resolve? number = some (.blank (d'.countedLabel n)) :=
      fun n hn => hold n (hd.exists_resolve?_countedLabel.1 (ih n hn))
    rcases hstep.nextBlank with hnext | ⟨suggestion, hfresh⟩ | hreset
    · rwa [hnext]
    · by_cases hnone : suggestion = none ∨ suggestion = some ""
      · -- the labels from the counter on up to the new one were used, and the new one is used now
        obtain ⟨made, hfirst, hmade⟩ := freshBlank_counted hd.valid.terms hd.check_settings hnone
        have hpair : d.freshBlank suggestion = (.ok (.blank (d.countedLabel made)), d') := by rw [hfresh, hmade]
        have hnext : d'.nextBlank = made + 1 := by rw [hfresh, hmade]
        obtain ⟨number, hnumber⟩ := hd.valid.exists_resolve?_of_freshBlank hpair
        rw [hnext]
        intro n hn
        rcases Nat.lt_or_ge n d.nextBlank with hlt | hge
        · exact hkept n hlt
        · rcases Nat.lt_or_ge n made with hlt | hmade
          · exact hold n (hfirst.2.2 n hge hlt)
          · rw [show n = made by omega, countedLabel, hevolves.settings]
            exact ⟨number, hnumber⟩
      · obtain ⟨base, rfl⟩ : ∃ base, suggestion = some base := by
          cases suggestion with
          | none => exact absurd (.inl rfl) hnone
          | some base => exact ⟨base, rfl⟩
        have hbase : base ≠ "" := fun h => hnone (.inr (congrArg some h))
        have hnext : d'.nextBlank = d.nextBlank := by
          rw [hfresh]
          by_cases hcheck : checkBlank base = .ok ()
          · obtain ⟨n, -, hmade⟩ := freshBlank_suggested hd.valid.terms hbase hcheck
            rw [hmade]
          · rw [freshBlank_refused hbase hcheck]
        rwa [hnext]
    · rw [hreset]
      exact fun n hn => absurd hn (Nat.not_lt_zero n)

/-- The counter is at most the number of terms. -/
theorem Reachable.nextBlank_le_size (hd : d.Reachable) : d.nextBlank ≤ d.terms.size :=
  le_size_of_used hd.valid.terms d.countedLabel_injective fun n hn =>
    hd.exists_resolve?_countedLabel.1 (hd.exists_resolve?_of_lt_nextBlank n hn)

end RdfDataset.Dataset
