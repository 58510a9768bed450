import RdfDataset.Proofs.Dataset.Numbers
import RdfDataset.Proofs.Dataset.Pruning
import RdfDataset.Proofs.Rule.Scope

/-!
# Rules that are refused

Rules are compiled before anything is done with them.  Rules that cannot be used leave a dataset with the quads that it
had, though some of their terms may have got numbers on the way, and nobody who asks for quads can tell.

* `Dataset.WithMoreTerms`: a dataset has the graphs of another one, and more of its terms may have numbers.
* `Dataset.WithMoreTerms.answer`: it gives the same answers to all questions.
* `compileRules_exact`: which rules are compiled, to what, and what is left unchanged when they are not.
-/

namespace RdfDataset

variable [Arrangement]

namespace Dataset

/-- The second dataset has the graphs of the first, and more terms may have numbers. -/
structure WithMoreTerms (d e : Dataset) : Prop where
  left : d.Sound
  right : e.Sound
  keepsTerms : d.terms.Extends e.terms
  graphs : e.graphs = d.graphs

namespace WithMoreTerms

variable {d e : Dataset} (h : d.WithMoreTerms e)
include h

/-! ### Numbers -/

theorem keeps : d.terms.Keeps e.terms :=
  h.left.terms.keeps h.right.terms h.keepsTerms

/-- No term has got a number that named another one. -/
theorem find?_of_named {t : Term} {n : Nat} (hn : n ∈ d.terms.named) (ht : e.terms.find? t = some n) :
    d.terms.find? t = some n := by
  obtain ⟨u, hu⟩ := hn
  obtain ⟨u', hu', hid⟩ := (h.right.terms _ _).1 ht
  rw [h.keepsTerms n u hu] at hu'
  exact (h.left.terms _ _).2 ⟨u, hu, Option.some.inj hu' ▸ hid⟩

theorem index (graph : Nat) : e.index graph = d.index graph := by
  rw [Dataset.index, Dataset.index, h.graphs]

theorem matchingIds (ids : IdPattern) : e.matchingIds ids = d.matchingIds ids := by
  rw [Dataset.matchingIds, Dataset.matchingIds, indices, indices, h.graphs]

/-- Numbers of quads name terms, and the same ones. -/
theorem resolveQuad? {graph : Nat} {t : Triple Nat} (ht : (d.index graph).contains t = true) :
    e.resolveQuad? graph t = d.resolveQuad? graph t := by
  obtain ⟨q, hq⟩ := h.left.consistent.named ht
  rw [hq]
  exact resolveQuad?_of_extends h.keepsTerms hq

/-- The numbers of a quad name terms. -/
theorem named {graph : Nat} {t : Triple Nat} (ht : (d.index graph).contains t = true) :
    graph ∈ d.terms.named ∧ t.subject ∈ d.terms.named ∧ t.predicate ∈ d.terms.named ∧ t.object ∈ d.terms.named := by
  obtain ⟨q, hq⟩ := h.left.consistent.named ht
  obtain ⟨hs, hp, ho, hg⟩ := resolveQuad?_eq_some.1 hq
  exact ⟨⟨_, hg⟩, ⟨_, hs⟩, ⟨_, hp⟩, ⟨_, ho⟩⟩

/-! ### Queries -/

theorem lookUpTerm {known : Option Term} {id : Option Nat} (hid : d.lookUpTerm known = some id) :
    e.lookUpTerm known = some id := by
  cases known with
  | none => exact hid
  | some t =>
    obtain ⟨n, hn, rfl⟩ := Option.map_eq_some_iff.1 hid
    rw [Dataset.lookUpTerm, h.keeps t n hn, Option.map_some]

/-- A term that is looked up as a number of the quads had this number before. -/
theorem lookUpTerm_of_agrees {known : Option Term} {id : Option Nat} (hid : e.lookUpTerm known = some id) {n : Nat}
    (hagrees : Agrees id n) (hn : n ∈ d.terms.named) : d.lookUpTerm known = some id := by
  cases known with
  | none => exact hid
  | some t =>
    obtain ⟨m, hm, rfl⟩ := Option.map_eq_some_iff.1 hid
    rw [agrees_some] at hagrees
    subst hagrees
    rw [Dataset.lookUpTerm, h.find?_of_named hn hm, Option.map_some]

theorem lookUp {pattern : Pattern} {ids : IdPattern} (hids : d.lookUp pattern = some ids) :
    e.lookUp pattern = some ids := by
  rw [lookUp_eq_some] at hids ⊢
  exact ⟨h.lookUpTerm hids.1, h.lookUpTerm hids.2.1, h.lookUpTerm hids.2.2.1, h.lookUpTerm hids.2.2.2⟩

/-- A pattern that finds anything was looked up before. -/
theorem lookUp_of_mem {pattern : Pattern} {ids : IdPattern} (hids : e.lookUp pattern = some ids)
    {x : Nat × Triple Nat} (hx : x ∈ d.matchingIds ids) : d.lookUp pattern = some ids := by
  obtain ⟨hcontains, hgraph, hs, hp, ho⟩ := h.left.consistent.mem_matchingIds.1 hx
  obtain ⟨ng, ns, np, no⟩ := h.named hcontains
  rw [lookUp_eq_some] at hids ⊢
  obtain ⟨ids, idp, ido, idg⟩ := hids
  exact ⟨h.lookUpTerm_of_agrees ids hs ns, h.lookUpTerm_of_agrees idp hp np, h.lookUpTerm_of_agrees ido ho no,
    h.lookUpTerm_of_agrees idg hgraph ng⟩

theorem matching (pattern : Pattern) : e.matching pattern = d.matching pattern := by
  unfold Dataset.matching
  cases hids : e.lookUp pattern with
  | none =>
    cases hold : d.lookUp pattern with
    | none => rfl
    | some ids =>
      rw [h.lookUp hold] at hids
      cases hids
  | some ids =>
    dsimp only
    rw [h.matchingIds]
    cases hold : d.lookUp pattern with
    | none =>
      -- only new numbers can be looked up, and no quad has them
      have hnone : d.matchingIds ids = [] := List.eq_nil_iff_forall_not_mem.2 fun x hx => by
        rw [h.lookUp_of_mem hids hx] at hold
        cases hold
      rw [hnone, List.filterMap_nil]
    | some ids' =>
      rw [h.lookUp hold] at hids
      obtain rfl := Option.some.inj hids
      exact List.filterMap_congr fun x hx => h.resolveQuad? (h.left.consistent.mem_matchingIds.1 hx).1

theorem contains (q : Quad) : e.contains q = d.contains q := by
  rw [Bool.eq_iff_iff, contains_eq_true_iff, contains_eq_true_iff]
  constructor
  · rintro ⟨graph, t, hids, ht⟩
    rw [h.index] at ht
    obtain ⟨ng, ns, np, no⟩ := h.named ht
    obtain ⟨hs, hp, ho, hg⟩ := quadIds?_eq_some.1 hids
    exact ⟨graph, t, quadIds?_eq_some.2 ⟨h.find?_of_named ns hs, h.find?_of_named np hp, h.find?_of_named no ho,
      h.find?_of_named ng hg⟩, ht⟩
  · rintro ⟨graph, t, hids, ht⟩
    obtain ⟨hs, hp, ho, hg⟩ := quadIds?_eq_some.1 hids
    refine ⟨graph, t, quadIds?_eq_some.2 ⟨h.keeps _ _ hs, h.keeps _ _ hp, h.keeps _ _ ho, h.keeps _ _ hg⟩, ?_⟩
    rwa [h.index]

theorem count (pattern : Pattern) : e.count pattern = d.count pattern := by
  rw [h.right.consistent.count_eq, h.left.consistent.count_eq, h.matching]

theorem size : e.size.1 = d.size.1 := by
  rw [h.right.size_eq, h.left.size_eq, quadNumbers, quadNumbers, h.matchingIds]

/-- It gives the same answers to all questions. -/
theorem answer (q : Query) : q.answer e = q.answer d := by
  have hd := h.left.consistent
  have he := h.right.consistent
  -- the terms in a position are those of the quads that are found, so they are the same
  have hsame : ∀ {ts us vs : List Term}, Enumerates ts vs → Enumerates us vs → Answer.terms ts = Answer.terms us :=
    fun hts hus => congrArg Answer.terms (Multiset.coe_eq_coe.2 (hts.perm hus (.refl _)))
  cases q with
  | contains q => exact congrArg Answer.holds (h.contains q)
  | matching pattern => exact congrArg (Answer.quads ∘ Multiset.ofList) (h.matching pattern)
  | count pattern => exact congrArg Answer.number (h.count pattern)
  | any pattern test => rw [Query.answer, Query.answer, Dataset.any, Dataset.any, h.matching]
  | every pattern test => rw [Query.answer, Query.answer, Dataset.every, Dataset.every, h.matching]
  | subjects pattern => exact hsame (h.matching _ ▸ he.enumerates_subjects pattern) (hd.enumerates_subjects pattern)
  | predicates pattern =>
    exact hsame (h.matching _ ▸ he.enumerates_predicates pattern) (hd.enumerates_predicates pattern)
  | objects pattern => exact hsame (h.matching _ ▸ he.enumerates_objects pattern) (hd.enumerates_objects pattern)
  | graphNames pattern =>
    exact hsame (h.matching _ ▸ he.enumerates_graphNames pattern) (hd.enumerates_graphNames pattern)

end WithMoreTerms

/-- Rules are refused before anything is done with the graphs. -/
theorem Sound.withMoreTerms_of_error {d : Dataset} (hd : d.Sound) {rules : List Rule} {choose : Dataset → List Nat}
    {e : RuleError} (h : (d.reasonOver rules choose).1 = .error e) :
    (compileRules rules d.terms).1 = .error e ∧ d.WithMoreTerms (d.reasonOver rules choose).2 := by
  have hevolves := (hd.reasonOver rules choose).1
  have hrun : (compileRules rules d.terms).1 = .error e ∧
      (d.reasonOver rules choose).2 = { d with terms := (compileRules rules d.terms).2 } := by
    unfold Dataset.reasonOver at h ⊢
    dsimp only at h ⊢
    cases hcompiled : (compileRules rules d.terms).1 with
    | error e' =>
      rw [hcompiled] at h
      exact ⟨congrArg Except.error (Except.error.inj h), rfl⟩
    | ok compiled =>
      rw [hcompiled] at h
      cases h
  exact ⟨hrun.1, ⟨hd, hevolves.sound, hevolves.keeps, by rw [hrun.2]⟩⟩

/-- They are refused if they cannot be compiled. -/
theorem reasonOver_eq_error_iff {d : Dataset} {rules : List Rule} {choose : Dataset → List Nat} {e : RuleError} :
    (d.reasonOver rules choose).1 = .error e ↔ (compileRules rules d.terms).1 = .error e := by
  unfold reasonOver
  dsimp only
  cases (compileRules rules d.terms).1 <;> simp

end Dataset

/-- Whatever terms are numbered already, exactly usable rules are compiled, and otherwise the first fault of the first
rule that has any is reported.  Each rule that is compiled has slots for its terms: equal ones for the same variable
only, all of them with a place in the environment and with a value once the premise is matched, and for a constant the
number of the term, or of one with the same id if there are terms that are not valid.  If a dataset refuses rules, then
for this reason, and all its quads, its size and its answers stay what they were. -/
theorem compileRules_exact (ts : List Term) (rules : List Rule) (settings : Settings) (calls : List Call)
    (graph : Term) :
    let terms := (runSteps Interner.intern {} ts).2
    let r := compileRules rules terms
    let d := calls.foldl Call.run { settings }
    ((∃ compiled, r.1 = .ok compiled) ↔ ∀ rule ∈ rules, rule.IsUsable) ∧
    (∀ e, r.1 = .error e ↔ ∃ before rule after, rules = before ++ rule :: after ∧
      (∀ other ∈ before, other.IsUsable) ∧ (rule.faults before.length).head? = some e) ∧
    (∀ compiled, r.1 = .ok compiled → (∀ c ∈ compiled, c.IsSafe compiled) ∧
      List.Forall₂ (fun rule c => ∃ slot, c.Transcribes rule r.2 slot ∧
        ∀ t ∈ positions (rule.premise ++ rule.conclusion), t.isVar = false →
          ∃ id u, slot t = .const id ∧ r.2.resolve? id = some u ∧ u.id = t.id ∧
            ((∀ x ∈ ts, x.IsValid) → (∀ rule ∈ rules, rule.IsValid) → u = t)) rules compiled) ∧
    ∀ run ∈ [d.reason rules, d.reasonIn rules graph], ∀ e, (run.1 = .error e ↔ r.1 = .error e) ∧
      (run.1 = .error e → run.2.toList = d.toList ∧ run.2.size.1 = d.size.1 ∧ (∀ q : Query, q.answer run.2 = q.answer d) ∧
        run.2.terms = (compileRules rules d.terms).2 ∧ d.terms.Extends run.2.terms) := by
  intro terms r d
  have hterms : terms.Sound := Interner.sound_empty.runSteps ts
  have hd : d.Sound := Dataset.sound_calls settings calls
  refine ⟨exists_compileRules_iff hterms, fun e => ?_, fun compiled hcompiled => ?_, fun run hrun e => ?_⟩
  · rw [compileRules_eq_error_iff hterms, firstFault_eq_some]
    simp only [Nat.zero_add]
  · obtain ⟨hlinked, htranscribes⟩ := transcribes_of_compileRules hterms hcompiled
    have hsound : r.2.Sound := (compileRules_over rules hterms).1
    have hmem := (List.forall₂_and_left (p := (· ∈ rules)) rules compiled).2 ⟨fun _ h => h, htranscribes⟩
    refine ⟨fun c hc => ?_, hmem.imp ?_⟩
    · obtain ⟨rule, slot, h⟩ := exists_transcribes htranscribes hc
      exact h.isSafe hlinked hc
    · rintro rule c ⟨hrule, slot, h⟩
      refine ⟨slot, h, fun t ht hvar => ?_⟩
      obtain ⟨id, u, hslot, hu, hsame⟩ := h.exists_resolve? hsound ht hvar
      refine ⟨id, u, hslot, hu, hsame, fun hts hrules => ?_⟩
      -- valid terms with the same id are the same
      have hvalid := (compileRules_spec hrules (Interner.valid_empty.runSteps hts).1).1
      obtain ⟨pattern, hpattern, ht⟩ := List.mem_flatMap.1 ht
      exact ((hvalid.isValid hu).id_inj (hrules rule hrule pattern hpattern t ht)).1 hsame
  · obtain ⟨choose, rfl⟩ : ∃ choose, run = d.reasonOver rules choose := by
      simp only [List.mem_cons, List.not_mem_nil, or_false] at hrun
      exact hrun.elim (fun h => ⟨_, h⟩) fun h => ⟨_, h⟩
    have hsame : (compileRules rules d.terms).1 = .error e ↔ r.1 = .error e := by
      rw [compileRules_eq_error_iff hd.terms, compileRules_eq_error_iff hterms]
    refine ⟨Dataset.reasonOver_eq_error_iff.trans hsame, fun herror => ?_⟩
    have hmore := (hd.withMoreTerms_of_error herror).2
    exact ⟨hmore.matching {}, hmore.size, hmore.answer, (hd.reasonOver rules choose).2, hmore.keepsTerms⟩

end RdfDataset
