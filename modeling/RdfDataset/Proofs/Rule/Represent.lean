import RdfDataset.Proofs.Reasoning.Basic
import RdfDataset.Proofs.Rule.Scope

/-!
# Rules that can be reasoned with

Reasoning with rules asks only that their constants are not taken for other terms, whatever else has a number.

* `CompiledRule.Transcribes.exists_represents`: a transcribed rule is represented if its constants are distinguished.
* `Interner.Sound.exists_usable`: usable rules with such constants can be reasoned with.
-/

namespace RdfDataset

theorem mem_positions {patterns : List TriplePattern} {pattern : TriplePattern} (hpattern : pattern ∈ patterns)
    {t : Term} (ht : t ∈ pattern.toList) : t ∈ positions patterns :=
  List.mem_flatMap.2 ⟨pattern, hpattern, ht⟩

namespace CompiledRule.Transcribes

variable {c : CompiledRule} {rule : Rule} {terms : Interner} {slot : Term → Slot}

/-- The names of the variables of a compiled rule, in the order of their numbers. -/
private theorem exists_names (h : c.Transcribes rule terms slot) :
    ∃ names : List String, names.length = c.variableCount ∧
      ∀ t ∈ positions (rule.premise ++ rule.conclusion), ∀ name, t = .var name →
        ∃ number, slot t = .var number ∧ names.idxOf? name = some number := by
  have hname : ∀ number, ∃ name, number < c.variableCount →
      .var name ∈ positions rule.premise ∧ slot (.var name) = .var number := by
    intro number
    by_cases hlt : number < c.variableCount
    · obtain ⟨t, ht, hslot⟩ := h.numbers number hlt
      have hmem : t ∈ positions (rule.premise ++ rule.conclusion) := by
        rw [positions_append]
        exact List.mem_append_left _ ht
      obtain ⟨name, hvar, -⟩ := (h.same t hmem t hmem).1 ⟨number, hslot, hslot⟩
      exact ⟨name, fun _ => hvar ▸ ⟨ht, hslot⟩⟩
    · exact ⟨"", fun hlt' => absurd hlt' hlt⟩
  choose nameOf hnameOf using hname
  refine ⟨(List.range c.variableCount).map nameOf, by simp, ?_⟩
  intro t ht name hvar
  obtain ⟨number, hslot, -⟩ := (h.same t ht t ht).2 ⟨name, hvar, hvar⟩
  have hlt := h.below t ht number hslot
  have hmem : ∀ number < c.variableCount, .var (nameOf number) ∈ positions (rule.premise ++ rule.conclusion) := by
    intro number hlt
    rw [positions_append]
    exact List.mem_append_left _ (hnameOf number hlt).1
  -- the variable with this number is the term itself
  obtain ⟨other, hother, hvar'⟩ := (h.same _ (hmem number hlt) t ht).1 ⟨number, (hnameOf number hlt).2, hslot⟩
  have hself : nameOf number = name := by
    rw [hvar, ← hother] at hvar'
    exact (Term.var.inj hvar').symm
  refine ⟨number, hslot, List.idxOf?_eq_some_iff.2 ⟨by simpa using hlt, by simpa using hself, ?_⟩⟩
  intro place hplace hearlier
  simp only [List.getElem_map, List.getElem_range] at hearlier
  have hslot' := (hnameOf place (hplace.trans hlt)).2
  rw [hearlier, ← hvar, hslot] at hslot'
  exact hplace.ne (Slot.var.inj hslot').symm

/-- The slot of a term stands for the term, if the term is a variable or a constant that is distinguished. -/
private theorem stands_slot (h : c.Transcribes rule terms slot) (hterms : terms.Sound) {names : List String}
    (hconstants : ∀ t ∈ positions (rule.premise ++ rule.conclusion), t.isVar = false → terms.Distinguishes t)
    (hnames : ∀ t ∈ positions (rule.premise ++ rule.conclusion), ∀ name, t = .var name →
      ∃ number, slot t = .var number ∧ names.idxOf? name = some number) :
    ∀ t ∈ positions (rule.premise ++ rule.conclusion), Stands names terms t (slot t) := by
  intro t ht
  by_cases hvar : t.isVar = true
  · obtain ⟨name, rfl⟩ : ∃ name, t = .var name := by cases t <;> simp_all [Term.isVar]
    obtain ⟨number, hslot, hindex⟩ := hnames _ ht name rfl
    rw [hslot]
    exact .var hindex
  · rw [Bool.not_eq_true] at hvar
    obtain ⟨id, hslot, hfind⟩ := h.constant t ht hvar
    rw [hslot]
    exact .const hvar ((hterms.find?_eq_some_iff (hconstants t ht hvar)).1 hfind)

/-- Each number of a variable stands in an atom of the premise. -/
private theorem exists_premise_of_lt (h : c.Transcribes rule terms slot) {number : Nat}
    (hnumber : number < c.variableCount) :
    ∃ atom ∈ c.premise, .var number ∈ atom.toList := by
  obtain ⟨t, ht, hslot⟩ := h.numbers number hnumber
  obtain ⟨pattern, hpattern, ht⟩ := List.mem_flatMap.1 ht
  refine ⟨pattern.map slot, h.premise ▸ List.mem_map_of_mem hpattern, ?_⟩
  rw [← hslot]
  simp only [Triple.toList, List.mem_cons, List.not_mem_nil, or_false] at ht ⊢
  rcases ht with rfl | rfl | rfl
  · exact .inl rfl
  · exact .inr (.inl rfl)
  · exact .inr (.inr rfl)

/-- A transcribed rule represents its rule if its constants are distinguished from other terms. -/
theorem exists_represents (h : c.Transcribes rule terms slot) (hterms : terms.Sound) (hnonempty : rule.premise ≠ [])
    (hconstants : ∀ t ∈ positions (rule.premise ++ rule.conclusion), t.isVar = false → terms.Distinguishes t) :
    ∃ names, c.Represents names terms rule := by
  obtain ⟨names, hlength, hnames⟩ := h.exists_names
  have hstands := h.stands_slot hterms hconstants hnames
  have hatoms : ∀ patterns, (∀ t ∈ positions patterns, t ∈ positions (rule.premise ++ rule.conclusion)) →
      List.Forall₂ (AtomStands names terms) patterns (patterns.map (Triple.map slot)) := by
    intro patterns hmem
    rw [List.forall₂_map_right_iff, List.forall₂_same]
    intro pattern hpattern
    have hpositions : ∀ t ∈ pattern.toList, Stands names terms t (slot t) :=
      fun t ht => hstands t (hmem t (mem_positions hpattern ht))
    simp only [Triple.toList, List.forall_mem_cons] at hpositions
    exact ⟨hpositions.1, hpositions.2.1, hpositions.2.2.1⟩
  refine ⟨names, hnonempty, ?_, ?_, hlength.symm, ?_⟩
  · rw [h.premise]
    refine hatoms rule.premise fun t ht => ?_
    rw [positions_append]
    exact List.mem_append_left _ ht
  · rw [h.conclusion]
    refine hatoms rule.conclusion fun t ht => ?_
    rw [positions_append]
    exact List.mem_append_right _ ht
  · intro number hnumber
    rw [hlength] at hnumber
    exact h.exists_premise_of_lt hnumber

end CompiledRule.Transcribes

/-- Usable rules can be reasoned with if their constants are not taken for other terms. -/
theorem Interner.Sound.exists_usable {terms : Interner} (hterms : terms.Sound) {rules : List Rule}
    (hrules : ∀ rule ∈ rules, rule.IsUsable)
    (hconstants : ∀ rule ∈ rules, ∀ t ∈ positions (rule.premise ++ rule.conclusion), t.isVar = false →
      (compileRules rules terms).2.Distinguishes t) :
    ∃ compiled, Usable rules terms compiled := by
  obtain ⟨compiled, hcompiled⟩ := (exists_compileRules_iff hterms).2 hrules
  obtain ⟨hlinked, htranscribes⟩ := transcribes_of_compileRules hterms hcompiled
  obtain ⟨hsound, hkeeps, -⟩ := compileRules_over rules hterms
  refine ⟨compiled, hcompiled, hsound, hkeeps, hlinked, ?_⟩
  obtain ⟨hlength, hget⟩ := List.forall₂_iff_get.1 htranscribes
  refine List.forall₂_iff_get.2 ⟨hlength, fun place hrule hc => ?_⟩
  obtain ⟨slot, hslot⟩ := hget place hrule hc
  have hmem : rules.get ⟨place, hrule⟩ ∈ rules := List.get_mem _ _
  exact hslot.exists_represents hsound (hrules _ hmem).nonempty (hconstants _ hmem)

end RdfDataset
