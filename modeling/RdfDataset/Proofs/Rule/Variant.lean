import RdfDataset.Proofs.Rule.Represent

/-!
# Variants of rules

Neither the order of rules, nor that of the patterns in a rule, nor the names of its variables say anything about what
the rules conclude.

* `Term.rename`: a term of a rule with other names for its variables.
* `Rule.Variant`: a rule with its patterns in another order and its variables renamed; `Rule.Variant.symm`.
* `SameRules`: some rules are variants of others, in another order.
* `SameRules.isUsable_iff` and `SameRules.closedUnderRules_iff`: the same can be done with them.
-/

namespace RdfDataset

/-! ### Renaming -/

/-- A term of a rule with its variable renamed.  A quoted quad is a constant, also when there are variables in it. -/
def Term.rename (ρ : String → String) : Term → Term
  | .var name => .var (ρ name)
  | t => t

theorem Term.subst_rename (σ : String → Term) (ρ : String → String) (t : Term) :
    (t.rename ρ).subst σ = t.subst (σ ∘ ρ) := by
  cases t <;> rfl

theorem Term.rename_rename (ρ ρ' : String → String) (t : Term) : (t.rename ρ).rename ρ' = t.rename (ρ' ∘ ρ) := by
  cases t <;> rfl

/-- A renaming that keeps the variable of a term keeps the term. -/
theorem Term.rename_eq_self {ρ : String → String} {t : Term} (h : ∀ name, t = .var name → ρ name = name) :
    t.rename ρ = t := by
  cases t with
  | var name => exact congrArg Term.var (h name rfl)
  | _ => rfl

theorem Term.rename_eq_var {ρ : String → String} {t : Term} {name : String} :
    t.rename ρ = .var name ↔ ∃ old, t = .var old ∧ ρ old = name := by
  cases t <;> simp [rename]

theorem Term.rename_eq_defaultGraph {ρ : String → String} {t : Term} :
    t.rename ρ = .defaultGraph ↔ t = .defaultGraph := by
  cases t <;> simp [rename]

/-- A pattern with its variables renamed. -/
def TriplePattern.rename (ρ : String → String) (pattern : TriplePattern) : TriplePattern :=
  pattern.map (Term.rename ρ)

/-- The terms of renamed patterns, in any order, are the renamed terms. -/
theorem mem_positions_of_rename {ρ : String → String} {patterns patterns' : List TriplePattern}
    (h : (patterns.map (TriplePattern.rename ρ)).Perm patterns') {t : Term} :
    t ∈ positions patterns' ↔ ∃ u ∈ positions patterns, u.rename ρ = t := by
  have hrename : positions (patterns.map (TriplePattern.rename ρ)) = (positions patterns).map (Term.rename ρ) := by
    rw [positions, positions, List.flatMap_map, List.map_flatMap]
    rfl
  have hperm : (positions (patterns.map (TriplePattern.rename ρ))).Perm (positions patterns') :=
    h.flatMap_right Triple.toList
  rw [← hperm.mem_iff, hrename, List.mem_map]

/-- Renaming back and forth gives the patterns again. -/
theorem map_rename_rename {ρ ρ' : String → String} {patterns : List TriplePattern}
    (h : ∀ name, .var name ∈ positions patterns → ρ' (ρ name) = name) :
    (patterns.map (TriplePattern.rename ρ)).map (TriplePattern.rename ρ') = patterns := by
  have hback : ∀ pattern ∈ patterns, ∀ t ∈ pattern.toList, (t.rename ρ).rename ρ' = t := by
    intro pattern hpattern t ht
    rw [Term.rename_rename]
    refine Term.rename_eq_self fun name hname => h name ?_
    exact hname ▸ mem_positions hpattern ht
  rw [List.map_map]
  conv => rhs; rw [← List.map_id patterns]
  refine List.map_congr_left fun pattern hpattern => ?_
  have hterms := hback pattern hpattern
  simp only [Triple.toList, List.forall_mem_cons] at hterms
  exact Triple.ext hterms.1 hterms.2.1 hterms.2.2.1

/-! ### One rule -/

namespace Rule

/-- The names of the variables of a rule. -/
def names (rule : Rule) : Set String :=
  {name | .var name ∈ positions (rule.premise ++ rule.conclusion)}

/-- A rule is another one with its patterns in another order and its variables renamed, different ones differently. -/
def Variant (rule rule' : Rule) : Prop :=
  ∃ ρ : String → String, Set.InjOn ρ rule.names ∧
    (rule.premise.map (TriplePattern.rename ρ)).Perm rule'.premise ∧
    (rule.conclusion.map (TriplePattern.rename ρ)).Perm rule'.conclusion

/-- Without a renaming only the patterns change places. -/
theorem Variant.of_perm {rule rule' : Rule} (hpremise : rule.premise.Perm rule'.premise)
    (hconclusion : rule.conclusion.Perm rule'.conclusion) : rule.Variant rule' := by
  have hid : TriplePattern.rename id = id := by
    funext pattern
    have hterm : ∀ t : Term, t.rename id = t := fun t => Term.rename_eq_self fun _ _ => rfl
    exact Triple.ext (hterm _) (hterm _) (hterm _)
  refine ⟨id, Function.injective_id.injOn, ?_, ?_⟩
  · rwa [hid, List.map_id]
  · rwa [hid, List.map_id]

/-- A variant can be renamed back. -/
theorem Variant.symm {rule rule' : Rule} (h : rule.Variant rule') : rule'.Variant rule := by
  obtain ⟨ρ, hinj, hpremise, hconclusion⟩ := h
  have hback : ∀ name ∈ rule.names, Function.invFunOn ρ rule.names (ρ name) = name :=
    fun name hname => hinj.leftInvOn_invFunOn hname
  have hnames : ∀ patterns, (∀ t ∈ positions patterns, t ∈ positions (rule.premise ++ rule.conclusion)) →
      (patterns.map (TriplePattern.rename ρ)).map (TriplePattern.rename (Function.invFunOn ρ rule.names)) = patterns :=
    fun patterns hpatterns => map_rename_rename fun name hname => hback name (hpatterns _ hname)
  have hleft : ∀ t ∈ positions rule.premise, t ∈ positions (rule.premise ++ rule.conclusion) := by
    intro t ht
    rw [positions_append]
    exact List.mem_append_left _ ht
  have hright : ∀ t ∈ positions rule.conclusion, t ∈ positions (rule.premise ++ rule.conclusion) := by
    intro t ht
    rw [positions_append]
    exact List.mem_append_right _ ht
  refine ⟨Function.invFunOn ρ rule.names, ?_, ?_, ?_⟩
  · -- each variable of the variant is what one of the rule has been renamed to
    have hold : ∀ name ∈ rule'.names, ∃ old ∈ rule.names, ρ old = name := by
      intro name hname
      have hboth : ((rule.premise ++ rule.conclusion).map (TriplePattern.rename ρ)).Perm
          (rule'.premise ++ rule'.conclusion) := by
        rw [List.map_append]
        exact hpremise.append hconclusion
      obtain ⟨t, ht, hvar⟩ := (mem_positions_of_rename hboth).1 hname
      obtain ⟨old, rfl, hrename⟩ := Term.rename_eq_var.1 hvar
      exact ⟨old, ht, hrename⟩
    intro name hname other hother heq
    obtain ⟨old, hold₁, rfl⟩ := hold name hname
    obtain ⟨old', hold₂, rfl⟩ := hold other hother
    rw [hback old hold₁, hback old' hold₂] at heq
    rw [heq]
  · have hmap := hpremise.map (TriplePattern.rename (Function.invFunOn ρ rule.names))
    rw [hnames rule.premise hleft] at hmap
    exact hmap.symm
  · have hmap := hconclusion.map (TriplePattern.rename (Function.invFunOn ρ rule.names))
    rw [hnames rule.conclusion hright] at hmap
    exact hmap.symm

/-- Variants of usable rules are usable. -/
theorem Variant.isUsable {rule rule' : Rule} (h : rule.Variant rule') (husable : rule.IsUsable) : rule'.IsUsable := by
  obtain ⟨ρ, -, hpremise, hconclusion⟩ := h
  have hdefault : ∀ {patterns patterns' : List TriplePattern},
      (patterns.map (TriplePattern.rename ρ)).Perm patterns' → .defaultGraph ∉ positions patterns →
        .defaultGraph ∉ positions patterns' := by
    intro patterns patterns' hperm hnone hmem
    obtain ⟨t, ht, hrename⟩ := (mem_positions_of_rename hperm).1 hmem
    exact hnone (Term.rename_eq_defaultGraph.1 hrename ▸ ht)
  refine ⟨?_, hdefault hpremise husable.premise, hdefault hconclusion husable.conclusion, ?_⟩
  · intro hempty
    rw [hempty] at hpremise
    exact husable.nonempty (List.map_eq_nil_iff.1 hpremise.eq_nil)
  · intro name hname
    obtain ⟨t, ht, hvar⟩ := (mem_positions_of_rename hconclusion).1 hname
    obtain ⟨old, rfl, rfl⟩ := Term.rename_eq_var.1 hvar
    exact (mem_positions_of_rename hpremise).2 ⟨.var old, husable.bound old ht, rfl⟩

/-- What is closed under a rule is closed under its variants. -/
theorem Variant.closed {rule rule' : Rule} (h : rule.Variant rule') {T : Set (Triple Term)}
    (hclosed : ClosedUnderRules [rule] T) : ClosedUnderRules [rule'] T := by
  obtain ⟨ρ, -, hpremise, hconclusion⟩ := h
  have hsubst : ∀ (σ : String → Term) (pattern : TriplePattern),
      (pattern.rename ρ).map (Term.subst σ) = pattern.map (Term.subst (σ ∘ ρ)) := by
    intro σ pattern
    exact Triple.ext (Term.subst_rename σ ρ _) (Term.subst_rename σ ρ _) (Term.subst_rename σ ρ _)
  intro other hother σ hσ
  obtain rfl := List.mem_singleton.1 hother
  -- the old names have the values of the new ones
  have hvalues : ∀ pattern ∈ rule.premise, pattern.map (Term.subst (σ ∘ ρ)) ∈ T := by
    intro pattern hpattern
    rw [← hsubst]
    exact hσ _ (hpremise.mem_iff.1 (List.mem_map_of_mem hpattern))
  intro pattern' hpattern'
  obtain ⟨pattern, hpattern, rfl⟩ := List.mem_map.1 (hconclusion.mem_iff.2 hpattern')
  rw [hsubst]
  exact hclosed rule List.mem_cons_self (σ ∘ ρ) hvalues pattern hpattern

end Rule

/-! ### Several rules -/

/-- The second rules are variants of the first, in another order. -/
def SameRules (rules rules' : List Rule) : Prop :=
  ∃ variants, List.Forall₂ Rule.Variant rules variants ∧ variants.Perm rules'

namespace SameRules

variable {rules rules' : List Rule} (h : SameRules rules rules')
include h

/-- What variants inherit from each other holds of all rules or of none. -/
theorem forall_iff {P : Rule → Prop} (hP : ∀ rule rule' : Rule, rule.Variant rule' → P rule → P rule') :
    (∀ rule ∈ rules, P rule) ↔ ∀ rule ∈ rules', P rule := by
  obtain ⟨variants, hvariants, hperm⟩ := h
  have hall : ∀ {as bs : List Rule}, List.Forall₂ Rule.Variant as bs → ((∀ rule ∈ as, P rule) ↔ ∀ rule ∈ bs, P rule) := by
    intro as bs hforall
    induction hforall with
    | nil => simp
    | cons hrule _ ih =>
      rw [List.forall_mem_cons, List.forall_mem_cons, ih]
      exact and_congr_left fun _ => ⟨hP _ _ hrule, hP _ _ hrule.symm⟩
  rw [hall hvariants]
  simp only [hperm.mem_iff]

theorem isUsable_iff : (∀ rule ∈ rules, rule.IsUsable) ↔ ∀ rule ∈ rules', rule.IsUsable :=
  h.forall_iff fun _ _ hvariant => hvariant.isUsable

theorem closedUnderRules_iff (T : Set (Triple Term)) : ClosedUnderRules rules T ↔ ClosedUnderRules rules' T := by
  have hone : ∀ rules, ClosedUnderRules rules T ↔ ∀ rule ∈ rules, ClosedUnderRules [rule] T := by
    intro rules
    simp only [ClosedUnderRules, List.mem_singleton, forall_eq]
  rw [hone rules, hone rules']
  exact h.forall_iff fun _ _ hvariant => hvariant.closed

end SameRules

end RdfDataset
