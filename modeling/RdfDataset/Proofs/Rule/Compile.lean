import Mathlib
import RdfDataset.Proofs.Interner
import RdfDataset.Proofs.Reasoning.Closure
import RdfDataset.Proofs.Result
import RdfDataset.Rule.Compile

/-!
# What compiled rules stand for

A compiled rule has a slot for every term of the rule: the number of its constant, or of its variable among those of
the rule.

* `Stands`: the slot of a term; `CompiledRule.Represents`: the compiled form of a rule.
* `Compile.Ensures`: what holds of a step of compilation; numbers of terms are kept whether it succeeds or fails.
* `compileRules_spec`: compiled rules represent the rules, are well scoped and linked.
-/

namespace RdfDataset

/-- The rules of valid terms. -/
def Rule.IsValid (rule : Rule) : Prop :=
  ∀ pattern ∈ rule.premise ++ rule.conclusion, ∀ t ∈ pattern.toList, t.IsValid

/-- The slot of a term, given the names of variables in the order of their numbers. -/
inductive Stands (names : List String) (terms : Interner) : Term → Slot → Prop
  | var {name : String} {number : Nat} (h : names.idxOf? name = some number) :
    Stands names terms (.var name) (.var number)
  | const {t : Term} {id : Nat} (hvar : t.isVar = false) (h : terms.resolve? id = some t) :
    Stands names terms t (.const id)

/-- The atom of a pattern. -/
def AtomStands (names : List String) (terms : Interner) (pattern : TriplePattern) (atom : Atom) : Prop :=
  Stands names terms pattern.subject atom.subject ∧ Stands names terms pattern.predicate atom.predicate ∧
    Stands names terms pattern.object atom.object

/-- The compiled form of a rule; each of its variables occurs in the premise. -/
structure CompiledRule.Represents (c : CompiledRule) (names : List String) (terms : Interner) (rule : Rule) : Prop where
  nonempty : rule.premise ≠ []
  premise : List.Forall₂ (AtomStands names terms) rule.premise c.premise
  conclusion : List.Forall₂ (AtomStands names terms) rule.conclusion (c.conclusion.map Conclusion.atom)
  variableCount : c.variableCount = names.length
  bound : ∀ number < names.length, ∃ atom ∈ c.premise, .var number ∈ atom.toList

theorem idxOf?_append {names new : List String} {name : String} {number : Nat}
    (h : names.idxOf? name = some number) : (names ++ new).idxOf? name = some number := by
  rw [List.idxOf?, List.findIdx?_append]
  rw [List.idxOf?] at h
  rw [h]
  rfl

theorem idxOf?_self {names : List String} {name : String} (h : names.idxOf? name = none) :
    (names ++ [name]).idxOf? name = some names.length := by
  rw [List.idxOf?] at h ⊢
  rw [List.findIdx?_append, h]
  simp

theorem Stands.mono {names names' : List String} (hnames : names <+: names') {terms terms' : Interner}
    (hterms : terms.Extends terms') {t : Term} {slot : Slot} (h : Stands names terms t slot) :
    Stands names' terms' t slot := by
  obtain ⟨new, rfl⟩ := hnames
  cases h with
  | var h => exact .var (idxOf?_append h)
  | const hvar h => exact .const hvar (hterms _ _ h)

theorem AtomStands.mono {names names' : List String} (hnames : names <+: names') {terms terms' : Interner}
    (hterms : terms.Extends terms') {pattern : TriplePattern} {atom : Atom} (h : AtomStands names terms pattern atom) :
    AtomStands names' terms' pattern atom :=
  ⟨h.1.mono hnames hterms, h.2.1.mono hnames hterms, h.2.2.mono hnames hterms⟩

theorem AtomStands.exists_stands {names : List String} {terms : Interner} {pattern : TriplePattern} {atom : Atom}
    (h : AtomStands names terms pattern atom) {slot : Slot} (hslot : slot ∈ atom.toList) :
    ∃ t ∈ pattern.toList, Stands names terms t slot := by
  simp only [Triple.toList, List.mem_cons, List.not_mem_nil, or_false] at hslot
  rcases hslot with rfl | rfl | rfl
  · exact ⟨pattern.subject, by simp [Triple.toList], h.1⟩
  · exact ⟨pattern.predicate, by simp [Triple.toList], h.2.1⟩
  · exact ⟨pattern.object, by simp [Triple.toList], h.2.2⟩

/-- Every term of the pattern but a variable is a constant of the atom. -/
theorem AtomStands.exists_resolve? {names : List String} {terms : Interner} {pattern : TriplePattern} {atom : Atom}
    (h : AtomStands names terms pattern atom) {t : Term} (ht : t ∈ pattern.toList) (hvar : t.isVar = false) :
    ∃ n, terms.resolve? n = some t := by
  have hslot : ∃ slot, Stands names terms t slot := by
    simp only [Triple.toList, List.mem_cons, List.not_mem_nil, or_false] at ht
    rcases ht with rfl | rfl | rfl
    · exact ⟨_, h.1⟩
    · exact ⟨_, h.2.1⟩
    · exact ⟨_, h.2.2⟩
  obtain ⟨slot, hstands⟩ := hslot
  cases hstands with
  | var hname => cases hvar
  | const _ hid => exact ⟨_, hid⟩

/-- The number of a variable is less than the number of names. -/
theorem AtomStands.inScope {names : List String} {terms : Interner} {pattern : TriplePattern} {atom : Atom}
    (h : AtomStands names terms pattern atom) : InScope names.length atom := by
  intro number hnumber
  obtain ⟨t, -, hstands⟩ := h.exists_stands hnumber
  cases hstands with
  | var hname =>
    rw [List.idxOf?, List.findIdx?_eq_some_iff_getElem] at hname
    exact hname.1

namespace CompiledRule.Represents

variable {c : CompiledRule} {names : List String} {terms terms' : Interner} {rule : Rule}

theorem mono (hterms : terms.Extends terms') (h : c.Represents names terms rule) : c.Represents names terms' rule where
  nonempty := h.nonempty
  premise := h.premise.imp fun _ _ hatom => hatom.mono List.prefix_rfl hterms
  conclusion := h.conclusion.imp fun _ _ hatom => hatom.mono List.prefix_rfl hterms
  variableCount := h.variableCount
  bound := h.bound

private theorem exists_pattern {patterns : List TriplePattern} {atoms : List Atom}
    (h : List.Forall₂ (AtomStands names terms) patterns atoms) {atom : Atom} (hatom : atom ∈ atoms) :
    ∃ pattern ∈ patterns, AtomStands names terms pattern atom := by
  induction h with
  | nil => cases hatom
  | cons hfirst _ ih =>
    rcases List.mem_cons.1 hatom with rfl | hatom
    · exact ⟨_, List.mem_cons_self, hfirst⟩
    · obtain ⟨pattern, hpattern, hstands⟩ := ih hatom
      exact ⟨pattern, List.mem_cons_of_mem _ hpattern, hstands⟩

theorem exists_premise (h : c.Represents names terms rule) {atom : Atom} (hatom : atom ∈ c.premise) :
    ∃ pattern ∈ rule.premise, AtomStands names terms pattern atom :=
  exists_pattern h.premise hatom

theorem exists_conclusion (h : c.Represents names terms rule) {k : Conclusion} (hk : k ∈ c.conclusion) :
    ∃ pattern ∈ rule.conclusion, AtomStands names terms pattern k.atom :=
  exists_pattern h.conclusion (List.mem_map_of_mem hk)

private theorem exists_atom {patterns : List TriplePattern} {atoms : List Atom}
    (h : List.Forall₂ (AtomStands names terms) patterns atoms) {pattern : TriplePattern}
    (hpattern : pattern ∈ patterns) : ∃ atom ∈ atoms, AtomStands names terms pattern atom := by
  induction h with
  | nil => cases hpattern
  | cons hfirst _ ih =>
    rcases List.mem_cons.1 hpattern with rfl | hpattern
    · exact ⟨_, List.mem_cons_self, hfirst⟩
    · obtain ⟨atom, hatom, hstands⟩ := ih hpattern
      exact ⟨atom, List.mem_cons_of_mem _ hatom, hstands⟩

theorem exists_premise_atom (h : c.Represents names terms rule) {pattern : TriplePattern}
    (hpattern : pattern ∈ rule.premise) : ∃ atom ∈ c.premise, AtomStands names terms pattern atom :=
  exists_atom h.premise hpattern

theorem exists_conclusion_atom (h : c.Represents names terms rule) {pattern : TriplePattern}
    (hpattern : pattern ∈ rule.conclusion) : ∃ k ∈ c.conclusion, AtomStands names terms pattern k.atom := by
  obtain ⟨atom, hatom, hstands⟩ := exists_atom h.conclusion hpattern
  obtain ⟨k, hk, rfl⟩ := List.mem_map.1 hatom
  exact ⟨k, hk, hstands⟩

theorem wellScoped (h : c.Represents names terms rule) : c.WellScoped where
  premise := by
    intro atom hatom
    obtain ⟨pattern, -, hstands⟩ := h.exists_premise hatom
    rw [h.variableCount]
    exact hstands.inScope
  conclusion := by
    intro k hk number hnumber
    obtain ⟨pattern, -, hstands⟩ := h.exists_conclusion hk
    exact h.bound number (hstands.inScope number hnumber)

end CompiledRule.Represents

/-! ### Steps of compilation -/

namespace Compile

variable {α β : Type}

/-- A step of compilation keeps the interner valid and all numbers in place; when it succeeds, a condition holds of
the scope before it, its result and the scope after it. -/
def Ensures (m : Compile α) (Q : Scope → α → Scope → Prop) : Prop :=
  ∀ s : Scope, s.terms.Valid → (m.run.run s).2.terms.Valid ∧ s.terms.Extends (m.run.run s).2.terms ∧
    ∀ a, (m.run.run s).1 = .ok a → Q s a (m.run.run s).2

theorem Ensures.weaken {m : Compile α} {Q Q' : Scope → α → Scope → Prop} (hm : m.Ensures Q)
    (h : ∀ s a s', s.terms.Extends s'.terms → Q s a s' → Q' s a s') : m.Ensures Q' := by
  intro s hs
  obtain ⟨hvalid, hkeeps, hok⟩ := hm s hs
  exact ⟨hvalid, hkeeps, fun a ha => h s a _ hkeeps (hok a ha)⟩

theorem Ensures.pure (a : α) : Ensures (Pure.pure a) fun s b s' => s' = s ∧ b = a := by
  intro s hs
  refine ⟨hs, .refl _, ?_⟩
  rintro b ⟨⟩
  exact ⟨rfl, rfl⟩

theorem Ensures.throw (e : RuleError) : Ensures (throw e : Compile α) fun _ _ _ => False := by
  intro s hs
  refine ⟨hs, .refl _, ?_⟩
  rintro b ⟨⟩

/-- Two steps: a failure of the first is that of both, with the scope that it leaves. -/
theorem run_bind (m : Compile α) (f : α → Compile β) (s : Scope) :
    (m >>= f).run.run s =
      match (m.run.run s).1 with
      | .ok a => (f a).run.run (m.run.run s).2
      | .error e => (.error e, (m.run.run s).2) := by
  rw [ExceptT.run_bind, StateT.run_bind]
  change (match (m.run.run s) with | (x, t) => _) = _
  rcases m.run.run s with ⟨r, t⟩
  cases r <;> rfl

theorem Ensures.bind {m : Compile α} {f : α → Compile β} {Q : Scope → α → Scope → Prop}
    {R : α → Scope → β → Scope → Prop} (hm : m.Ensures Q) (hf : ∀ a, (f a).Ensures (R a)) :
    (m >>= f).Ensures fun s b s' => ∃ a t, t.terms.Extends s'.terms ∧ Q s a t ∧ R a t b s' := by
  intro s hs
  obtain ⟨hvalid, hkeeps, hok⟩ := hm s hs
  rw [run_bind]
  cases hr : (m.run.run s).1 with
  | error e => exact ⟨hvalid, hkeeps, by rintro b ⟨⟩⟩
  | ok a =>
    obtain ⟨hvalid', hkeeps', hok'⟩ := hf a _ hvalid
    exact ⟨hvalid', hkeeps.trans hkeeps', fun b hb => ⟨a, _, hkeeps', hok a hr, hok' b hb⟩⟩

/-- A step that reads the scope first. -/
theorem run_get_bind (f : Scope → Compile β) (s : Scope) :
    ((get : Compile Scope) >>= f).run.run s = (f s).run.run s :=
  rfl

theorem Ensures.constant {t : Term} (ht : t.IsValid) (hvar : t.isVar = false) :
    (Compile.constant t).Ensures fun s slot s' => s'.names = s.names ∧ Stands s'.names s'.terms t slot := by
  intro s hs
  refine ⟨hs.intern ht, hs.extends_intern ht, ?_⟩
  rintro slot ⟨⟩
  exact ⟨rfl, .const hvar (hs.resolve?_intern ht)⟩

/-- What a slot for a term has to satisfy.  `N` says how the names of variables may grow, and each new name is that
of the slot. -/
def SlotSpec (N : List String → List String → Prop) (t : Term) (s : Scope) (slot : Slot) (s' : Scope) : Prop :=
  N s.names s'.names ∧ Stands s'.names s'.terms t slot ∧
    ∀ number, s.names.length ≤ number → number < s'.names.length → slot = .var number

theorem Ensures.premiseSlot (rule : Nat) {t : Term} (ht : t.IsValid) :
    (Compile.premiseSlot rule t).Ensures (SlotSpec (· <+: ·) t) := by
  have hconstant : ∀ {t : Term}, t.IsValid → t.isVar = false →
      (Compile.constant t).Ensures (SlotSpec (· <+: ·) t) := by
    intro t ht hvar
    refine (Ensures.constant ht hvar).weaken fun s slot s' _ h => ⟨?_, h.2, fun number hle hlt => ?_⟩
    · rw [h.1]
    · rw [h.1] at hlt
      omega
  cases t with
  | var name =>
    intro s hs
    rw [Compile.premiseSlot, run_get_bind]
    cases hname : s.names.idxOf? name with
    | some number =>
      refine ⟨hs, .refl _, ?_⟩
      rintro slot ⟨⟩
      exact ⟨List.prefix_rfl, .var hname, fun number hle hlt => absurd hlt (Nat.not_lt.2 hle)⟩
    | none =>
      refine ⟨hs, .refl _, ?_⟩
      rintro slot ⟨⟩
      refine ⟨List.prefix_append _ _, .var (idxOf?_self hname), fun number hle hlt => ?_⟩
      change number < (s.names ++ [name]).length at hlt
      rw [List.length_append, List.length_singleton] at hlt
      exact congrArg Slot.var (by omega)
  | defaultGraph => exact (Ensures.throw _).weaken fun _ _ _ _ h => h.elim
  | iri text => exact hconstant ht rfl
  | blank label => exact hconstant ht rfl
  | literal l => exact hconstant ht rfl
  | quoted s p o g => exact hconstant ht rfl

theorem Ensures.conclusionSlot (rule : Nat) {t : Term} (ht : t.IsValid) :
    (Compile.conclusionSlot rule t).Ensures (SlotSpec (fun names names' => names' = names) t) := by
  have hconstant : ∀ {t : Term}, t.IsValid → t.isVar = false →
      (Compile.constant t).Ensures (SlotSpec (fun names names' => names' = names) t) := by
    intro t ht hvar
    refine (Ensures.constant ht hvar).weaken fun s slot s' _ h => ⟨h.1, h.2, fun number hle hlt => ?_⟩
    rw [h.1] at hlt
    omega
  cases t with
  | var name =>
    intro s hs
    rw [Compile.conclusionSlot, run_get_bind]
    cases hname : s.names.idxOf? name with
    | some number =>
      refine ⟨hs, .refl _, ?_⟩
      rintro slot ⟨⟩
      exact ⟨rfl, .var hname, fun number hle hlt => absurd hlt (Nat.not_lt.2 hle)⟩
    | none => exact ⟨hs, .refl _, by rintro slot ⟨⟩⟩
  | defaultGraph => exact (Ensures.throw _).weaken fun _ _ _ _ h => h.elim
  | iri text => exact hconstant ht rfl
  | blank label => exact hconstant ht rfl
  | literal l => exact hconstant ht rfl
  | quoted s p o g => exact hconstant ht rfl

/-! ### Atoms and rules -/

/-- What the atoms for some patterns have to satisfy. -/
def AtomsSpec (N : List String → List String → Prop) (patterns : List TriplePattern) (s : Scope) (atoms : List Atom)
    (s' : Scope) : Prop :=
  N s.names s'.names ∧ List.Forall₂ (AtomStands s'.names s'.terms) patterns atoms ∧
    ∀ number, s.names.length ≤ number → number < s'.names.length → ∃ atom ∈ atoms, .var number ∈ atom.toList

variable {N : List String → List String → Prop} (hrefl : ∀ names, N names names)
  (htrans : ∀ a b c, N a b → N b c → N a c) (hgrows : ∀ a b, N a b → a <+: b)
  {slot : Term → Compile Slot}

include htrans hgrows in
theorem Ensures.atom {pattern : TriplePattern} (hslot : ∀ t ∈ pattern.toList, (slot t).Ensures (SlotSpec N t)) :
    (Compile.atom slot pattern).Ensures fun s atom s' => AtomsSpec N [pattern] s [atom] s' := by
  have hs := hslot pattern.subject (by simp [Triple.toList])
  have hp := hslot pattern.predicate (by simp [Triple.toList])
  have ho := hslot pattern.object (by simp [Triple.toList])
  refine (hs.bind fun a => hp.bind fun b => ho.bind fun c => Ensures.pure (⟨a, b, c⟩ : Atom)).weaken ?_
  rintro s₀ atom s₃ - ⟨a, s₁, k₁, ⟨n₁, st₁, new₁⟩, b, s₂, k₂, ⟨n₂, st₂, new₂⟩, c, s, k₃, ⟨n₃, st₃, new₃⟩, rfl, rfl⟩
  -- slots keep their terms while more names and terms come, so all three stand for their terms in the end
  have h₂₃ := hgrows _ _ n₃
  have h₁₃ := (hgrows _ _ n₂).trans h₂₃
  refine ⟨htrans _ _ _ (htrans _ _ _ n₁ n₂) n₃, .cons ⟨st₁.mono h₁₃ k₁, st₂.mono h₂₃ k₂, st₃⟩ .nil,
    fun number hle hlt => ?_⟩
  refine ⟨_, List.mem_singleton_self _, ?_⟩
  simp only [Triple.toList, List.mem_cons, List.not_mem_nil, or_false]
  by_cases hfirst : number < s₁.names.length
  · exact .inl (new₁ number hle hfirst).symm
  · by_cases hsecond : number < s₂.names.length
    · exact .inr (.inl (new₂ number (Nat.le_of_not_lt hfirst) hsecond).symm)
    · exact .inr (.inr (new₃ number (Nat.le_of_not_lt hsecond) hlt).symm)

include hrefl htrans hgrows in
theorem Ensures.atoms {patterns : List TriplePattern}
    (hslot : ∀ pattern ∈ patterns, ∀ t ∈ pattern.toList, (slot t).Ensures (SlotSpec N t)) :
    (patterns.mapM (Compile.atom slot)).Ensures (AtomsSpec N patterns) := by
  induction patterns with
  | nil =>
    rw [List.mapM_nil]
    refine (Ensures.pure []).weaken ?_
    rintro s atoms s' - ⟨rfl, rfl⟩
    exact ⟨hrefl _, .nil, fun number hle hlt => absurd hlt (Nat.not_lt.2 hle)⟩
  | cons pattern patterns ih =>
    rw [List.mapM_cons]
    have hfirst := Ensures.atom htrans hgrows (hslot pattern List.mem_cons_self)
    have hrest := ih fun other hother => hslot other (List.mem_cons_of_mem _ hother)
    refine (hfirst.bind fun atom => hrest.bind fun atoms => Ensures.pure (atom :: atoms)).weaken ?_
    rintro s₀ all s₂ - ⟨atom, s₁, k₁, ⟨n₁, st₁, new₁⟩, atoms, s, k₂, ⟨n₂, st₂, new₂⟩, rfl, rfl⟩
    obtain ⟨hatom, -⟩ := List.forall₂_cons.1 st₁
    refine ⟨htrans _ _ _ n₁ n₂, .cons (hatom.mono (hgrows _ _ n₂) k₁) st₂, fun number hle hlt => ?_⟩
    by_cases hold : number < s₁.names.length
    · obtain ⟨found, hfound, hvar⟩ := new₁ number hle hold
      rw [List.mem_singleton] at hfound
      exact ⟨found, by simp [hfound], hvar⟩
    · obtain ⟨found, hfound, hvar⟩ := new₂ number (Nat.le_of_not_lt hold) hlt
      exact ⟨found, List.mem_cons_of_mem _ hfound, hvar⟩

theorem Ensures.reset :
    Ensures (modify fun scope => { scope with names := [] }) fun s _ s' => s'.names = [] ∧ s'.terms = s.terms := by
  intro s hs
  refine ⟨hs, .refl _, ?_⟩
  rintro a ⟨⟩
  exact ⟨rfl, rfl⟩

theorem Ensures.get : Ensures get fun s a s' => a = s ∧ s' = s := by
  intro s hs
  refine ⟨hs, .refl _, ?_⟩
  rintro a ⟨⟩
  exact ⟨rfl, rfl⟩

/-- Compiling a rule gives its compiled form. -/
theorem Ensures.compile (number : Nat) {rule : Rule} (hrule : rule.IsValid) :
    (rule.compile number).Ensures fun _ c s' => c.Represents s'.names s'.terms rule := by
  have hpremise : (rule.premise.mapM (Compile.atom (Compile.premiseSlot number))).Ensures
      (AtomsSpec (· <+: ·) rule.premise) := by
    refine Ensures.atoms (fun _ => List.prefix_rfl) (fun _ _ _ h h' => h.trans h') (fun _ _ h => h) ?_
    intro pattern hpattern t ht
    exact Ensures.premiseSlot number (hrule pattern (List.mem_append_left _ hpattern) t ht)
  have hconclusion : (rule.conclusion.mapM (Compile.atom (Compile.conclusionSlot number))).Ensures
      (AtomsSpec (fun names names' => names' = names) rule.conclusion) := by
    refine Ensures.atoms (N := fun names names' => names' = names) (fun _ => rfl) (fun _ _ _ h h' => h'.trans h)
      (fun _ _ h => h ▸ List.prefix_rfl) ?_
    intro pattern hpattern t ht
    exact Ensures.conclusionSlot number (hrule pattern (List.mem_append_right _ hpattern) t ht)
  unfold Rule.compile
  by_cases hempty : rule.premise.isEmpty = true
  · rw [if_pos hempty]
    intro s hs
    exact ⟨hs, .refl _, by rintro c ⟨⟩⟩
  · rw [if_neg hempty]
    refine (Ensures.reset.bind fun _ => hpremise.bind fun premise => hconclusion.bind fun conclusion =>
      Ensures.get.bind fun scope => Ensures.pure (⟨premise, conclusion.map (⟨·, []⟩), scope.names.length⟩ :
        CompiledRule)).weaken ?_
    rintro s c s' - ⟨_, s₀, -, ⟨hnames, -⟩, premise, s₁, k₁, ⟨-, st₁, new₁⟩, conclusion, s₂, -, ⟨hsame, st₂, -⟩, scope,
      s₃, -, ⟨rfl, rfl⟩, rfl, rfl⟩
    -- the names were reset, so every name is one that the premise has brought
    rw [hnames] at new₁
    have hatoms : (conclusion.map (⟨·, []⟩ : Atom → Conclusion)).map Conclusion.atom = conclusion := by
      rw [List.map_map]
      exact List.map_id conclusion
    rw [hsame] at st₂ ⊢
    exact {
      nonempty := by simpa using hempty
      premise := st₁.imp fun _ _ h => h.mono List.prefix_rfl k₁
      conclusion := by
        dsimp only
        rwa [hatoms]
      variableCount := rfl
      bound := fun number hlt => new₁ number (Nat.zero_le _) hlt }

/-- Compiling some rules gives the compiled form of each. -/
theorem Ensures.compileAll {rules : List Rule} (hrules : ∀ rule ∈ rules, rule.IsValid) (start : Nat) :
    ((rules.zipIdx start).mapM fun x : Rule × Nat => x.1.compile x.2).Ensures fun _ compiled s' =>
      List.Forall₂ (fun rule c => ∃ names, c.Represents names s'.terms rule) rules compiled := by
  induction rules generalizing start with
  | nil =>
    rw [List.zipIdx_nil, List.mapM_nil]
    refine (Ensures.pure []).weaken ?_
    rintro s compiled s' - ⟨rfl, rfl⟩
    exact .nil
  | cons rule rules ih =>
    rw [List.zipIdx_cons, List.mapM_cons]
    have hfirst := Ensures.compile start (hrules rule List.mem_cons_self)
    have hrest := ih (fun other hother => hrules other (List.mem_cons_of_mem _ hother)) (start + 1)
    refine (hfirst.bind fun c => hrest.bind fun compiled => Ensures.pure (c :: compiled)).weaken ?_
    rintro s all s' - ⟨c, s₁, k₁, hc, compiled, s₂, -, hcompiled, rfl, rfl⟩
    exact .cons ⟨s₁.names, hc.mono k₁⟩ hcompiled

end Compile

/-! ### Compiled rules -/

/-- The compiled forms of some rules. -/
def RulesRepresent (terms : Interner) (rules : List Rule) (compiled : List CompiledRule) : Prop :=
  List.Forall₂ (fun rule c => ∃ names, c.Represents names terms rule) rules compiled

namespace RulesRepresent

variable {terms : Interner} {rules : List Rule} {compiled : List CompiledRule}

theorem exists_rule (h : RulesRepresent terms rules compiled) {c : CompiledRule} (hc : c ∈ compiled) :
    ∃ rule ∈ rules, ∃ names, c.Represents names terms rule := by
  induction h with
  | nil => cases hc
  | cons hfirst _ ih =>
    rcases List.mem_cons.1 hc with rfl | hc
    · exact ⟨_, List.mem_cons_self, hfirst⟩
    · obtain ⟨rule, hrule, hrepresents⟩ := ih hc
      exact ⟨rule, List.mem_cons_of_mem _ hrule, hrepresents⟩

theorem exists_compiled (h : RulesRepresent terms rules compiled) {rule : Rule} (hrule : rule ∈ rules) :
    ∃ c ∈ compiled, ∃ names, c.Represents names terms rule := by
  induction h with
  | nil => cases hrule
  | cons hfirst _ ih =>
    rcases List.mem_cons.1 hrule with rfl | hrule
    · exact ⟨_, List.mem_cons_self, hfirst⟩
    · obtain ⟨c, hc, hrepresents⟩ := ih hrule
      exact ⟨c, List.mem_cons_of_mem _ hc, hrepresents⟩

/-- All terms of the rules but variables have numbers. -/
theorem exists_resolve? (h : RulesRepresent terms rules compiled) {rule : Rule} (hrule : rule ∈ rules)
    {pattern : TriplePattern} (hpattern : pattern ∈ rule.premise ++ rule.conclusion) {t : Term}
    (ht : t ∈ pattern.toList) (hvar : t.isVar = false) : ∃ n, terms.resolve? n = some t := by
  obtain ⟨c, -, names, hrepresents⟩ := h.exists_compiled hrule
  rcases List.mem_append.1 hpattern with hpattern | hpattern
  · obtain ⟨atom, -, hstands⟩ := hrepresents.exists_premise_atom hpattern
    exact hstands.exists_resolve? ht hvar
  · obtain ⟨k, -, hstands⟩ := hrepresents.exists_conclusion_atom hpattern
    exact hstands.exists_resolve? ht hvar

/-- All constants of compiled rules have their terms. -/
theorem resolve?_constantsOf (h : RulesRepresent terms rules compiled) {id : Nat}
    (hid : id ∈ constantsOf (atomsOf compiled)) : ∃ t, terms.resolve? id = some t := by
  simp only [constantsOf, atomsOf, List.mem_flatMap, List.mem_append, List.mem_map, List.mem_filterMap] at hid
  obtain ⟨atom, ⟨c, hc, hatom⟩, slot, hslot, hsome⟩ := hid
  obtain ⟨rule, -, names, hrepresents⟩ := h.exists_rule hc
  have hstands : ∃ pattern, AtomStands names terms pattern atom := by
    rcases hatom with hatom | ⟨k, hk, rfl⟩
    · obtain ⟨pattern, -, hpattern⟩ := hrepresents.exists_premise hatom
      exact ⟨pattern, hpattern⟩
    · obtain ⟨pattern, -, hpattern⟩ := hrepresents.exists_conclusion hk
      exact ⟨pattern, hpattern⟩
  obtain ⟨pattern, hpattern⟩ := hstands
  obtain ⟨t, -, ht⟩ := hpattern.exists_stands hslot
  cases ht with
  | var h => cases hsome
  | const hvar h =>
    obtain rfl := Option.some.inj hsome
    exact ⟨t, h⟩

end RulesRepresent

private theorem represents_linkRules {terms : Interner} {rules : List Rule} {compiled : List CompiledRule}
    (h : RulesRepresent terms rules compiled) : RulesRepresent terms rules (linkRules compiled) := by
  unfold RulesRepresent linkRules
  rw [List.forall₂_map_right_iff]
  refine List.Forall₂.imp ?_ h
  rintro rule c ⟨names, hc⟩
  refine ⟨names, hc.nonempty, hc.premise, ?_, hc.variableCount, hc.bound⟩
  rw [List.map_map]
  exact hc.conclusion

theorem links_of_mem_linkRules {compiled : List CompiledRule} {rule : CompiledRule} (hrule : rule ∈ linkRules compiled)
    {k : Conclusion} (hk : k ∈ rule.conclusion) :
    k.links = linksOf ((linkRules compiled).map CompiledRule.premise) k.atom := by
  have hpremises : (linkRules compiled).map CompiledRule.premise = compiled.map CompiledRule.premise := by
    rw [linkRules, List.map_map]
    rfl
  obtain ⟨c, -, rfl⟩ := List.mem_map.1 hrule
  obtain ⟨k, -, rfl⟩ := List.mem_map.1 hk
  rw [hpremises]

private theorem linked_linkRules {compiled : List CompiledRule} (h : ∀ c ∈ linkRules compiled, c.WellScoped) :
    Linked (linkRules compiled) where
  wellScoped := h
  links _ hrule _ hk := links_of_mem_linkRules hrule hk

/-- Compiling rules keeps the interner valid and all numbers in place, also when it fails; when it succeeds, the
result are the compiled forms of the rules, with all links. -/
theorem compileRules_spec {rules : List Rule} (hrules : ∀ rule ∈ rules, rule.IsValid) {terms : Interner}
    (hterms : terms.Valid) :
    (compileRules rules terms).2.Valid ∧ terms.Extends (compileRules rules terms).2 ∧
      ∀ compiled, (compileRules rules terms).1 = .ok compiled →
        Linked compiled ∧ RulesRepresent (compileRules rules terms).2 rules compiled := by
  obtain ⟨hvalid, hkeeps, hok⟩ := Compile.Ensures.compileAll hrules 0 { names := [], terms } hterms
  refine ⟨hvalid, hkeeps, fun compiled hcompiled => ?_⟩
  rw [compileRules] at hcompiled
  obtain ⟨unlinked, hunlinked, rfl⟩ := map_eq_ok.1 hcompiled
  have hrepresents := represents_linkRules (hok unlinked hunlinked)
  refine ⟨linked_linkRules fun c hc => ?_, hrepresents⟩
  obtain ⟨rule, -, names, hc⟩ := hrepresents.exists_rule hc
  exact hc.wellScoped

end RdfDataset
