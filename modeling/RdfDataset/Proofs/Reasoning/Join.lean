import RdfDataset.Proofs.GraphIndex.Scan
import RdfDataset.Proofs.Reasoning.Premise

/-!
# Premises as joins

Evaluating a premise enters values, looks up what is left open and takes the values out again.  What it finds is the
join of its atoms: every way to extend the environment to the variables of the atoms that makes all of them triples of
the graph, each once, whatever order the atoms come in and whatever is known before.

* `Env.Solves`: an environment extends another one to the variables of some atoms, which are in the graph then.
* `Env.Solves.exists_fact` and `Env.Solves.cons`: in a solution the first atom is a triple that a lookup by the known
  values finds, and the rest is solved from what is known after it.
* `solutions`: the environments that an evaluation comes to; `mem_solutions` and `nodup_solutions`.
* `solve_eq_join`: evaluating a premise draws each conclusion once for each solution.
-/

namespace RdfDataset

/-- A variable that occurs in some of the atoms. -/
def Mentions (atoms : List Atom) (number : Nat) : Prop :=
  ∃ atom ∈ atoms, .var number ∈ atom.toList

theorem mentions_cons {atom : Atom} {rest : List Atom} {number : Nat} :
    Mentions (atom :: rest) number ↔ .var number ∈ atom.toList ∨ Mentions rest number := by
  simp [Mentions]

namespace Env

/-- The values of an environment.  Those that are not known are zero. -/
def valuation (env : Env) (number : Nat) : Nat :=
  (env.value (.var number)).getD 0

theorem below_valuation (env : Env) : env.Below env.valuation := by
  intro number id h
  rw [valuation, h, Option.getD_some]

/-- The triple of an atom whose variables are all known. -/
theorem instantiate_of_known {env : Env} {atom : Atom}
    (h : ∀ number, .var number ∈ atom.toList → ∃ id, env.value (.var number) = some id) :
    env.instantiate atom = some (atom.map (Slot.under env.valuation)) := by
  refine instantiate_eq_some.2 fun x hx => ?_
  have hunder := map_under_eq.1 rfl x hx
  obtain ⟨slot, id⟩ := x
  cases slot with
  | const c => exact congrArg some hunder
  | var number =>
    obtain ⟨known, hknown⟩ := h number (List.of_mem_zip hx).1
    rw [hknown]
    exact congrArg some ((env.below_valuation number known hknown).symm.trans hunder)

/-- All variables of an atom that is a triple are known. -/
theorem exists_value_of_instantiate {env : Env} {atom : Atom} {fact : Triple Nat}
    (h : env.instantiate atom = some fact) {slot : Slot} (hslot : slot ∈ atom.toList) :
    ∃ id, env.value slot = some id :=
  exists_value_of_mem (instantiate_eq_some.1 h) hslot

theorem instantiate_of_grows {env env' : Env} (hgrows : env.Grows env') {atom : Atom} {fact : Triple Nat}
    (h : env.instantiate atom = some fact) : env'.instantiate atom = some fact :=
  instantiate_eq_some.2 fun x hx => hgrows _ _ (instantiate_eq_some.1 h x hx)

/-- Environments of the same length with the same values are the same. -/
theorem ext_value {env env' : Env} (hlength : env'.length = env.length)
    (h : ∀ number, env'.value (.var number) = env.value (.var number)) : env' = env := by
  refine List.ext_getElem hlength fun number hnumber hnumber' => ?_
  simpa [value, hnumber, hnumber'] using h number

/-! ### What an atom makes known -/

/-- Entering values leaves the variables alone that are not among the slots. -/
private theorem value_bindSlots_of_notMem {number : Nat} (env : Env) (trail : List Nat) {pairs : List (Slot × Nat)}
    (h : ∀ x ∈ pairs, x.1 ≠ .var number) :
    (env.bindSlots trail pairs).2.1.value (.var number) = env.value (.var number) := by
  induction pairs generalizing env trail with
  | nil => rfl
  | cons pair rest ih =>
    obtain ⟨slot, id⟩ := pair
    obtain ⟨hslot, hrest⟩ := List.forall_mem_cons.1 h
    cases hvalue : env.value slot with
    | some known =>
      rw [bindSlots_of_value hvalue]
      split
      · exact ih env trail hrest
      · rfl
    | none =>
      cases slot with
      | const c => cases hvalue
      | var other =>
        have hother : other ≠ number := fun heq => hslot (congrArg Slot.var heq)
        rw [bindSlots_of_unknown hvalue, ih _ _ hrest, value, value, List.getElem?_set_ne hother]

/-- What is known after an atom has been matched was known before or is a variable of the atom. -/
theorem value_bind_of_notMem (env : Env) {atom : Atom} (fact : Triple Nat) {number : Nat}
    (h : .var number ∉ atom.toList) : (env.bind atom fact).2.1.value (.var number) = env.value (.var number) := by
  refine value_bindSlots_of_notMem env [] fun x hx heq => h ?_
  exact heq ▸ (List.of_mem_zip hx).1

/-- An atom that fits a fact is this fact afterwards. -/
theorem instantiate_bind {env : Env} {atom : Atom} {fact : Triple Nat} (hscope : InScope env.length atom)
    (hfits : (env.bind atom fact).1 = true) : (env.bind atom fact).2.1.instantiate atom = some fact :=
  instantiate_eq_some.2 (map_value_bind hscope hfits)

/-! ### Solutions -/

variable [Arrangement]

/-- An environment extends another one to the variables of some atoms, and to no others, and makes all of the atoms
triples of the graph. -/
structure Solves (env' : Env) (index : GraphIndex) (atoms : List Atom) (env : Env) : Prop where
  length : env'.length = env.length
  grows : env.Grows env'
  known : ∀ number id, env'.value (.var number) = some id →
    (∃ old, env.value (.var number) = some old) ∨ Mentions atoms number
  holds : ∀ atom ∈ atoms, ∃ fact, env'.instantiate atom = some fact ∧ index.contains fact = true

variable {index : GraphIndex} {env env' : Env}

/-- Without atoms nothing is added. -/
theorem solves_nil : env'.Solves index [] env ↔ env' = env := by
  constructor
  · intro h
    refine ext_value h.length fun number => ?_
    cases hvalue : env'.value (.var number) with
    | none =>
      cases hold : env.value (.var number) with
      | none => rfl
      | some old =>
        rw [h.grows _ _ hold] at hvalue
        cases hvalue
    | some id =>
      obtain ⟨old, hold⟩ := (h.known number id hvalue).resolve_right (by simp [Mentions])
      rw [hold, ← h.grows _ _ hold, hvalue]
  · rintro rfl
    exact ⟨rfl, .refl env', fun number id h => .inl ⟨id, h⟩, by simp⟩

/-- What the first atom is in a solution is found by a lookup with the known values, and the other atoms are solved from
what is known when the first one has been matched with it. -/
theorem Solves.exists_fact (hindex : index.Coherent) {atom : Atom} {rest : List Atom}
    (hscope : InScope env.length atom) (h : env'.Solves index (atom :: rest) env) :
    ∃ fact ∈ index.matching (atom.map env.value), (env.bind atom fact).1 = true ∧
      env'.Solves index rest (env.bind atom fact).2.1 := by
  obtain ⟨fact, hfact, hcontains⟩ := h.holds atom List.mem_cons_self
  have hbelow : env.Below env'.valuation := env'.below_valuation.of_grows h.grows
  have heq : atom.map (Slot.under env'.valuation) = fact :=
    map_under_eq.2 fun x hx => env'.below_valuation.value (instantiate_eq_some.1 hfact x hx)
  obtain ⟨hfits, hbelow'⟩ := bind_of_below hbelow heq
  refine ⟨fact, ?_, hfits, ?_⟩
  · rw [hindex.mem_matching]
    subst heq
    exact ⟨hcontains, fun k hk => hbelow.value hk, fun k hk => hbelow.value hk, fun k hk => hbelow.value hk⟩
  · have hatom := instantiate_bind hscope hfits
    refine ⟨?_, fun slot id hvalue => ?_, fun number id hvalue => ?_,
      fun other hother => h.holds other (List.mem_cons_of_mem atom hother)⟩
    · rw [h.length, length_bind]
    · -- a value that the atom has brought is that of the solution
      cases slot with
      | const c => exact hvalue
      | var number =>
        by_cases hmem : .var number ∈ atom.toList
        · obtain ⟨known, hknown⟩ := exists_value_of_instantiate hfact hmem
          have hunder := env'.below_valuation number known hknown
          rw [hknown, ← hunder, hbelow' number id hvalue]
        · rw [value_bind_of_notMem env fact hmem] at hvalue
          exact h.grows _ _ hvalue
    · rcases h.known number id hvalue with ⟨old, hold⟩ | hmentions
      · exact .inl ⟨old, env.grows_bind atom fact _ _ hold⟩
      · rcases mentions_cons.1 hmentions with hmem | hmentions
        · exact .inl (exists_value_of_instantiate hatom hmem)
        · exact .inr hmentions

/-- A solution of the other atoms from what is known after the first one is a solution of all. -/
theorem Solves.cons (hindex : index.Coherent) {atom : Atom} {rest : List Atom} (hscope : InScope env.length atom)
    {fact : Triple Nat} (hfact : fact ∈ index.matching (atom.map env.value)) (hfits : (env.bind atom fact).1 = true)
    (h : env'.Solves index rest (env.bind atom fact).2.1) :
    env'.Solves index (atom :: rest) env ∧ env'.instantiate atom = some fact := by
  have hatom := instantiate_of_grows h.grows (instantiate_bind hscope hfits)
  refine ⟨⟨?_, (env.grows_bind atom fact).trans h.grows, fun number id hvalue => ?_, ?_⟩, hatom⟩
  · rw [h.length, length_bind]
  · rw [mentions_cons]
    by_cases hmem : .var number ∈ atom.toList
    · exact .inr (.inl hmem)
    · have hknown := h.known number id hvalue
      rw [value_bind_of_notMem env fact hmem] at hknown
      exact hknown.imp_right .inr
  · exact List.forall_mem_cons.2 ⟨⟨fact, hatom, (hindex.mem_matching.1 hfact).1⟩, h.holds⟩

end Env

/-! ### Evaluating a premise -/

section

variable [Arrangement]

/-- The environments in which the conclusions are drawn when a premise is evaluated. -/
def solutions (index : GraphIndex) : List Atom → Env → List Env
  | [], env => [env]
  | atom :: rest, env => (index.matching (atom.map env.value)).flatMap fun fact =>
    if (env.bind atom fact).1 then solutions index rest (env.bind atom fact).2.1 else []

variable {index : GraphIndex} {conclusions : List Conclusion}

/-- The conclusions are drawn in each of these environments. -/
theorem solve_eq_flatMap_solutions (atoms : List Atom) (env : Env) :
    (solve index conclusions atoms env).1 = (solutions index atoms env).flatMap fun env' =>
      conclusions.filterMap fun c => (env'.instantiate c.atom).map (c, ·) := by
  induction atoms generalizing env with
  | nil => simp [solve, solutions]
  | cons atom rest ih =>
    rw [solve_cons, solutions, List.flatMap_assoc]
    refine List.flatMap_congr fun fact _ => ?_
    rw [solveWith]
    split
    · exact ih _
    · rfl

namespace GraphIndex.Coherent

variable (hindex : index.Coherent)
include hindex

/-- They are the solutions of the premise. -/
theorem mem_solutions {atoms : List Atom} {env : Env} (hscope : ∀ atom ∈ atoms, InScope env.length atom) {env' : Env} :
    env' ∈ solutions index atoms env ↔ env'.Solves index atoms env := by
  induction atoms generalizing env with
  | nil => rw [solutions, List.mem_singleton, Env.solves_nil]
  | cons atom rest ih =>
    obtain ⟨hatom, hrest⟩ := List.forall_mem_cons.1 hscope
    have hih : ∀ fact, env' ∈ solutions index rest (env.bind atom fact).2.1 ↔
        env'.Solves index rest (env.bind atom fact).2.1 := by
      intro fact
      refine ih fun other hother => ?_
      rw [Env.length_bind]
      exact hrest other hother
    rw [solutions, List.mem_flatMap]
    constructor
    · rintro ⟨fact, hfact, h⟩
      split at h
      · rename_i hfits
        exact (Env.Solves.cons hindex hatom hfact hfits ((hih fact).1 h)).1
      · cases h
    · intro h
      obtain ⟨fact, hfact, hfits, hsolves⟩ := h.exists_fact hindex hatom
      refine ⟨fact, hfact, ?_⟩
      rw [if_pos hfits]
      exact (hih fact).2 hsolves

/-- No solution is met twice, since it tells which triple each atom is. -/
theorem nodup_solutions {atoms : List Atom} {env : Env} (hscope : ∀ atom ∈ atoms, InScope env.length atom) :
    (solutions index atoms env).Nodup := by
  induction atoms generalizing env with
  | nil => exact List.nodup_singleton env
  | cons atom rest ih =>
    obtain ⟨hatom, hrest⟩ := List.forall_mem_cons.1 hscope
    have hbound : ∀ fact, ∀ other ∈ rest, InScope (env.bind atom fact).2.1.length other := by
      intro fact other hother
      rw [Env.length_bind]
      exact hrest other hother
    have hfact : ∀ fact ∈ index.matching (atom.map env.value), ∀ env',
        env' ∈ (if (env.bind atom fact).1 then solutions index rest (env.bind atom fact).2.1 else []) →
          env'.instantiate atom = some fact := by
      intro fact hfact env' h
      split at h
      · rename_i hfits
        exact (Env.Solves.cons hindex hatom hfact hfits ((hindex.mem_solutions (hbound fact)).1 h)).2
      · cases h
    rw [solutions, List.nodup_flatMap]
    constructor
    · intro fact _
      split
      · exact ih (hbound fact)
      · exact List.nodup_nil
    · refine (index.nodup_matching _).imp_of_mem fun {fact fact'} hmem hmem' hne => ?_
      rw [Function.onFun, List.disjoint_left]
      intro env' h h'
      have hsame := (hfact fact hmem env' h).symm.trans (hfact fact' hmem' env' h')
      exact hne (Option.some.inj hsame)

end GraphIndex.Coherent

/-- Let an index have come about by any calls, and let the variables of the atoms have places in the environment.  The
solutions of the atoms extend what is known to their variables so that all atoms are triples of the graph.  Evaluating
the premise draws every conclusion once for each of these, with all its values, and nothing else, if the variables of
the conclusions are known or occur in the atoms.  It leaves the environment as it was, and so does entering the values of
any atom and taking out those of the trail, whether the atom fits or not. -/
theorem solve_eq_join (cs : List IndexChange) (conclusions : List Conclusion) (atoms : List Atom) (env : Env)
    (hscope : ∀ atom ∈ atoms, InScope env.length atom)
    (hbound : ∀ c ∈ conclusions, ∀ number, .var number ∈ c.atom.toList →
      (∃ id, env.value (.var number) = some id) ∨ Mentions atoms number) :
    let index := (runSteps IndexChange.run {} cs).2
    (∃ found : List Env, found.Nodup ∧ (∀ env', env' ∈ found ↔ env'.Solves index atoms env) ∧
      (∀ env' ∈ found, ∀ c ∈ conclusions,
        env'.instantiate c.atom = some (c.atom.map (Slot.under env'.valuation))) ∧
      (solve index conclusions atoms env).1 = found.flatMap fun env' =>
        conclusions.map fun c => (c, c.atom.map (Slot.under env'.valuation))) ∧
    (solve index conclusions atoms env).2 = env ∧
    ∀ (before : Env) (atom : Atom) (fact : Triple Nat),
      (before.bind atom fact).2.1.undo (before.bind atom fact).2.2 = before := by
  intro index
  have hindex : index.Coherent := (GraphIndex.coherent_runSteps cs).1
  refine ⟨⟨solutions index atoms env, hindex.nodup_solutions hscope, fun env' => hindex.mem_solutions hscope, ?_⟩,
    solve_snd atoms env, Env.undo_bind⟩
  have hinstances : ∀ env' ∈ solutions index atoms env, ∀ c ∈ conclusions,
      env'.instantiate c.atom = some (c.atom.map (Slot.under env'.valuation)) := by
    intro env' henv' c hc
    have hsolves := (hindex.mem_solutions hscope).1 henv'
    refine Env.instantiate_of_known fun number hnumber => ?_
    rcases hbound c hc number hnumber with ⟨id, hid⟩ | ⟨atom, hatom, hmem⟩
    · exact ⟨id, hsolves.grows _ _ hid⟩
    · obtain ⟨fact, hfact, -⟩ := hsolves.holds atom hatom
      exact Env.exists_value_of_instantiate hfact hmem
  refine ⟨hinstances, ?_⟩
  rw [solve_eq_flatMap_solutions]
  refine List.flatMap_congr fun env' henv' => ?_
  rw [← List.filterMap_eq_map]
  refine List.filterMap_congr fun c hc => ?_
  rw [hinstances env' henv' c hc]
  rfl

end

/-- The first variable is known, the second occurs twice in the second atom, and the third is in the conclusion only. -/
theorem solve_eq_join_repeated :
    let atoms : List Atom := [⟨.var 0, .const 2, .var 1⟩, ⟨.var 1, .const 2, .var 1⟩]
    let conclusions : List Conclusion := [⟨⟨.var 1, .var 2, .var 0⟩, []⟩]
    let index := (runSteps IndexChange.run {} [.insert ⟨1, 2, 3⟩, .insert ⟨1, 2, 4⟩, .insert ⟨4, 2, 4⟩]).2
    ∃ found : List Env, (∀ env', env' ∈ found ↔ env'.Solves index atoms [some 1, none, some 5]) ∧
      (solve index conclusions atoms [some 1, none, some 5]).1 = found.flatMap fun env' =>
        conclusions.map fun c => (c, c.atom.map (Slot.under env'.valuation)) := by
  have hscope : ∀ atom ∈ [(⟨.var 0, .const 2, .var 1⟩ : Atom), ⟨.var 1, .const 2, .var 1⟩], InScope 3 atom := by
    simp [InScope, Triple.toList]
  obtain ⟨⟨found, -, hfound, -, hdrawn⟩, -⟩ :=
    solve_eq_join [.insert ⟨1, 2, 3⟩, .insert ⟨1, 2, 4⟩, .insert ⟨4, 2, 4⟩] [⟨⟨.var 1, .var 2, .var 0⟩, []⟩] _
      [some 1, none, some 5] hscope
      (by simp [Triple.toList, mentions_cons, Env.value])
  exact ⟨found, hfound, hdrawn⟩

end RdfDataset
