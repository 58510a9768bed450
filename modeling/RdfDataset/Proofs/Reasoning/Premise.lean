import RdfDataset.Proofs.GraphIndex
import RdfDataset.Reasoning.Premise

/-!
# What a premise says

The values that are entered while a premise is matched always belong to some choice of values for all variables.

* `Env.Below`: an environment knows some values of a valuation.
* `Env.undo_bind`: taking out the values of a trail gives back the environment.
* `Env.bind_of_below` and `Env.map_value_bind`: what is known after an atom has been matched.
* `solve_snd`, `GraphIndex.Coherent.exists_of_mem_solve` and `GraphIndex.Coherent.mem_solve`: evaluating a premise draws
  the conclusions of all valuations for which its atoms are in the graph.
-/

namespace RdfDataset

/-- The value of a slot under a valuation. -/
def Slot.under (ρ : Nat → Nat) : Slot → Nat
  | .const id => id
  | .var number => ρ number

/-- All variables of an atom have numbers below a bound. -/
def InScope (count : Nat) (atom : Atom) : Prop :=
  ∀ number, .var number ∈ atom.toList → number < count

theorem map_under_eq {ρ : Nat → Nat} {atom : Atom} {fact : Triple Nat} :
    atom.map (Slot.under ρ) = fact ↔ ∀ x ∈ atom.toList.zip fact.toList, x.1.under ρ = x.2 := by
  simp [Triple.map, Triple.toList, Triple.ext_iff]

namespace Env

/-- All known values are those of a valuation. -/
def Below (env : Env) (ρ : Nat → Nat) : Prop :=
  ∀ number id, env.value (.var number) = some id → ρ number = id

/-- All known values are known later on. -/
def Grows (env env' : Env) : Prop :=
  ∀ slot id, env.value slot = some id → env'.value slot = some id

theorem Grows.refl (env : Env) : env.Grows env :=
  fun _ _ h => h

theorem Grows.trans {env env' env'' : Env} (h : env.Grows env') (h' : env'.Grows env'') : env.Grows env'' :=
  fun slot id hvalue => h' slot id (h slot id hvalue)

theorem Below.value {env : Env} {ρ : Nat → Nat} (h : env.Below ρ) {slot : Slot} {id : Nat}
    (hvalue : env.value slot = some id) : slot.under ρ = id := by
  cases slot with
  | const c => exact Option.some.inj hvalue
  | var number => exact h number id hvalue

theorem Below.of_grows {env env' : Env} {ρ : Nat → Nat} (h : env'.Below ρ) (hgrows : env.Grows env') : env.Below ρ :=
  fun number id hvalue => h number id (hgrows (.var number) id hvalue)

/-- Without any values, every valuation is possible. -/
theorem unbound_below (count : Nat) (ρ : Nat → Nat) : (unbound count).Below ρ := by
  intro number id h
  simp only [value, unbound, List.getElem?_replicate] at h
  split at h <;> cases h

/-- The valuation of an environment, where unknown values are zero. -/
theorem exists_below (env : Env) : ∃ ρ, env.Below ρ :=
  ⟨fun number => (env.value (.var number)).getD 0, fun number id h => by simp [h]⟩

/-! ### Entering values -/

private theorem value_set_ne {env : Env} {number other : Nat} (h : other ≠ number) (x : Option Nat) :
    value (env.set number x) (.var other) = env.value (.var other) := by
  simp [value, List.getElem?_set_ne h.symm]

private theorem value_set_self {env : Env} {number : Nat} (h : number < env.length) (id : Nat) :
    value (env.set number (some id)) (.var number) = some id := by
  simp [value, h]

/-- A new value leaves the others as they are. -/
private theorem grows_set {env : Env} {number : Nat} (h : env.value (.var number) = none) (id : Nat) :
    env.Grows (env.set number (some id)) := by
  intro slot known hvalue
  cases slot with
  | const c => exact hvalue
  | var other =>
    by_cases hother : other = number
    · subst hother
      rw [h] at hvalue
      cases hvalue
    · rwa [value_set_ne hother]

private theorem below_set {env : Env} {ρ : Nat → Nat} (h : env.Below ρ) (number : Nat) :
    Below (env.set number (some (ρ number))) ρ := by
  intro other id hvalue
  by_cases hother : other = number
  · subst hother
    by_cases hlength : other < env.length
    · rw [value_set_self hlength] at hvalue
      exact Option.some.inj hvalue
    · rw [List.set_eq_of_length_le (Nat.le_of_not_lt hlength)] at hvalue
      exact h other id hvalue
  · rw [value_set_ne hother] at hvalue
    exact h other id hvalue

/-- Taking a value out commutes with taking out others. -/
private theorem undo_set (env : Env) (trail : List Nat) (number : Nat) :
    undo (env.set number none) trail = (undo env trail).set number none := by
  induction trail generalizing env with
  | nil => rfl
  | cons other trail ih =>
    simp only [undo, List.foldl_cons] at ih ⊢
    rw [← ih]
    congr 1
    by_cases h : number = other
    · rw [h]
    · exact List.set_comm none none h

private theorem set_none_of_value {env : Env} {number : Nat} (h : env.value (.var number) = none) :
    env.set number none = env := by
  refine List.ext_getElem? fun other => ?_
  rw [List.getElem?_set]
  split
  · rename_i heq
    subst heq
    split
    · rename_i hlength
      rw [List.getElem?_eq_getElem hlength]
      simp only [value, List.getElem?_eq_getElem hlength, Option.join_some] at h
      rw [h]
    · rename_i hlength
      exact (List.getElem?_eq_none (Nat.le_of_not_lt hlength)).symm
  · rfl

theorem bindSlots_of_value {env : Env} {slot : Slot} {known : Nat} (h : env.value slot = some known)
    (trail : List Nat) (id : Nat) (rest : List (Slot × Nat)) :
    env.bindSlots trail ((slot, id) :: rest) =
      if known = id then env.bindSlots trail rest else (false, env, trail) := by
  rw [bindSlots.eq_def]
  simp only [h]

theorem bindSlots_of_unknown {env : Env} {number : Nat} (h : env.value (.var number) = none) (trail : List Nat)
    (id : Nat) (rest : List (Slot × Nat)) :
    env.bindSlots trail ((.var number, id) :: rest) =
      bindSlots (env.set number (some id)) (trail ++ [number]) rest := by
  rw [bindSlots.eq_def]
  simp only [h]

/-- What entering values does: what was known stays known, and taking out the values of the trail gives back the
environment.  It succeeds for the values of each valuation that was possible, which stays possible, and if it
succeeds then all slots have the values that they are to have. -/
private structure Entered (env : Env) (trail : List Nat) (pairs : List (Slot × Nat)) (r : Bool × Env × List Nat) :
    Prop where
  length : r.2.1.length = env.length
  grows : env.Grows r.2.1
  trail : ∃ new, r.2.2 = trail ++ new ∧ undo r.2.1 new = env
  value : (∀ number id, (.var number, id) ∈ pairs → number < env.length) → r.1 = true →
    ∀ x ∈ pairs, r.2.1.value x.1 = some x.2
  below : ∀ ρ, env.Below ρ → (∀ x ∈ pairs, x.1.under ρ = x.2) → r.1 = true ∧ r.2.1.Below ρ

private theorem entered_refuse {env : Env} (trail : List Nat) {slot : Slot} {id known : Nat} (rest : List (Slot × Nat))
    (h : env.value slot = some known) (hne : known ≠ id) :
    Entered env trail ((slot, id) :: rest) (false, env, trail) where
  length := rfl
  grows := .refl env
  trail := ⟨[], by simp, rfl⟩
  value _ h := by cases h
  below ρ hbelow heq := absurd ((hbelow.value h).symm.trans (heq _ List.mem_cons_self)) hne

private theorem entered (env : Env) (trail : List Nat) (pairs : List (Slot × Nat)) :
    Entered env trail pairs (env.bindSlots trail pairs) := by
  induction pairs generalizing env trail with
  | nil => exact ⟨rfl, .refl env, ⟨[], by simp [bindSlots], rfl⟩, by simp, fun ρ h _ => ⟨rfl, h⟩⟩
  | cons pair rest ih =>
    obtain ⟨slot, id⟩ := pair
    cases hvalue : env.value slot with
    | some known =>
      rw [bindSlots_of_value hvalue]
      by_cases hknown : known = id
      · subst hknown
        rw [if_pos rfl]
        obtain ⟨hlength, hgrows, htrail, hvalues, hbelow⟩ := ih env trail
        refine ⟨hlength, hgrows, htrail, fun hscope hfits x hx => ?_, fun ρ h heq => ?_⟩
        · rcases List.mem_cons.1 hx with rfl | hx
          · exact hgrows _ _ hvalue
          · exact hvalues (fun n i hn => hscope n i (List.mem_cons_of_mem _ hn)) hfits x hx
        · exact hbelow ρ h fun x hx => heq x (List.mem_cons_of_mem _ hx)
      · rw [if_neg hknown]
        exact entered_refuse trail rest hvalue hknown
    | none =>
      cases slot with
      | const c => cases hvalue
      | var number =>
        rw [bindSlots_of_unknown hvalue]
        obtain ⟨hlength, hgrows, ⟨new, htrail, hundo⟩, hvalues, hbelow⟩ :=
          ih (env.set number (some id)) (trail ++ [number])
        rw [List.length_set] at hlength hvalues
        refine ⟨hlength, (grows_set hvalue id).trans hgrows, ⟨number :: new, ?_, ?_⟩, ?_, fun ρ h heq => ?_⟩
        · rw [htrail, List.append_assoc]
          rfl
        · -- taking out the value first or last makes no difference, and it was not known before
          have hback := undo_set (bindSlots (env.set number (some id)) (trail ++ [number]) rest).2.1 new number
          rw [hundo, List.set_set, set_none_of_value hvalue] at hback
          exact hback
        · intro hscope hfits x hx
          rcases List.mem_cons.1 hx with rfl | hx
          · exact hgrows _ _ (value_set_self (hscope number id List.mem_cons_self) id)
          · exact hvalues (fun n i hn => hscope n i (List.mem_cons_of_mem _ hn)) hfits x hx
        · have hnumber : ρ number = id := heq _ List.mem_cons_self
          rw [← hnumber] at hbelow ⊢
          exact hbelow ρ (below_set h number) fun x hx => heq x (List.mem_cons_of_mem _ hx)

/-! ### Matching an atom -/

theorem length_bind (env : Env) (atom : Atom) (fact : Triple Nat) : (env.bind atom fact).2.1.length = env.length :=
  (entered env [] _).length

theorem grows_bind (env : Env) (atom : Atom) (fact : Triple Nat) : env.Grows (env.bind atom fact).2.1 :=
  (entered env [] _).grows

/-- Taking out the values of the trail gives back the environment, whether the atom fits or not. -/
theorem undo_bind (env : Env) (atom : Atom) (fact : Triple Nat) :
    (env.bind atom fact).2.1.undo (env.bind atom fact).2.2 = env := by
  obtain ⟨new, htrail, hundo⟩ := (entered env [] (atom.toList.zip fact.toList)).trail
  rw [Env.bind, htrail, List.nil_append, hundo]

/-- An atom that fits has all its values, which make it the fact. -/
theorem map_value_bind {env : Env} {atom : Atom} {fact : Triple Nat} (hscope : InScope env.length atom)
    (hfits : (env.bind atom fact).1 = true) : ∀ x ∈ atom.toList.zip fact.toList,
    (env.bind atom fact).2.1.value x.1 = some x.2 := by
  refine (entered env [] (atom.toList.zip fact.toList)).value (fun number id h => ?_) hfits
  exact hscope number (List.of_mem_zip h).1

/-- All slots of an atom that has its values are known. -/
theorem exists_value_of_mem {env : Env} {atom : Atom} {fact : Triple Nat}
    (h : ∀ x ∈ atom.toList.zip fact.toList, env.value x.1 = some x.2) {slot : Slot} (hslot : slot ∈ atom.toList) :
    ∃ id, env.value slot = some id := by
  simp only [Triple.toList, List.zip_cons_cons, List.zip_nil_right, List.mem_cons, List.not_mem_nil, or_false,
    forall_eq_or_imp, forall_eq] at h hslot
  rcases hslot with rfl | rfl | rfl
  · exact ⟨_, h.1⟩
  · exact ⟨_, h.2.1⟩
  · exact ⟨_, h.2.2⟩

/-- An atom fits a fact that it can be, and what is known then still belongs to the same valuation. -/
theorem bind_of_below {env : Env} {ρ : Nat → Nat} (h : env.Below ρ) {atom : Atom} {fact : Triple Nat}
    (heq : atom.map (Slot.under ρ) = fact) :
    (env.bind atom fact).1 = true ∧ (env.bind atom fact).2.1.Below ρ :=
  (entered env [] _).below ρ h (map_under_eq.1 heq)

end Env

/-! ### Evaluating a premise -/

theorem instantiate_eq_some {env : Env} {atom : Atom} {fact : Triple Nat} :
    env.instantiate atom = some fact ↔ ∀ x ∈ atom.toList.zip fact.toList, env.value x.1 = some x.2 := by
  obtain ⟨s, p, o⟩ := fact
  simp only [Env.instantiate, Triple.sequence, Triple.map, Triple.toList, Option.bind_eq_bind, Option.bind_eq_some_iff,
    pure, Option.some.injEq, Triple.mk.injEq, List.zip_cons_cons, List.zip_nil_right, List.mem_cons, List.not_mem_nil,
    or_false, forall_eq_or_imp, forall_eq]
  constructor
  · rintro ⟨a, ha, b, hb, c, hc, rfl, rfl, rfl⟩
    exact ⟨ha, hb, hc⟩
  · rintro ⟨ha, hb, hc⟩
    exact ⟨s, ha, p, hb, o, hc, rfl, rfl, rfl⟩

variable [Arrangement] {index : GraphIndex} {conclusions : List Conclusion}

/-- The conclusions that are drawn when the first atom is a given fact. -/
def solveWith (index : GraphIndex) (conclusions : List Conclusion) (atom : Atom) (rest : List Atom) (env : Env)
    (fact : Triple Nat) : List (Conclusion × Triple Nat) :=
  if (env.bind atom fact).1 then (solve index conclusions rest (env.bind atom fact).2.1).1 else []

private theorem foldl_solveWith {atom : Atom} {rest : List Atom}
    (hrest : ∀ env, (solve index conclusions rest env).2 = env) (env : Env) (facts : List (Triple Nat))
    (drawn : List (Conclusion × Triple Nat)) :
    facts.foldl (fun (drawn, env) fact =>
      let (fits, env, trail) := Env.bind env atom fact
      let (more, env) := if fits then solve index conclusions rest env else ([], env)
      (drawn ++ more, env.undo trail)) (drawn, env) =
    (drawn ++ facts.flatMap (solveWith index conclusions atom rest env), env) := by
  induction facts generalizing drawn with
  | nil => simp
  | cons fact facts ih =>
    -- every fact is tried in the same environment, since what the one before entered is taken out again
    have hback := env.undo_bind atom fact
    rw [List.foldl_cons, List.flatMap_cons, ← List.append_assoc, ← ih]
    congr 1
    unfold solveWith
    by_cases hfits : (env.bind atom fact).1 = true
    · simp only [hfits, if_true, hrest, hback]
    · simp only [hfits, Bool.false_eq_true, if_false, List.append_nil, hback]

/-- Evaluating a premise leaves the environment as it was. -/
theorem solve_snd (atoms : List Atom) (env : Env) : (solve index conclusions atoms env).2 = env := by
  induction atoms generalizing env with
  | nil => rfl
  | cons atom rest ih => rw [solve, foldl_solveWith ih]

/-- A premise is evaluated fact by fact. -/
theorem solve_cons (atom : Atom) (rest : List Atom) (env : Env) :
    (solve index conclusions (atom :: rest) env).1 =
      (index.matching (atom.map env.value)).flatMap (solveWith index conclusions atom rest env) := by
  rw [solve, foldl_solveWith fun env => solve_snd rest env]
  rfl

namespace GraphIndex.Coherent

variable (hindex : index.Coherent)
include hindex

/-- Every conclusion that is drawn is drawn for some valuation for which the atoms are in the graph. -/
theorem exists_of_mem_solve {atoms : List Atom} {env : Env} (hscope : ∀ atom ∈ atoms, InScope env.length atom)
    {c : Conclusion} {fact : Triple Nat} (h : (c, fact) ∈ (solve index conclusions atoms env).1) :
    c ∈ conclusions ∧ ∃ ρ, env.Below ρ ∧ c.atom.map (Slot.under ρ) = fact ∧
      ∀ atom ∈ atoms, index.contains (atom.map (Slot.under ρ)) = true := by
  induction atoms generalizing env with
  | nil =>
    simp only [solve, List.mem_filterMap, Option.map_eq_some_iff, Prod.mk.injEq] at h
    obtain ⟨k, hk, f, hf, rfl, rfl⟩ := h
    -- a conclusion only has known values, so any valuation with them will do
    obtain ⟨ρ, hρ⟩ := env.exists_below
    refine ⟨hk, ρ, hρ, map_under_eq.2 fun x hx => ?_, by simp⟩
    exact hρ.value (instantiate_eq_some.1 hf x hx)
  | cons atom rest ih =>
    rw [solve_cons, List.mem_flatMap] at h
    obtain ⟨found, hfound, h⟩ := h
    unfold solveWith at h
    split at h
    · rename_i hfits
      have hrest : ∀ other ∈ rest, InScope (env.bind atom found).2.1.length other := by
        intro other hother
        rw [Env.length_bind]
        exact hscope other (List.mem_cons_of_mem _ hother)
      obtain ⟨hc, ρ, hρ, hfact, hatoms⟩ := ih hrest h
      refine ⟨hc, ρ, hρ.of_grows (env.grows_bind atom found), hfact, fun other hother => ?_⟩
      rcases List.mem_cons.1 hother with rfl | hother
      · have hvalues := Env.map_value_bind (hscope other List.mem_cons_self) hfits
        have heq : other.map (Slot.under ρ) = found := map_under_eq.2 fun x hx => hρ.value (hvalues x hx)
        rw [heq]
        exact (hindex.mem_matching.1 hfound).1
      · exact hatoms other hother
    · cases h

/-- The conclusions of every valuation for which the atoms are in the graph are drawn, if their variables are known or
occur in the atoms. -/
theorem mem_solve {atoms : List Atom} {env : Env} (hscope : ∀ atom ∈ atoms, InScope env.length atom) {ρ : Nat → Nat}
    (hρ : env.Below ρ) (hatoms : ∀ atom ∈ atoms, index.contains (atom.map (Slot.under ρ)) = true) {c : Conclusion}
    (hc : c ∈ conclusions)
    (hbound : ∀ slot ∈ c.atom.toList, (∃ id, env.value slot = some id) ∨ ∃ atom ∈ atoms, slot ∈ atom.toList) :
    (c, c.atom.map (Slot.under ρ)) ∈ (solve index conclusions atoms env).1 := by
  induction atoms generalizing env with
  | nil =>
    simp only [solve, List.mem_filterMap, Option.map_eq_some_iff, Prod.mk.injEq]
    refine ⟨c, hc, _, instantiate_eq_some.2 fun x hx => ?_, rfl, rfl⟩
    have hslot := (List.of_mem_zip hx).1
    obtain ⟨id, hid⟩ := (hbound x.1 hslot).resolve_right (by simp)
    have hunder := map_under_eq.1 rfl x hx
    rw [hid, ← hunder, hρ.value hid]
  | cons atom rest ih =>
    -- the lookup by the known values finds the triple that the atom is under the valuation
    have hfound : atom.map (Slot.under ρ) ∈ index.matching (atom.map env.value) := by
      rw [hindex.mem_matching]
      refine ⟨hatoms atom List.mem_cons_self, ?_, ?_, ?_⟩
      · exact fun k hk => hρ.value hk
      · exact fun k hk => hρ.value hk
      · exact fun k hk => hρ.value hk
    obtain ⟨hfits, hbelow⟩ := Env.bind_of_below hρ (rfl : atom.map (Slot.under ρ) = _)
    rw [solve_cons, List.mem_flatMap]
    refine ⟨_, hfound, ?_⟩
    rw [solveWith, if_pos hfits]
    refine ih ?_ hbelow (fun other hother => hatoms other (List.mem_cons_of_mem _ hother)) fun slot hslot => ?_
    · intro other hother
      rw [Env.length_bind]
      exact hscope other (List.mem_cons_of_mem _ hother)
    · rcases hbound slot hslot with ⟨id, hid⟩ | ⟨other, hother, hmem⟩
      · exact .inl ⟨id, env.grows_bind _ _ _ _ hid⟩
      · rcases List.mem_cons.1 hother with rfl | hother
        · left
          have hvalues := Env.map_value_bind (hscope other List.mem_cons_self) hfits
          exact Env.exists_value_of_mem hvalues hmem
        · exact .inr ⟨other, hother, hmem⟩

end GraphIndex.Coherent

end RdfDataset
