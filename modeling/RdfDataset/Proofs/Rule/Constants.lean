import RdfDataset.Proofs.Reasoning.Universe
import RdfDataset.Proofs.Rule.Compile

/-!
# The constants of compiled rules

Whatever terms the rules have, valid or not, compiling them keeps all numbers, and the constants that it gives are
numbers of terms.

* `Compile.Allots`: what holds of a step of compilation, whether it succeeds or fails.
* `compileRules_over`: the conclusions of compiled rules are over the numbers that name terms.
* `extends_compileRules_append`: the numbers that rules are given stay when more rules come after them.
-/

namespace RdfDataset

namespace Compile

variable {α β : Type}

/-- A step of compilation keeps all numbers in place, whatever the terms are; when it succeeds, a condition holds of
the interner after it and its result. -/
def Allots (m : Compile α) (Q : Interner → α → Prop) : Prop :=
  ∀ s : Scope, s.terms.Sound → (m.run.run s).2.terms.Sound ∧ s.terms.Extends (m.run.run s).2.terms ∧
    ∀ a, (m.run.run s).1 = .ok a → Q (m.run.run s).2.terms a

/-- A condition that holds on when more terms get numbers. -/
def Lasting (Q : Interner → α → Prop) : Prop :=
  ∀ i j a, i.Extends j → Q i a → Q j a

theorem Allots.weaken {m : Compile α} {Q Q' : Interner → α → Prop} (hm : m.Allots Q) (h : ∀ i a, Q i a → Q' i a) :
    m.Allots Q' := by
  intro s hs
  obtain ⟨hsound, hkeeps, hok⟩ := hm s hs
  exact ⟨hsound, hkeeps, fun a ha => h _ a (hok a ha)⟩

theorem Allots.pure (a : α) : Allots (Pure.pure a) fun _ b => b = a := by
  intro s hs
  refine ⟨hs, .refl _, ?_⟩
  rintro b ⟨⟩
  rfl

theorem Allots.throw (e : RuleError) (Q : Interner → α → Prop) : Allots (throw e : Compile α) Q := by
  intro s hs
  refine ⟨hs, .refl _, ?_⟩
  rintro b ⟨⟩

theorem Allots.bind {m : Compile α} {f : α → Compile β} {Q : Interner → α → Prop} {R : α → Interner → β → Prop}
    (hm : m.Allots Q) (hQ : Lasting Q) (hf : ∀ a, (f a).Allots (R a)) :
    (m >>= f).Allots fun i b => ∃ a, Q i a ∧ R a i b := by
  intro s hs
  obtain ⟨hsound, hkeeps, hok⟩ := hm s hs
  rw [run_bind]
  cases hr : (m.run.run s).1 with
  | error e => exact ⟨hsound, hkeeps, by rintro b ⟨⟩⟩
  | ok a =>
    obtain ⟨hsound', hkeeps', hok'⟩ := hf a _ hsound
    exact ⟨hsound', hkeeps.trans hkeeps', fun b hb => ⟨a, hQ _ _ a hkeeps' (hok a hr), hok' b hb⟩⟩

theorem Allots.mapM {f : α → Compile β} {Q : Interner → β → Prop} (hQ : Lasting Q) (hf : ∀ a, (f a).Allots Q)
    (as : List α) : (as.mapM f).Allots fun i bs => ∀ b ∈ bs, Q i b := by
  induction as with
  | nil =>
    rw [List.mapM_nil]
    refine (Allots.pure []).weaken ?_
    rintro i bs rfl
    simp
  | cons a as ih =>
    rw [List.mapM_cons]
    have hlasting : Lasting fun i (bs : List β) => ∀ b ∈ bs, Q i b :=
      fun i j bs hkeeps h b hb => hQ i j b hkeeps (h b hb)
    refine ((hf a).bind hQ fun b => ih.bind hlasting fun bs => Allots.pure (b :: bs)).weaken ?_
    rintro i all ⟨b, hb, bs, hbs, rfl⟩
    exact List.forall_mem_cons.2 ⟨hb, hbs⟩

/-! ### Slots, atoms and rules -/

/-- A slot that is a variable or a number of a term. -/
def SlotOver (i : Interner) (slot : Slot) : Prop :=
  ∀ id, slot = .const id → id ∈ i.named

theorem lasting_slotOver : Lasting SlotOver :=
  fun _ _ _ hkeeps h id hid => hkeeps.named_subset (h id hid)

theorem lasting_atomOver : Lasting fun i atom => AtomOver i.named atom :=
  fun _ _ _ hkeeps h id hid => hkeeps.named_subset (h id hid)

theorem Allots.constant (t : Term) : (Compile.constant t).Allots SlotOver := by
  intro s hs
  obtain ⟨hsound, hkeeps, hnamed⟩ := hs.intern t
  refine ⟨hsound, hkeeps, ?_⟩
  rintro slot ⟨⟩ id ⟨⟩
  exact hnamed

theorem Allots.premiseSlot (rule : Nat) (t : Term) : (Compile.premiseSlot rule t).Allots SlotOver := by
  cases t with
  | var name =>
    intro s hs
    rw [Compile.premiseSlot, run_get_bind]
    cases hname : s.names.idxOf? name with
    | some number =>
      refine ⟨hs, .refl _, ?_⟩
      rintro slot ⟨⟩ id ⟨⟩
    | none =>
      refine ⟨hs, .refl _, ?_⟩
      rintro slot ⟨⟩ id ⟨⟩
  | defaultGraph => exact .throw _ _
  | iri _ | blank _ | literal _ | quoted _ _ _ _ => exact .constant _

theorem Allots.conclusionSlot (rule : Nat) (t : Term) : (Compile.conclusionSlot rule t).Allots SlotOver := by
  cases t with
  | var name =>
    intro s hs
    rw [Compile.conclusionSlot, run_get_bind]
    cases hname : s.names.idxOf? name with
    | some number =>
      refine ⟨hs, .refl _, ?_⟩
      rintro slot ⟨⟩ id ⟨⟩
    | none => exact Allots.throw _ _ s hs
  | defaultGraph => exact .throw _ _
  | iri _ | blank _ | literal _ | quoted _ _ _ _ => exact .constant _

theorem Allots.atom {slot : Term → Compile Slot} (hslot : ∀ t, (slot t).Allots SlotOver) (pattern : TriplePattern) :
    (Compile.atom slot pattern).Allots fun i atom => AtomOver i.named atom := by
  refine ((hslot pattern.subject).bind lasting_slotOver fun a => (hslot pattern.predicate).bind lasting_slotOver
    fun b => (hslot pattern.object).bind lasting_slotOver fun c => Allots.pure (⟨a, b, c⟩ : Atom)).weaken ?_
  rintro i atom ⟨a, ha, b, hb, c, hc, rfl⟩ id hid
  simp only [Triple.toList, List.mem_cons, List.not_mem_nil, or_false] at hid
  rcases hid with hid | hid | hid
  · exact ha id hid.symm
  · exact hb id hid.symm
  · exact hc id hid.symm

theorem Allots.compile (number : Nat) (rule : Rule) :
    (rule.compile number).Allots fun i c => c.Over i.named := by
  have hreset : Allots (modify fun scope => { scope with names := [] }) fun _ _ => True :=
    fun s hs => ⟨hs, .refl _, fun _ _ => trivial⟩
  have hget : Allots (α := Scope) get fun _ _ => True := fun s hs => ⟨hs, .refl _, fun _ _ => trivial⟩
  have hatoms : ∀ {slot : Term → Compile Slot}, (∀ t, (slot t).Allots SlotOver) → ∀ patterns : List TriplePattern,
      (patterns.mapM (Compile.atom slot)).Allots fun i atoms => ∀ atom ∈ atoms, AtomOver i.named atom :=
    fun hslot patterns => .mapM lasting_atomOver (fun pattern => .atom hslot pattern) patterns
  have hlasting : Lasting fun i (atoms : List Atom) => ∀ atom ∈ atoms, AtomOver i.named atom :=
    fun i j atoms hkeeps h atom hatom => lasting_atomOver i j atom hkeeps (h atom hatom)
  unfold Rule.compile
  by_cases hempty : rule.premise.isEmpty = true
  · rw [if_pos hempty]
    intro s hs
    exact ⟨hs, .refl _, by rintro c ⟨⟩⟩
  · rw [if_neg hempty]
    refine (hreset.bind (fun _ _ _ _ h => h) fun _ => (hatoms (premiseSlot number) rule.premise).bind hlasting
      fun premise => (hatoms (conclusionSlot number) rule.conclusion).bind hlasting fun conclusion =>
      hget.bind (fun _ _ _ _ h => h) fun scope =>
      Allots.pure (⟨premise, conclusion.map (⟨·, []⟩), scope.names.length⟩ : CompiledRule)).weaken ?_
    rintro i c ⟨-, -, premise, -, conclusion, hconclusion, scope, -, rfl⟩ k hk
    obtain ⟨atom, hatom, rfl⟩ := List.mem_map.1 hk
    exact hconclusion atom hatom

end Compile

/-- Compiling any rules keeps all numbers, also when it fails, and the constants in the conclusions are numbers of
terms. -/
theorem compileRules_over (rules : List Rule) {terms : Interner} (hterms : terms.Sound) :
    (compileRules rules terms).2.Sound ∧ terms.Extends (compileRules rules terms).2 ∧
      ∀ compiled, (compileRules rules terms).1 = .ok compiled →
        ∀ rule ∈ compiled, rule.Over (compileRules rules terms).2.named := by
  have hlasting : Compile.Lasting fun i (c : CompiledRule) => c.Over i.named :=
    fun _ _ _ hkeeps h k hk id hid => hkeeps.named_subset (h k hk id hid)
  obtain ⟨hsound, hkeeps, hok⟩ := Compile.Allots.mapM hlasting
    (fun x : Rule × Nat => Compile.Allots.compile x.2 x.1) rules.zipIdx { names := [], terms } hterms
  refine ⟨hsound, hkeeps, fun compiled hcompiled rule hrule k hk => ?_⟩
  rw [compileRules] at hcompiled
  obtain ⟨unlinked, hunlinked, rfl⟩ := map_eq_ok.1 hcompiled
  -- linking changes no atom
  obtain ⟨c, hc, rfl⟩ := List.mem_map.1 hrule
  obtain ⟨j, hj, rfl⟩ := List.mem_map.1 hk
  exact hok unlinked hunlinked c hc j hj

/-- The numbers that rules are given are kept when more rules come after them, also when one of these fails. -/
theorem extends_compileRules_append (before after : List Rule) {terms : Interner} (hterms : terms.Sound) :
    (compileRules before terms).2.Extends (compileRules (before ++ after) terms).2 := by
  have hall : ∀ (start : Nat) (rules : List Rule), ((rules.zipIdx start).mapM fun x : Rule × Nat =>
      x.1.compile x.2).Allots fun _ _ => True := by
    intro start rules
    refine (Compile.Allots.mapM (Q := fun _ _ => True) (fun _ _ _ _ h => h) (fun x => ?_) _).weaken fun _ _ _ => trivial
    exact (Compile.Allots.compile x.2 x.1).weaken fun _ _ _ => trivial
  have hterms_eq : ∀ rules : List Rule, (compileRules rules terms).2 =
      ((rules.zipIdx.mapM fun x : Rule × Nat => x.1.compile x.2).run.run { names := [], terms }).2.terms :=
    fun _ => rfl
  rw [hterms_eq, hterms_eq, List.zipIdx_append, List.mapM_append, Compile.run_bind]
  obtain ⟨hsound, -, -⟩ := hall 0 before { names := [], terms } hterms
  cases ((before.zipIdx).mapM fun x : Rule × Nat => x.1.compile x.2).run.run { names := [], terms } |>.1 with
  | error e => exact .refl _
  | ok compiled =>
    have hrest := (hall (0 + before.length) after).bind (f := fun more => Pure.pure (compiled ++ more))
      (fun _ _ _ _ h => h) fun more => Compile.Allots.pure _
    exact (hrest _ hsound).2.1

end RdfDataset
