import Mathlib

/-!
# Results

When a computation that can fail gives a value.

* `Checked`: a computation fails exactly as a check does, and otherwise its value satisfies a condition.
-/

namespace RdfDataset

variable {ε ε' α β : Type}

@[simp]
theorem bind_eq_ok {x : Except ε α} {f : α → Except ε β} {b : β} :
    x >>= f = .ok b ↔ ∃ a, x = .ok a ∧ f a = .ok b := by
  cases x with
  | error e => simp [bind, Except.bind]
  | ok a => simp [bind, Except.bind]

/-- A check has no value to hand on. -/
theorem check_bind_eq_ok {x : Except ε Unit} {f : Unit → Except ε β} {b : β} :
    x >>= f = .ok b ↔ x = .ok () ∧ f () = .ok b := by
  rw [bind_eq_ok]
  exact Unique.exists_iff

@[simp]
theorem pure_eq_ok {a b : α} : (pure a : Except ε α) = .ok b ↔ a = b := by
  simp [pure, Except.pure]

@[simp]
theorem throw_ne_ok {e : ε} {b : β} : (throw e : Except ε β) ≠ .ok b := by
  simp [throw, throwThe, MonadExceptOf.throw]

@[simp]
theorem map_eq_ok {x : Except ε α} {f : α → β} {b : β} :
    x.map f = .ok b ↔ ∃ a, x = .ok a ∧ f a = b := by
  cases x with
  | error e => simp [Except.map]
  | ok a => simp [Except.map]

@[simp]
theorem functorMap_eq_ok {x : Except ε α} {f : α → β} {b : β} :
    f <$> x = .ok b ↔ ∃ a, x = .ok a ∧ f a = b :=
  map_eq_ok

@[simp]
theorem mapError_eq_ok {x : Except ε α} {f : ε → ε'} {a : α} : x.mapError f = .ok a ↔ x = .ok a := by
  cases x with
  | error e => simp [Except.mapError]
  | ok b => simp [Except.mapError]

theorem bind_eq_error {x : Except ε α} {f : α → Except ε β} {e : ε} :
    x >>= f = .error e ↔ x = .error e ∨ ∃ a, x = .ok a ∧ f a = .error e := by
  cases x with
  | error e' => simp [bind, Except.bind]
  | ok a => simp [bind, Except.bind]

@[simp]
theorem pure_ne_error {a : α} {e : ε} : (pure a : Except ε α) ≠ .error e := by
  simp [pure, Except.pure]

@[simp]
theorem map_eq_error {x : Except ε α} {f : α → β} {e : ε} : x.map f = .error e ↔ x = .error e := by
  cases x with
  | error e' => simp [Except.map]
  | ok a => simp [Except.map]

@[simp]
theorem functorMap_eq_error {x : Except ε α} {f : α → β} {e : ε} : f <$> x = .error e ↔ x = .error e :=
  map_eq_error

@[simp]
theorem mapError_eq_error {x : Except ε α} {f : ε → ε'} {e : ε'} :
    x.mapError f = .error e ↔ ∃ e', x = .error e' ∧ f e' = e := by
  cases x with
  | error e' => simp [Except.mapError]
  | ok a => simp [Except.mapError]

theorem check_bind_eq_error {x : Except ε Unit} {f : Unit → Except ε β} {e : ε} :
    x >>= f = .error e ↔ x = .error e ∨ x = .ok () ∧ f () = .error e := by
  rw [bind_eq_error]
  exact or_congr_right Unique.exists_iff

/-- All elements of a list pass a check if each of them does. -/
theorem forM_eq_ok {f : α → Except ε Unit} {as : List α} : forM as f = .ok () ↔ ∀ a ∈ as, f a = .ok () := by
  induction as with
  | nil => simp
  | cons a as ih => rw [List.forM_cons, check_bind_eq_ok, ih, List.forall_mem_cons]

/-- A check of a list fails as it does at the first element that does not pass it. -/
theorem forM_eq_error {f : α → Except ε Unit} {as : List α} {e : ε} :
    forM as f = .error e ↔ ∃ before a after, as = before ++ a :: after ∧ (∀ b ∈ before, f b = .ok ()) ∧
      f a = .error e := by
  induction as with
  | nil => simp [pure, Except.pure]
  | cons a as ih =>
    rw [List.forM_cons, check_bind_eq_error, ih]
    constructor
    · rintro (h | ⟨ha, before, b, after, rfl, hbefore, hb⟩)
      · exact ⟨[], a, as, rfl, by simp, h⟩
      · exact ⟨a :: before, b, after, rfl, List.forall_mem_cons.2 ⟨ha, hbefore⟩, hb⟩
    · rintro ⟨before, b, after, heq, hbefore, hb⟩
      cases before with
      | nil =>
        obtain ⟨rfl, rfl⟩ := List.cons.inj heq
        exact .inl hb
      | cons c before =>
        obtain ⟨rfl, rfl⟩ := List.cons.inj heq
        obtain ⟨ha, hbefore⟩ := List.forall_mem_cons.1 hbefore
        exact .inr ⟨ha, before, b, after, rfl, hbefore, hb⟩

/-- Each value that a computation gives over a list is one that it gives for an element. -/
theorem exists_of_mem_mapM {f : α → Except ε β} {as : List α} {bs : List β} (h : as.mapM f = .ok bs) {b : β}
    (hb : b ∈ bs) : ∃ a ∈ as, f a = .ok b := by
  induction as generalizing bs with
  | nil =>
    simp only [List.mapM_nil, pure_eq_ok] at h
    rw [← h] at hb
    cases hb
  | cons a as ih =>
    simp only [List.mapM_cons, bind_eq_ok, pure_eq_ok] at h
    obtain ⟨c, hc, cs, hcs, rfl⟩ := h
    rcases List.mem_cons.1 hb with rfl | hb
    · exact ⟨a, List.mem_cons_self, hc⟩
    · obtain ⟨a', ha', h'⟩ := ih hcs hb
      exact ⟨a', List.mem_cons_of_mem a ha', h'⟩

/-- A computation over a list fails as it does for the first element for which it gives no value. -/
theorem mapM_eq_error {f : α → Except ε β} {as : List α} {e : ε} :
    as.mapM f = .error e ↔
      ∃ before a after bs, as = before ++ a :: after ∧ before.mapM f = .ok bs ∧ f a = .error e := by
  induction as with
  | nil => simp [pure, Except.pure]
  | cons a as ih =>
    simp only [List.mapM_cons, bind_eq_error, pure_ne_error, and_false, exists_false, or_false, ih]
    constructor
    · rintro (h | ⟨b, hb, before, c, after, bs, rfl, hbefore, hc⟩)
      · exact ⟨[], a, as, [], rfl, rfl, h⟩
      · refine ⟨a :: before, c, after, b :: bs, rfl, ?_, hc⟩
        simp [List.mapM_cons, hb, hbefore]
    · rintro ⟨before, c, after, bs, heq, hbefore, hc⟩
      cases before with
      | nil =>
        obtain ⟨rfl, rfl⟩ := List.cons.inj heq
        exact .inl hc
      | cons a' before =>
        obtain ⟨rfl, rfl⟩ := List.cons.inj heq
        simp only [List.mapM_cons, bind_eq_ok, pure_eq_ok] at hbefore
        obtain ⟨b, hb, bs, hbs, -⟩ := hbefore
        exact .inr ⟨b, hb, before, c, after, bs, rfl, hbs, hc⟩

/-! ### Checks beside computations -/

/-- A computation fails as a check does; where the check passes, there is a value, which satisfies a condition. -/
def Checked (check : Except ε Unit) (P : α → Prop) (x : Except ε α) : Prop :=
  match check with
  | .error e => x = .error e
  | .ok () => ∃ a, x = .ok a ∧ P a

theorem Checked.pure {P : α → Prop} {a : α} (h : P a) : Checked (.ok () : Except ε Unit) P (pure a) :=
  ⟨a, rfl, h⟩

theorem Checked.bind {check check' : Except ε Unit} {P : α → Prop} {Q : β → Prop} {x : Except ε α}
    {f : α → Except ε β} (hx : Checked check P x) (hf : ∀ a, P a → Checked check' Q (f a)) :
    Checked (check >>= fun _ => check') Q (x >>= f) := by
  cases check with
  | error e =>
    have hx : x = .error e := hx
    rw [hx]
    rfl
  | ok _ =>
    obtain ⟨a, rfl, ha⟩ := hx
    exact hf a ha

theorem Checked.mapM {check : α → Except ε Unit} {R : α → β → Prop} {f : α → Except ε β}
    (h : ∀ a, Checked (check a) (R a) (f a)) (as : List α) :
    Checked (forM as check) (List.Forall₂ R as) (as.mapM f) := by
  induction as with
  | nil => exact .pure .nil
  | cons a as ih =>
    rw [List.mapM_cons, List.forM_cons, ← bind_pure_unit (x := forM as check)]
    refine (h a).bind fun b hb => ih.bind fun bs hbs => .pure (.cons hb hbs)

end RdfDataset
