import RdfDataset.Interner
import RdfDataset.Proofs.Term.Codec

/-!
# Numbers and terms

In a valid interner the numbers from one to its size name different valid terms, and no others.

* `Interner.Valid`: what holds of every interner that is built by interning valid terms.
* `Interner.Extends`: all numbers keep their terms.
* `Interner.Sound` is what is left of validity when any terms are interned; `Interner.Sound.intern` keeps it.
* `Interner.Distinguishes`: a term is not taken for another one; `Interner.Sound.find?_eq_some_iff` looks it up.
* `Interner.Valid.intern`, `Interner.Valid.extends_intern` and `Interner.Valid.resolve?_intern`: interning a valid
  term keeps the interner valid and all numbers in place, and gives a number of the term.
* `Interner.Valid.find?_eq_some_iff`: the number of a term is the one that names it.
-/

namespace RdfDataset

/-! ### Ids of components -/

namespace Term

/-- How long the id of a term is. -/
def idLength (t : Term) : Nat :=
  (t.idChars false).length

theorem idLength_eq_of_id_eq {t u : Term} (h : t.id = u.id) : t.idLength = u.idLength :=
  congrArg List.length (String.ofList_injective h)

private theorem length_le_doubleQuotes (cs : List Char) : cs.length ≤ (doubleQuotes cs).length := by
  fun_induction doubleQuotes cs <;> simp <;> omega

/-- The id of a term does not get shorter inside a quoted quad. -/
theorem idLength_le (t : Term) : t.idLength ≤ (t.idChars true).length := by
  cases t with
  | literal l =>
    have hvalue := length_le_doubleQuotes l.value.toList
    simp only [idLength, idChars, Literal.idChars, List.length_cons, List.length_append, Bool.false_eq_true, if_false,
      if_true]
    omega
  | _ => exact le_rfl

/-- The components of a quoted quad have shorter ids. -/
theorem idLength_lt_quoted {s p o g u : Term} (hu : u ∈ [s, p, o, g]) : u.idLength < (quoted s p o g).idLength := by
  have hwhole : (quoted s p o g).idLength = (s.idChars true).length + (p.idChars true).length +
      (o.idChars true).length + (if g.isDefaultGraph then [] else ' ' :: g.idChars true).length + 6 := by
    simp only [idLength, idChars, List.length_cons, List.length_append, List.length_nil]
    omega
  have hgraph : g.idLength ≤ (if g.isDefaultGraph then [] else ' ' :: g.idChars true).length := by
    cases g with
    | defaultGraph => exact le_rfl
    | _ => exact (idLength_le _).trans (Nat.le_succ _)
  have hs := s.idLength_le
  have hp := p.idLength_le
  have ho := o.idLength_le
  simp only [List.mem_cons, List.not_mem_nil, or_false] at hu
  rcases hu with rfl | rfl | rfl | rfl <;> omega

/-- A term whose id begins with a letter is an IRI. -/
theorem eq_iri_of_id {t : Term} {text : String} (hid : t.id = (iri text).id) {c : Char} {cs : List Char}
    (htext : text.toList = c :: cs) (hc : c.isAlpha = true) : t = iri text := by
  have hchars : t.idChars false = c :: cs := (String.ofList_injective hid).trans htext
  cases t with
  | iri other => rw [String.toList_injective (hchars.trans htext.symm)]
  | defaultGraph => cases hchars
  | _ =>
    -- the other ids begin with a mark
    obtain rfl := (List.cons.inj hchars).1
    cases hc

end Term

namespace Interner

/-- Numbers and terms belong together one to one, all terms are valid, and the components of a quoted quad have
numbers too. -/
structure Valid (i : Interner) : Prop where
  isValid : ∀ {n : Nat} {t : Term}, i.resolve? n = some t → t.IsValid
  findId?_eq_some_iff : ∀ {id : String} {n : Nat}, i.findId? id = some n ↔ ∃ t, i.resolve? n = some t ∧ t.id = id
  components : ∀ {n : Nat} {s p o g : Term}, i.resolve? n = some (.quoted s p o g) →
    ∀ t ∈ [s, p, o, g], ∃ m, i.resolve? m = some t

/-- All numbers of the first interner name the same terms in the second. -/
def Extends (i j : Interner) : Prop :=
  ∀ n t, i.resolve? n = some t → j.resolve? n = some t

theorem Extends.refl (i : Interner) : i.Extends i :=
  fun _ _ h => h

theorem Extends.trans {i j k : Interner} (hij : i.Extends j) (hjk : j.Extends k) : i.Extends k :=
  fun n t h => hjk n t (hij n t h)

theorem valid_empty : Valid {} where
  isValid := by
    intro n t h
    cases n <;> simp [resolve?] at h
  findId?_eq_some_iff := by
    intro id n
    cases n <;> simp [findId?, resolve?]
  components := by
    intro n s p o g h
    cases n <;> simp [resolve?] at h

/-- A number that names a term is at most the number of terms. -/
theorem resolve?_eq_none {i : Interner} {n : Nat} (h : i.size < n) : i.resolve? n = none := by
  cases n with
  | zero => rfl
  | succ n =>
    simp only [resolve?, Array.getElem?_eq_none_iff]
    exact Nat.le_of_lt_succ h

/-- What pushing a term does: it gets the next number, and all others are kept. -/
theorem resolve?_push (i : Interner) (t : Term) (n : Nat) :
    (i.push t).2.resolve? n = if n = i.size + 1 then some t else i.resolve? n := by
  cases n with
  | zero => simp [resolve?]
  | succ n => simp [push, resolve?, size, Array.getElem?_push]

theorem findId?_push (i : Interner) (t : Term) (id : String) :
    (i.push t).2.findId? id = if t.id = id then some (i.size + 1) else i.findId? id := by
  simp [push, findId?, Std.HashMap.getElem?_insert]

theorem extends_push (i : Interner) (t : Term) : i.Extends (i.push t).2 := by
  intro n u h
  rw [resolve?_push, if_neg, h]
  rintro rfl
  rw [resolve?_eq_none (Nat.lt_succ_self _)] at h
  cases h

/-- A term that has a number keeps it. -/
theorem intern_of_find? {i : Interner} {t : Term} {n : Nat} (h : i.find? t = some n) : i.intern t = (n, i) := by
  rw [intern.eq_def, h]

/-! ### Any terms -/

/-- The numbers that name terms. -/
def named (i : Interner) : Set Nat :=
  {n | ∃ t, i.resolve? n = some t}

theorem Extends.named_subset {i j : Interner} (h : i.Extends j) : i.named ⊆ j.named := by
  rintro n ⟨t, ht⟩
  exact ⟨t, h n t ht⟩

/-- Ids and numbers belong together one to one, though a term that is looked for may have the id of another one.  Unlike
validity this also holds when terms were interned that are not valid. -/
def Sound (i : Interner) : Prop :=
  ∀ id n, i.findId? id = some n ↔ ∃ t, i.resolve? n = some t ∧ t.id = id

theorem sound_empty : Sound {} := by
  intro id n
  cases n <;> simp [findId?, resolve?]

/-- What interning any term gives. -/
private structure Allotted (i : Interner) (t : Term) (r : Nat × Interner) : Prop where
  sound : r.2.Sound
  keeps : i.Extends r.2
  named : r.1 ∈ r.2.named
  added : ∀ n u, r.2.resolve? n = some u → i.resolve? n = some u ∨ u.idLength ≤ t.idLength

private theorem allotted_of_find? {i : Interner} (hi : i.Sound) {t : Term} {n : Nat} (hfind : i.find? t = some n) :
    Allotted i t (i.intern t) := by
  rw [intern_of_find? hfind]
  obtain ⟨u, hu, -⟩ := (hi _ n).1 hfind
  exact ⟨hi, .refl i, ⟨u, hu⟩, fun _ _ h => .inl h⟩

private theorem allotted_push {i : Interner} (hi : i.Sound) {t : Term} (hnew : i.find? t = none) :
    Allotted i t (i.push t) where
  sound := by
    intro id n
    rw [findId?_push]
    constructor
    · intro h
      split at h
      · obtain rfl := Option.some.inj h
        exact ⟨t, by rw [resolve?_push, if_pos rfl], by assumption⟩
      · obtain ⟨u, hu, hid⟩ := (hi id n).1 h
        exact ⟨u, extends_push i t n u hu, hid⟩
    · rintro ⟨u, hu, rfl⟩
      rw [resolve?_push] at hu
      split at hu
      · obtain rfl := Option.some.inj hu
        rw [if_pos rfl]
        congr 1
        exact Eq.symm (by assumption)
      · -- the id was not found before, so no other term has it
        have hold := (hi u.id n).2 ⟨u, hu, rfl⟩
        have hne : t.id ≠ u.id := by
          intro hid
          rw [find?, hid, hold] at hnew
          cases hnew
        rw [if_neg hne, hold]
  keeps := extends_push i t
  named := ⟨t, by rw [resolve?_push, push, if_pos rfl]⟩
  added := by
    intro n u h
    rw [resolve?_push] at h
    split at h
    · exact .inr (le_of_eq (congrArg Term.idLength (Option.some.inj h).symm))
    · exact .inl h

/-- No id is added twice, since the ids of the parts of a term that are added before it are shorter. -/
private theorem allotted_intern {i : Interner} (hi : i.Sound) (t : Term) : Allotted i t (i.intern t) := by
  induction t generalizing i with
  | quoted s p o g ihs ihp iho ihg =>
    cases hfind : i.find? (.quoted s p o g) with
    | some n => exact allotted_of_find? hi hfind
    | none =>
      have hs := ihs hi
      have hp := ihp hs.sound
      have ho := iho hp.sound
      have hg := ihg ho.sound
      have hintern : i.intern (.quoted s p o g) =
          ((((i.intern s).2.intern p).2.intern o).2.intern g).2.push (.quoted s p o g) := by
        rw [intern, hfind]
      rw [hintern]
      generalize i.intern s = rs at *
      generalize rs.2.intern p = rp at *
      generalize rp.2.intern o = ro at *
      generalize ro.2.intern g = rg at *
      have hadded : ∀ n u, rg.2.resolve? n = some u →
          i.resolve? n = some u ∨ u.idLength < (Term.quoted s p o g).idLength := by
        have hshorter : ∀ u ∈ [s, p, o, g], u.idLength < (Term.quoted s p o g).idLength :=
          fun _ => Term.idLength_lt_quoted
        simp only [List.forall_mem_cons] at hshorter
        obtain ⟨hs', hp', ho', hg', -⟩ := hshorter
        intro n u h
        rcases hg.added n u h with h | h
        · rcases ho.added n u h with h | h
          · rcases hp.added n u h with h | h
            · exact (hs.added n u h).imp_right fun h => h.trans_lt hs'
            · exact .inr (h.trans_lt hp')
          · exact .inr (h.trans_lt ho')
        · exact .inr (h.trans_lt hg')
      have hnew : rg.2.find? (.quoted s p o g) = none := by
        rw [Option.eq_none_iff_forall_ne_some]
        intro n h
        obtain ⟨u, hu, hid⟩ := (hg.sound _ n).1 h
        rcases hadded n u hu with hu | hlt
        · rw [find?, (hi _ n).2 ⟨u, hu, hid⟩] at hfind
          cases hfind
        · exact absurd (Term.idLength_eq_of_id_eq hid) hlt.ne
      have hpush := allotted_push hg.sound hnew
      refine ⟨hpush.sound, (((hs.keeps.trans hp.keeps).trans ho.keeps).trans hg.keeps).trans hpush.keeps, hpush.named,
        fun n u h => ?_⟩
      rcases hpush.added n u h with h | h
      · exact (hadded n u h).imp_right Nat.le_of_lt
      · exact .inr h
  | iri text | blank label | literal l | var name | defaultGraph =>
    cases hfind : i.find? _ with
    | some n => exact allotted_of_find? hi hfind
    | none =>
      rw [intern, hfind]
      · exact allotted_push hi hfind
      · simp

/-- Interning any term keeps all numbers, and gives one that names a term. -/
theorem Sound.intern {i : Interner} (hi : i.Sound) (t : Term) :
    (i.intern t).2.Sound ∧ i.Extends (i.intern t).2 ∧ (i.intern t).1 ∈ (i.intern t).2.named :=
  ⟨(allotted_intern hi t).sound, (allotted_intern hi t).keeps, (allotted_intern hi t).named⟩

/-- No other term that has a number has the id of a given term. -/
def Distinguishes (i : Interner) (t : Term) : Prop :=
  ∀ n u, i.resolve? n = some u → u.id = t.id → u = t

/-- An IRI that begins with a letter has an id that no other term has. -/
theorem distinguishes_iri (i : Interner) {text : String} {c : Char} {cs : List Char} (htext : text.toList = c :: cs)
    (hc : c.isAlpha = true) : i.Distinguishes (.iri text) :=
  fun _ _ _ hid => Term.eq_iri_of_id hid htext hc

namespace Sound

variable {i : Interner} (hi : i.Sound) {t : Term}
include hi

/-- A term has one number. -/
theorem resolve?_inj {m n : Nat} (hm : i.resolve? m = some t) (hn : i.resolve? n = some t) : m = n := by
  have hm := (hi t.id m).2 ⟨t, hm, rfl⟩
  have hn := (hi t.id n).2 ⟨t, hn, rfl⟩
  exact Option.some.inj (hm.symm.trans hn)

/-- Terms that have numbers have different ids. -/
theorem distinguishes {n : Nat} (h : i.resolve? n = some t) : i.Distinguishes t := by
  intro m u hu hid
  have hm := (hi t.id m).2 ⟨u, hu, hid⟩
  have hn := (hi t.id n).2 ⟨t, h, rfl⟩
  rw [Option.some.inj (hm.symm.trans hn), h] at hu
  exact (Option.some.inj hu).symm

/-- The number of a term that is not taken for another one is the number that names it. -/
theorem find?_eq_some_iff (ht : i.Distinguishes t) {n : Nat} : i.find? t = some n ↔ i.resolve? n = some t := by
  rw [find?, hi]
  constructor
  · rintro ⟨u, hu, hid⟩
    rwa [ht n u hu hid] at hu
  · exact fun h => ⟨t, h, rfl⟩

theorem find?_eq_none_iff (ht : i.Distinguishes t) : i.find? t = none ↔ ∀ n, i.resolve? n ≠ some t := by
  rw [Option.eq_none_iff_forall_ne_some]
  exact forall_congr' fun n => not_congr (hi.find?_eq_some_iff ht)

end Sound

/-! ### Valid terms -/

namespace Valid

variable {i : Interner} {t : Term}

theorem sound (hi : i.Valid) : i.Sound :=
  fun _ _ => hi.findId?_eq_some_iff

/-- A valid term is not taken for another one. -/
theorem distinguishes (hi : i.Valid) (ht : t.IsValid) : i.Distinguishes t :=
  fun _ _ hu => ((hi.isValid hu).id_inj ht).1

/-- The number of a valid term is the one that names it. -/
theorem find?_eq_some_iff (hi : i.Valid) (ht : t.IsValid) {n : Nat} :
    i.find? t = some n ↔ i.resolve? n = some t :=
  hi.sound.find?_eq_some_iff (hi.distinguishes ht)

theorem find?_eq_none_iff (hi : i.Valid) (ht : t.IsValid) : i.find? t = none ↔ ∀ n, i.resolve? n ≠ some t :=
  hi.sound.find?_eq_none_iff (hi.distinguishes ht)

/-- A term has one number. -/
theorem resolve?_inj (hi : i.Valid) {m n : Nat} (hm : i.resolve? m = some t) (hn : i.resolve? n = some t) : m = n :=
  hi.sound.resolve?_inj hm hn

/-- A new term whose components have numbers may get the next number. -/
private theorem push (hi : i.Valid) (ht : t.IsValid) (hnew : i.find? t = none)
    (hcomponents : ∀ s p o g, t = .quoted s p o g → ∀ u ∈ [s, p, o, g], ∃ m, i.resolve? m = some u) :
    (i.push t).2.Valid where
  isValid := by
    intro n u h
    rw [resolve?_push] at h
    split at h
    · rwa [← Option.some.inj h]
    · exact hi.isValid h
  findId?_eq_some_iff := by
    intro id n
    rw [findId?_push]
    constructor
    · intro h
      split at h
      · obtain rfl := Option.some.inj h
        exact ⟨t, by rw [resolve?_push, if_pos rfl], by assumption⟩
      · obtain ⟨u, hu, hid⟩ := hi.findId?_eq_some_iff.1 h
        exact ⟨u, extends_push i t n u hu, hid⟩
    · rintro ⟨u, hu, rfl⟩
      rw [resolve?_push] at hu
      split at hu
      · obtain rfl := Option.some.inj hu
        rw [if_pos rfl]
        congr 1
        exact Eq.symm (by assumption)
      · -- ids of valid terms are different for different terms, so no other entry is overwritten
        have hne : t.id ≠ u.id := by
          intro hid
          rw [ht.id_inj (hi.isValid hu)] at hid
          subst hid
          exact (hi.find?_eq_none_iff ht).1 hnew n hu
        rw [if_neg hne]
        exact hi.findId?_eq_some_iff.2 ⟨u, hu, rfl⟩
  components := by
    intro n s p o g h u hu
    have hold : ∃ m, i.resolve? m = some u := by
      rw [resolve?_push] at h
      split at h
      · exact hcomponents s p o g (Option.some.inj h) u hu
      · exact hi.components h u hu
    obtain ⟨m, hm⟩ := hold
    exact ⟨m, extends_push i t m u hm⟩

/-- What interning a term gives: all numbers are kept, the number is one of the term, and what is added are the term
and parts of it. -/
private structure Interned (i : Interner) (t : Term) (r : Nat × Interner) : Prop where
  valid : r.2.Valid
  keeps : i.Extends r.2
  names : r.2.resolve? r.1 = some t
  added : ∀ n u, r.2.resolve? n = some u → i.resolve? n = some u ∨ sizeOf u ≤ sizeOf t

private theorem interned_of_find? (hi : i.Valid) (ht : t.IsValid) {n : Nat} (hfind : i.find? t = some n) :
    Interned i t (i.intern t) := by
  rw [intern_of_find? hfind]
  exact ⟨hi, .refl i, (hi.find?_eq_some_iff ht).1 hfind, fun _ _ h => .inl h⟩

private theorem interned_push (hi : i.Valid) (ht : t.IsValid) (hnew : i.find? t = none)
    (hcomponents : ∀ s p o g, t = .quoted s p o g → ∀ u ∈ [s, p, o, g], ∃ m, i.resolve? m = some u) :
    Interned i t (i.push t) where
  valid := hi.push ht hnew hcomponents
  keeps := extends_push i t
  names := by rw [resolve?_push, Interner.push, if_pos rfl]
  added := by
    intro n u h
    rw [resolve?_push] at h
    split at h
    · exact .inr (le_of_eq (congrArg sizeOf (Option.some.inj h).symm))
    · exact .inl h

/-- No term is added twice, since the parts of a term that are added before it are smaller. -/
private theorem interned_intern (hi : i.Valid) (ht : t.IsValid) : Interned i t (i.intern t) := by
  induction t generalizing i with
  | quoted s p o g ihs ihp iho ihg =>
    have hq := Term.isValid_quoted.1 ht
    cases hfind : i.find? (.quoted s p o g) with
    | some n => exact interned_of_find? hi ht hfind
    | none =>
      have hs := ihs hi hq.1
      have hp := ihp hs.valid hq.2.1
      have ho := iho hp.valid hq.2.2.1
      have hg := ihg ho.valid hq.2.2.2
      have hintern : i.intern (.quoted s p o g) =
          ((((i.intern s).2.intern p).2.intern o).2.intern g).2.push (.quoted s p o g) := by
        rw [intern, hfind]
      rw [hintern]
      generalize i.intern s = rs at *
      generalize rs.2.intern p = rp at *
      generalize rp.2.intern o = ro at *
      generalize ro.2.intern g = rg at *
      have hkeeps : i.Extends rg.2 := ((hs.keeps.trans hp.keeps).trans ho.keeps).trans hg.keeps
      -- all that has been added is smaller than the quad, which therefore still has no number
      have hadded : ∀ n u, rg.2.resolve? n = some u →
          i.resolve? n = some u ∨ sizeOf u < sizeOf (Term.quoted s p o g) := by
        intro n u h
        rw [Term.quoted.sizeOf_spec]
        rcases hg.added n u h with h | h
        · rcases ho.added n u h with h | h
          · rcases hp.added n u h with h | h
            · rcases hs.added n u h with h | h
              · exact .inl h
              · right; omega
            · right; omega
          · right; omega
        · right; omega
      have hnew : rg.2.find? (.quoted s p o g) = none := by
        rw [hg.valid.find?_eq_none_iff ht]
        intro n h
        rcases hadded n _ h with h | h
        · exact (hi.find?_eq_none_iff ht).1 hfind n h
        · exact Nat.lt_irrefl _ h
      have hpush := interned_push hg.valid ht hnew ?_
      · refine ⟨hpush.valid, hkeeps.trans hpush.keeps, hpush.names, fun n u h => ?_⟩
        rcases hpush.added n u h with h | h
        · exact (hadded n u h).imp_right Nat.le_of_lt
        · exact .inr h
      · rintro _ _ _ _ heq u hu
        obtain ⟨rfl, rfl, rfl, rfl⟩ := Term.quoted.inj heq
        simp only [List.mem_cons, List.not_mem_nil, or_false] at hu
        rcases hu with rfl | rfl | rfl | rfl
        · exact ⟨_, hg.keeps _ _ (ho.keeps _ _ (hp.keeps _ _ hs.names))⟩
        · exact ⟨_, hg.keeps _ _ (ho.keeps _ _ hp.names)⟩
        · exact ⟨_, hg.keeps _ _ ho.names⟩
        · exact ⟨_, hg.names⟩
  | iri text | blank label | literal l | var name | defaultGraph =>
    cases hfind : i.find? _ with
    | some n => exact interned_of_find? hi ht hfind
    | none =>
      rw [intern, hfind]
      · exact interned_push hi ht hfind (by simp)
      · simp

/-- Interning a valid term keeps the interner valid. -/
theorem intern (hi : i.Valid) (ht : t.IsValid) : (i.intern t).2.Valid :=
  (interned_intern hi ht).valid

/-- Interning a valid term keeps all numbers. -/
theorem extends_intern (hi : i.Valid) (ht : t.IsValid) : i.Extends (i.intern t).2 :=
  (interned_intern hi ht).keeps

/-- Interning a valid term gives a number of the term. -/
theorem resolve?_intern (hi : i.Valid) (ht : t.IsValid) : (i.intern t).2.resolve? (i.intern t).1 = some t :=
  (interned_intern hi ht).names

/-- What holds of the number and the interner that interning a valid term gives. -/
theorem of_intern_eq (hi : i.Valid) (ht : t.IsValid) {n : Nat} {j : Interner} (h : i.intern t = (n, j)) :
    j.Valid ∧ i.Extends j ∧ j.resolve? n = some t := by
  have hinterned := interned_intern hi ht
  rw [h] at hinterned
  exact ⟨hinterned.valid, hinterned.keeps, hinterned.names⟩

end Valid

end Interner

end RdfDataset
