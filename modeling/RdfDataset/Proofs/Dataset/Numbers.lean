import RdfDataset.Proofs.Dataset.BlankNode
import RdfDataset.Proofs.GraphIndex.Replay

/-!
# Numbers for ever

A table of terms only ever grows, and only by interning terms, whoever does it: directly, or a dataset that is
changed, is asked for blank nodes, or compiles rules.

* `Interner.IsNumbering`: the numbers from one on name terms one to one, in both directions, at every depth.
* `Interner.Becomes`: a table becomes another one by interning valid terms.
* `Compile.Interns`: steps of compilation let the table become another one; `compileRules_becomes`: so do all of them.
* `Dataset.Step.terms_becomes`, `Dataset.Reachable.terms_becomes`: one call on a dataset, and any number of them.
* `Interner.isNumbering_of_calls`: what holds of the table after any calls.
-/

namespace RdfDataset

namespace Interner

/-- The numbers from one to the size, and no others, are found and name terms; looking up a term and looking up its
number undo each other; a term that is known is not added again; and what stands in a term is known as well. -/
structure IsNumbering (i : Interner) : Prop where
  named : i.named = Set.Icc 1 i.size
  found : {n | ∃ id, i.findId? id = some n} = Set.Icc 1 i.size
  isValid : ∀ n t, i.resolve? n = some t → t.IsValid
  findId?_eq_some_iff : ∀ id n, i.findId? id = some n ↔ ∃ t, i.resolve? n = some t ∧ t.id = id
  find?_eq_some_iff : ∀ t, t.IsValid → ∀ n, i.find? t = some n ↔ i.resolve? n = some t
  resolve?_inj : ∀ m n t, i.resolve? m = some t → i.resolve? n = some t → m = n
  intern_of_find? : ∀ t n, i.find? t = some n → i.intern t = (n, i)
  exists_of_occursIn : ∀ n t u, i.resolve? n = some t → u.OccursIn t → ∃ m, i.resolve? m = some u

/-- Numbers that have been given to some terms name them for ever. -/
theorem Extends.map_resolve? {i j : Interner} (h : i.Extends j) {numbers : List Nat} {ts : List Term}
    (hnumbers : numbers.map i.resolve? = ts.map some) : numbers.map j.resolve? = ts.map some := by
  induction numbers generalizing ts with
  | nil => simpa using hnumbers
  | cons n numbers ih =>
    cases ts with
    | nil => cases hnumbers
    | cons t ts =>
      obtain ⟨hfirst, hrest⟩ := List.cons.inj hnumbers
      rw [List.map_cons, List.map_cons, h n t hfirst, ih hrest]

theorem resolve?_isSome_iff {i : Interner} {n : Nat} : (∃ t, i.resolve? n = some t) ↔ n ∈ Set.Icc 1 i.size := by
  rw [Set.mem_Icc]
  cases n with
  | zero => simp [resolve?]
  | succ n =>
    rw [resolve?, size, ← Option.isSome_iff_exists, isSome_getElem?]
    omega

theorem Valid.isNumbering {i : Interner} (hi : i.Valid) : i.IsNumbering where
  named := by
    ext n
    exact resolve?_isSome_iff
  found := by
    ext n
    rw [← resolve?_isSome_iff]
    constructor
    · rintro ⟨id, h⟩
      obtain ⟨t, ht, -⟩ := hi.findId?_eq_some_iff.1 h
      exact ⟨t, ht⟩
    · rintro ⟨t, ht⟩
      exact ⟨t.id, hi.findId?_eq_some_iff.2 ⟨t, ht, rfl⟩⟩
  isValid _ _ := hi.isValid
  findId?_eq_some_iff _ _ := hi.findId?_eq_some_iff
  find?_eq_some_iff _ ht _ := hi.find?_eq_some_iff ht
  resolve?_inj _ _ _ := hi.resolve?_inj
  intern_of_find? _ _ := Interner.intern_of_find?
  exists_of_occursIn n t _ ht hoccurs := hi.exists_of_occursIn hoccurs ⟨n, ht⟩

/-! ### Growing -/

/-- A table becomes another one when valid terms are interned one after the other. -/
def Becomes (i j : Interner) : Prop :=
  ∃ ts : List Term, (∀ t ∈ ts, t.IsValid) ∧ j = (runSteps intern i ts).2

namespace Becomes

variable {i j k : Interner}

theorem refl (i : Interner) : i.Becomes i :=
  ⟨[], by simp, rfl⟩

theorem of_eq (h : j = i) : i.Becomes j :=
  h ▸ refl i

theorem intern {t : Term} (ht : t.IsValid) : i.Becomes (i.intern t).2 :=
  ⟨[t], by simpa using ht, rfl⟩

theorem trans (hij : i.Becomes j) (hjk : j.Becomes k) : i.Becomes k := by
  obtain ⟨ts, hts, rfl⟩ := hij
  obtain ⟨us, hus, rfl⟩ := hjk
  refine ⟨ts ++ us, fun t ht => ?_, (runSteps_append_snd _ _ _ _).symm⟩
  exact (List.mem_append.1 ht).elim (hts t) (hus t)

end Becomes

theorem Sound.runSteps {i : Interner} (hi : i.Sound) (ts : List Term) : (runSteps Interner.intern i ts).2.Sound := by
  induction ts generalizing i with
  | nil => exact hi
  | cons t ts ih => exact ih (hi.intern t).1

/-- Interning valid terms keeps the table valid and all numbers, and gives each term a number of its own. -/
theorem Valid.runSteps {i : Interner} (hi : i.Valid) {ts : List Term} (hts : ∀ t ∈ ts, t.IsValid) :
    (runSteps Interner.intern i ts).2.Valid ∧ i.Extends (runSteps Interner.intern i ts).2 ∧
      (runSteps Interner.intern i ts).1.map (runSteps Interner.intern i ts).2.resolve? = ts.map some := by
  induction ts generalizing i with
  | nil => exact ⟨hi, .refl i, rfl⟩
  | cons t ts ih =>
    have ht := hts t List.mem_cons_self
    obtain ⟨hvalid, hkeeps, hnames⟩ := ih (hi.intern ht) fun u hu => hts u (List.mem_cons_of_mem t hu)
    refine ⟨hvalid, (hi.extends_intern ht).trans hkeeps, ?_⟩
    rw [RdfDataset.runSteps, List.map_cons, List.map_cons, hnames, hkeeps _ _ (hi.resolve?_intern ht)]

end Interner

/-! ### Compilation -/

namespace Compile

variable {α β : Type}

/-- A step of compilation changes the table of terms only by interning valid ones, whether it succeeds or fails. -/
def Interns (m : Compile α) : Prop :=
  ∀ s : Scope, s.terms.Becomes (m.run.run s).2.terms

theorem Interns.pure (a : α) : Interns (Pure.pure a) :=
  fun s => .refl s.terms

theorem Interns.throw (e : RuleError) : Interns (throw e : Compile α) :=
  fun s => .refl s.terms

theorem Interns.bind {m : Compile α} {f : α → Compile β} (hm : m.Interns) (hf : ∀ a, (f a).Interns) :
    (m >>= f).Interns := by
  intro s
  rw [run_bind]
  cases (m.run.run s).1 with
  | error e => exact hm s
  | ok a => exact (hm s).trans (hf a _)

theorem Interns.mapM {f : α → Compile β} {as : List α} (hf : ∀ a ∈ as, (f a).Interns) : (as.mapM f).Interns := by
  induction as with
  | nil =>
    rw [List.mapM_nil]
    exact .pure []
  | cons a as ih =>
    rw [List.mapM_cons]
    have hrest := ih fun b hb => hf b (List.mem_cons_of_mem a hb)
    exact (hf a List.mem_cons_self).bind fun b => hrest.bind fun bs => .pure (b :: bs)

theorem Interns.constant {t : Term} (ht : t.IsValid) : (Compile.constant t).Interns :=
  fun _ => .intern ht

theorem Interns.premiseSlot (rule : Nat) {t : Term} (ht : t.IsValid) : (Compile.premiseSlot rule t).Interns := by
  cases t with
  | var name =>
    intro s
    rw [Compile.premiseSlot, run_get_bind]
    cases s.names.idxOf? name with
    | some number => exact .refl _
    | none => exact .refl _
  | defaultGraph => exact .throw _
  | iri _ | blank _ | literal _ | quoted _ _ _ _ => exact .constant ht

theorem Interns.conclusionSlot (rule : Nat) {t : Term} (ht : t.IsValid) : (Compile.conclusionSlot rule t).Interns := by
  cases t with
  | var name =>
    intro s
    rw [Compile.conclusionSlot, run_get_bind]
    cases s.names.idxOf? name with
    | some number => exact .refl _
    | none => exact .refl _
  | defaultGraph => exact .throw _
  | iri _ | blank _ | literal _ | quoted _ _ _ _ => exact .constant ht

theorem Interns.atom {slot : Term → Compile Slot} {pattern : TriplePattern}
    (hslot : ∀ t ∈ pattern.toList, (slot t).Interns) : (Compile.atom slot pattern).Interns := by
  simp only [Triple.toList, List.forall_mem_cons] at hslot
  exact hslot.1.bind fun s => hslot.2.1.bind fun p => hslot.2.2.1.bind fun o =>
    Interns.pure (⟨s, p, o⟩ : Atom)

theorem Interns.compile (number : Nat) {rule : Rule} (hrule : rule.IsValid) : (rule.compile number).Interns := by
  have hpremise : (rule.premise.mapM (Compile.atom (Compile.premiseSlot number))).Interns :=
    .mapM fun pattern hpattern => .atom fun t ht =>
      .premiseSlot number (hrule pattern (List.mem_append_left _ hpattern) t ht)
  have hconclusion : (rule.conclusion.mapM (Compile.atom (Compile.conclusionSlot number))).Interns :=
    .mapM fun pattern hpattern => .atom fun t ht =>
      .conclusionSlot number (hrule pattern (List.mem_append_right _ hpattern) t ht)
  have hreset : Interns (modify fun scope => { scope with names := [] }) := fun s => .refl s.terms
  have hget : Interns (α := Scope) get := fun s => .refl s.terms
  unfold Rule.compile
  by_cases hempty : rule.premise.isEmpty = true
  · rw [if_pos hempty]
    exact fun s => .refl s.terms
  · rw [if_neg hempty]
    exact hreset.bind fun _ => hpremise.bind fun premise => hconclusion.bind fun conclusion =>
      hget.bind fun scope => .pure _

end Compile

/-- Compiling rules changes the table of terms only by interning valid ones, also when it fails. -/
theorem compileRules_becomes {rules : List Rule} (hrules : ∀ rule ∈ rules, rule.IsValid) (terms : Interner) :
    terms.Becomes (compileRules rules terms).2 := by
  have hall : Compile.Interns (rules.zipIdx.mapM fun x : Rule × Nat => x.1.compile x.2) :=
    .mapM fun x hx => .compile x.2 (hrules x.1 (List.fst_mem_of_mem_zipIdx hx))
  exact hall { names := [], terms }

/-! ### Calls on a dataset -/

section

variable [Arrangement]

namespace Dataset

open Interner (Becomes)

theorem becomes_insert (d : Dataset) {q : Quad} (hq : q.IsValid) : d.terms.Becomes (d.insert q).2.terms := by
  obtain ⟨hs, hp, ho, hg⟩ := Quad.isValid_iff.1 hq
  have hterms : (d.insert q).2.terms =
      ((((d.terms.intern q.graph).2.intern q.subject).2.intern q.predicate).2.intern q.object).2 := by
    simp only [Dataset.insert]
  rw [hterms]
  exact (((Becomes.intern hg).trans (.intern hs)).trans (.intern hp)).trans (.intern ho)

theorem becomes_insertMany (d : Dataset) {quads : List Quad} (hquads : ∀ q ∈ quads, q.IsValid) :
    d.terms.Becomes (d.insertMany quads).2.terms := by
  rw [Dataset.insertMany, ← countSteps_eq_foldl]
  generalize 0 = n
  induction quads generalizing d n with
  | nil => exact .refl d.terms
  | cons q quads ih =>
    have hfirst := d.becomes_insert (hquads q List.mem_cons_self)
    exact hfirst.trans (ih (d.insert q).2 (fun r hr => hquads r (List.mem_cons_of_mem q hr)) _)

theorem becomes_freshBlank (d : Dataset) (suggestion : Option String) :
    d.terms.Becomes (d.freshBlank suggestion).2.terms := by
  obtain ⟨next, ⟨e, h⟩ | ⟨label, hlabel, h⟩⟩ := d.freshBlank_cases suggestion
  · rw [h]
    exact .refl d.terms
  · rw [h]
    exact .intern (Term.isValid_blank.2 hlabel)

/-- An update interns the terms that are put in, and the removals among them leave all terms in the table. -/
theorem Valid.becomes_update {d : Dataset} (hd : d.Valid) {u : Update} (hu : u.IsValid) :
    d.terms.Becomes (u.run d).2.terms := by
  cases u <;> dsimp only [Update.run]
  case insert q => exact d.becomes_insert hu
  case insertMany quads => exact d.becomes_insertMany hu
  case extend quads => exact d.becomes_insertMany hu
  case erase q => exact .of_eq (hd.erase hu).2.1
  case eraseMany quads => exact .of_eq (hd.eraseMany hu).2.1
  case eraseMatching pattern => exact .of_eq (hd.eraseMatching hu).2.1
  case eraseGraph graph =>
    have hpattern : ({ graph := some graph } : Pattern).IsValid :=
      ⟨by simp, by simp, by simp, fun t ht => Option.some.inj ht ▸ hu⟩
    exact .of_eq (hd.eraseMatching hpattern).2.1
  case freshBlank suggestion => exact d.becomes_freshBlank suggestion
  case resetBlankCounter => exact .refl d.terms

/-- One call on a dataset changes its table of terms only by interning valid ones. -/
theorem Step.terms_becomes {d d' : Dataset} (h : Step d d') (hd : d.Reachable) : d.terms.Becomes d'.terms := by
  cases h with
  | update hu => exact hd.valid.becomes_update hu
  | size =>
    unfold Dataset.size
    split <;> exact .refl d.terms
  | extractLists options => exact .of_eq (hd.valid.extractLists options).2.1
  | load format text base =>
    obtain ⟨e, -, h⟩ | ⟨quads, hread, h⟩ := d.load_cases format text base
    · rw [h]
      exact .refl d.terms
    · rw [h]
      exact d.becomes_insertMany (Format.isValid_of_read hread)
  | reason hrules | reasonIn hrules graph =>
    have hterms := compileRules_becomes hrules d.terms
    rwa [← (hd.sound.reasonOver _ _).2] at hterms

/-- So do any calls. -/
theorem Reachable.terms_becomes {d d' : Dataset} (hd : d.Reachable) (h : d.Reaches d') :
    d.terms.Becomes d'.terms := by
  induction h with
  | refl => exact .refl d.terms
  | tail hreaches hstep ih => exact ih.trans (hstep.terms_becomes (hd.evolves hreaches).2)

/-- The table of a dataset comes about from an empty one. -/
theorem Reachable.becomes_terms {d : Dataset} (hd : d.Reachable) : Interner.Becomes {} d.terms := by
  induction hd with
  | init h =>
    obtain ⟨_, -, h⟩ := bind_eq_ok.1 h
    rw [← pure_eq_ok.1 h]
    exact .refl _
  | step hd hstep ih => exact ih.trans (hstep.terms_becomes hd)

end Dataset

/-- Interning any valid terms in an empty table numbers them, and all that stands in them, from one on without gaps;
the numbers that are given out name the terms for which they were given, now and after anything is interned later.
The same holds of the table of a dataset, which comes about in this way whatever is done with the dataset. -/
theorem Interner.isNumbering_of_calls :
    (∀ ts us : List Term, (∀ t ∈ ts ++ us, t.IsValid) →
      let i := (runSteps intern {} ts).2
      let j := (runSteps intern i us).2
      i.IsNumbering ∧ i.Extends j ∧ (runSteps intern {} ts).1.map i.resolve? = ts.map some ∧
        (runSteps intern {} ts).1.map j.resolve? = ts.map some) ∧
    ∀ d : Dataset, d.Reachable → d.terms.IsNumbering ∧ Becomes {} d.terms ∧
      ∀ d', d.Reaches d' → d.terms.Becomes d'.terms ∧ d.terms.Extends d'.terms := by
  refine ⟨?_, fun d hd => ?_⟩
  · intro ts us hall i j
    have hts : ∀ t ∈ ts, t.IsValid := fun t ht => hall t (List.mem_append_left us ht)
    have hus : ∀ t ∈ us, t.IsValid := fun t ht => hall t (List.mem_append_right ts ht)
    obtain ⟨hvalid, -, hnames⟩ := valid_empty.runSteps hts
    obtain ⟨-, hkeeps, -⟩ := hvalid.runSteps hus
    exact ⟨hvalid.isNumbering, hkeeps, hnames, hkeeps.map_resolve? hnames⟩
  · exact ⟨hd.valid.terms.isNumbering, hd.becomes_terms,
      fun d' hreaches => ⟨hd.terms_becomes hreaches, (hd.evolves hreaches).1.keeps⟩⟩

end

/-- The terms inside a quoted quad have numbers, and keep them when the quad is taken out of a dataset. -/
theorem Interner.isNumbering_of_calls_quoted :
    let t : Term := .quoted (.blank "n") (.iri "a:p") (.blank "n") .defaultGraph
    let q : Quad := ⟨t, .iri "a:p", .blank "n", .defaultGraph⟩
    let r := runSteps intern {} [t, .blank "n"]
    let d := Dataset.ofList [q]
    (r.2.IsNumbering ∧ (∃ n, r.2.resolve? n = some (.iri "a:p")) ∧
      r.1.map (runSteps intern r.2 [.iri "a:g"]).2.resolve? = [some t, some (.blank "n")]) ∧
    d.terms.IsNumbering ∧ d.terms.Extends (d.erase q).2.terms := by
  have hblank : (Term.blank "n").IsValid := Term.isValid_blank.2 (by decide)
  have hpredicate : (Term.iri "a:p").IsValid := Term.isValid_iri.2 (by decide)
  have hgraph : (Term.iri "a:g").IsValid := Term.isValid_iri.2 (by decide)
  intro t q r d
  have ht : t.IsValid := Term.isValid_quoted.2 ⟨hblank, hpredicate, hblank, .defaultGraph⟩
  have hq : q.IsValid := Quad.isValid_iff.2 ⟨ht, hpredicate, hblank, .defaultGraph⟩
  have hall : ∀ u ∈ [t, .blank "n"] ++ [.iri "a:g"], u.IsValid := by simp [ht, hblank, hgraph]
  have herase : Dataset.Step d (d.erase q).2 := by
    have hstep := Dataset.Step.update d (u := .erase q) hq
    dsimp only [Update.run] at hstep
    exact hstep
  obtain ⟨hterms, hdatasets⟩ := isNumbering_of_calls
  obtain ⟨hnumbering, -, hnow, hlater⟩ := hterms [t, .blank "n"] [.iri "a:g"] hall
  obtain ⟨htable, -, hcalls⟩ := hdatasets d (.ofList (by simpa using hq))
  refine ⟨⟨hnumbering, ?_, hlater⟩, htable, (hcalls _ (.single herase)).2⟩
  obtain ⟨hfirst, -⟩ := List.cons.inj hnow
  exact hnumbering.exists_of_occursIn _ t _ hfirst (.inr (.inr (.inl rfl)))

end RdfDataset
