import RdfDataset.Proofs.Reasoning.Join
import RdfDataset.Proofs.Rule.Constants

/-!
# Usable rules

Compiling a rule finds the first thing that is wrong with it, reading from left to right, or turns each of its terms
into a slot.  Both are said here of any rules, whatever terms they have.

* `Rule.IsUsable`: the rules that can be compiled; `Rule.faults`: all that is wrong with a rule, in the order of reading.
* `CompiledRule.Transcribes`: a compiled rule has a slot for each term of a rule.
* `Compile.Meets`: a step of compilation fails with a given fault or gives what is expected.
* `firstFault`: the first fault of some rules; `firstFault_eq_some` and `firstFault_eq_none` say where it is.
* `compileRules_cases`: rules are compiled, or the first fault is reported; from it `compileRules_eq_error_iff`,
  `exists_compileRules_iff` and `transcribes_of_compileRules`.
-/

namespace RdfDataset

/-- The terms in the positions of some patterns, from left to right. -/
def positions (patterns : List TriplePattern) : List Term :=
  patterns.flatMap Triple.toList

theorem positions_append (patterns patterns' : List TriplePattern) :
    positions (patterns ++ patterns') = positions patterns ++ positions patterns' :=
  List.flatMap_append

/-! ### What is wrong with a rule -/

/-- A rule has a premise, does not mention the default graph, and concludes with variables of the premise only. -/
structure Rule.IsUsable (rule : Rule) : Prop where
  nonempty : rule.premise ≠ []
  premise : .defaultGraph ∉ positions rule.premise
  conclusion : .defaultGraph ∉ positions rule.conclusion
  bound : ∀ name, .var name ∈ positions rule.conclusion → .var name ∈ positions rule.premise

/-- What is wrong with a term in the premise of a rule with a given number. -/
def premiseFault (number : Nat) : Term → Option RuleError
  | .defaultGraph => some (.defaultGraph number)
  | _ => none

/-- What is wrong with a term in the conclusion, if the premise has certain terms. -/
def conclusionFault (number : Nat) (premise : List Term) : Term → Option RuleError
  | .defaultGraph => some (.defaultGraph number)
  | .var name => if .var name ∈ premise then none else some (.unboundVariable number name)
  | _ => none

/-- All that is wrong with a rule: an empty premise, then what is wrong in the premise and in the conclusion, from left
to right. -/
def Rule.faults (number : Nat) (rule : Rule) : List RuleError :=
  (if rule.premise = [] then [.emptyPremise number] else []) ++
    ((positions rule.premise).filterMap (premiseFault number) ++
      (positions rule.conclusion).filterMap (conclusionFault number (positions rule.premise)))

theorem premiseFault_eq_none {number : Nat} {t : Term} : premiseFault number t = none ↔ t ≠ .defaultGraph := by
  cases t <;> simp [premiseFault]

theorem conclusionFault_eq_none {number : Nat} {premise : List Term} {t : Term} :
    conclusionFault number premise t = none ↔ t ≠ .defaultGraph ∧ ∀ name, t = .var name → .var name ∈ premise := by
  cases t <;> simp [conclusionFault]

/-- Nothing is wrong with the rules that are usable. -/
theorem Rule.faults_eq_nil_iff {rule : Rule} {number : Nat} : rule.faults number = [] ↔ rule.IsUsable := by
  have hempty : (if rule.premise = [] then [RuleError.emptyPremise number] else []) = [] ↔ rule.premise ≠ [] := by
    split <;> simp [*]
  rw [faults, List.append_eq_nil_iff, List.append_eq_nil_iff, hempty, List.filterMap_eq_nil_iff,
    List.filterMap_eq_nil_iff]
  simp only [premiseFault_eq_none, conclusionFault_eq_none]
  constructor
  · rintro ⟨hnonempty, hpremise, hconclusion⟩
    exact ⟨hnonempty, fun h => hpremise _ h rfl, fun h => (hconclusion _ h).1 rfl,
      fun name h => (hconclusion _ h).2 name rfl⟩
  · intro h
    refine ⟨h.nonempty, fun t ht heq => h.premise (heq ▸ ht), fun t ht => ⟨fun heq => h.conclusion (heq ▸ ht), ?_⟩⟩
    rintro name rfl
    exact h.bound name ht

/-- A variable that the premise has is no fault; both faults are found in the order of reading. -/
example : Rule.faults 1 ⟨[⟨.var "x", .iri "a:p", .var "y"⟩], [⟨.var "y", .var "z", .defaultGraph⟩]⟩ =
    [.unboundVariable 1 "z", .defaultGraph 1] := by
  decide

/-- The first fault of the first rule that has one. -/
def firstFault (start : Nat) (rules : List Rule) : Option RuleError :=
  (rules.zipIdx start).findSome? fun x => (x.1.faults x.2).head?

/-- There is no fault if all rules are usable. -/
theorem firstFault_eq_none (start : Nat) {rules : List Rule} :
    firstFault start rules = none ↔ ∀ rule ∈ rules, rule.IsUsable := by
  rw [firstFault, List.findSome?_eq_none_iff]
  simp only [List.head?_eq_none_iff, Rule.faults_eq_nil_iff, Prod.forall]
  constructor
  · intro h rule hrule
    obtain ⟨place, hplace, rfl⟩ := List.getElem_of_mem hrule
    exact h _ _ (List.mk_mem_zipIdx_iff_le_and_getElem?_sub.2 ⟨Nat.le_add_right start place, by simp [hplace]⟩)
  · intro h rule place hplace
    exact h rule (List.fst_mem_of_mem_zipIdx hplace)

/-- The first fault is that of the first rule that cannot be used. -/
theorem firstFault_eq_some {start : Nat} {rules : List Rule} {e : RuleError} :
    firstFault start rules = some e ↔ ∃ before rule after, rules = before ++ rule :: after ∧
      (∀ other ∈ before, other.IsUsable) ∧ (rule.faults (start + before.length)).head? = some e := by
  rw [firstFault, List.findSome?_eq_some_iff]
  constructor
  · rintro ⟨_, _, _, hzip, hfault, hbefore⟩
    obtain ⟨before, rest, rfl, rfl, hrest⟩ := List.zipIdx_eq_append_iff.1 hzip
    obtain ⟨rule, after, rfl, rfl, -⟩ := List.zipIdx_eq_cons_iff.1 hrest.symm
    exact ⟨before, rule, after, rfl, (firstFault_eq_none start).1 (List.findSome?_eq_none_iff.2 hbefore), hfault⟩
  · rintro ⟨before, rule, after, rfl, hbefore, hfault⟩
    refine ⟨before.zipIdx start, (rule, start + before.length), after.zipIdx (start + before.length + 1), ?_, hfault,
      List.findSome?_eq_none_iff.1 ((firstFault_eq_none start).2 hbefore)⟩
    rw [List.zipIdx_append, List.zipIdx_cons]

/-! ### Slots of terms -/

/-- The first interner finds no number that the second does not find for the same term. -/
def Interner.Keeps (i j : Interner) : Prop :=
  ∀ t n, i.find? t = some n → j.find? t = some n

theorem Interner.Keeps.trans {i j k : Interner} (hij : i.Keeps j) (hjk : j.Keeps k) : i.Keeps k :=
  fun t n h => hjk t n (hij t n h)

theorem Interner.Sound.keeps {i j : Interner} (hi : i.Sound) (hj : j.Sound) (h : i.Extends j) : i.Keeps j := by
  intro t n hn
  obtain ⟨u, hu, hid⟩ := (hi _ _).1 hn
  exact (hj _ _).2 ⟨u, h n u hu, hid⟩

/-- A term that has no number is put at the end of the table, after its components. -/
theorem Interner.exists_intern_eq_push {i : Interner} {t : Term} (hnew : i.find? t = none) :
    ∃ j : Interner, i.intern t = j.push t := by
  cases t with
  | quoted s p o g =>
    refine ⟨((((i.intern s).2.intern p).2.intern o).2.intern g).2, ?_⟩
    rw [intern, hnew]
  | iri _ | blank _ | literal _ | var _ | defaultGraph =>
    refine ⟨i, ?_⟩
    rw [intern, hnew]
    simp

/-- The number that a term gets is found for it, also when other terms have its id. -/
theorem Interner.find?_intern (i : Interner) (t : Term) : (i.intern t).2.find? t = some (i.intern t).1 := by
  cases hfind : i.find? t with
  | some n => rw [intern_of_find? hfind, hfind]
  | none =>
    obtain ⟨j, hj⟩ := exists_intern_eq_push hfind
    rw [hj, find?, findId?_push, if_pos rfl]
    rfl

/-- The slot of a term: the number of a variable among some names, or the number that is found for a constant. -/
def Term.slot? (names : List String) (terms : Interner) : Term → Option Slot
  | .var name => (names.idxOf? name).map .var
  | t => (terms.find? t).map .const

theorem Term.slot?_of_isVar {t : Term} (hvar : t.isVar = false) (names : List String) (terms : Interner) :
    t.slot? names terms = (terms.find? t).map .const := by
  cases t with
  | var name => cases hvar
  | _ => rfl

/-- A slot stays the same when more names and terms come. -/
theorem Term.slot?_mono {names names' : List String} (hnames : names <+: names') {terms terms' : Interner}
    (hterms : terms.Keeps terms') {t : Term} {slot : Slot} (h : t.slot? names terms = some slot) :
    t.slot? names' terms' = some slot := by
  obtain ⟨new, rfl⟩ := hnames
  have hconst : ∀ {t : Term}, t.isVar = false → t.slot? names terms = some slot →
      t.slot? (names ++ new) terms' = some slot := by
    intro t hvar h
    rw [slot?_of_isVar hvar, Option.map_eq_some_iff] at h ⊢
    obtain ⟨n, hn, rfl⟩ := h
    exact ⟨n, hterms t n hn, rfl⟩
  cases t with
  | var name =>
    rw [slot?, Option.map_eq_some_iff] at h ⊢
    obtain ⟨number, hnumber, rfl⟩ := h
    exact ⟨number, idxOf?_append hnumber, rfl⟩
  | iri _ | blank _ | literal _ | defaultGraph | quoted _ _ _ _ => exact hconst rfl h

/-- The slots of the three terms of a pattern. -/
def TriplePattern.Transcribed (names : List String) (terms : Interner) (pattern : TriplePattern) (atom : Atom) : Prop :=
  pattern.map (Term.slot? names terms) = atom.map some

theorem TriplePattern.Transcribed.mono {names names' : List String} (hnames : names <+: names')
    {terms terms' : Interner} (hterms : terms.Keeps terms') {pattern : TriplePattern} {atom : Atom}
    (h : TriplePattern.Transcribed names terms pattern atom) :
    TriplePattern.Transcribed names' terms' pattern atom := by
  simp only [Transcribed, Triple.map, Triple.mk.injEq] at h ⊢
  exact ⟨Term.slot?_mono hnames hterms h.1, Term.slot?_mono hnames hterms h.2.1, Term.slot?_mono hnames hterms h.2.2⟩

/-- Some names are those of the variables among some terms, each once. -/
structure Names (ts : List Term) (names : List String) : Prop where
  nodup : names.Nodup
  mem_iff : ∀ name, name ∈ names ↔ .var name ∈ ts

/-- A term brings no name if it is a constant or its name is there already. -/
theorem Names.append {ts : List Term} {names : List String} (h : Names ts names) {t : Term}
    (ht : ∀ name, t = .var name → name ∈ names) : Names (ts ++ [t]) names where
  nodup := h.nodup
  mem_iff name := by
    rw [List.mem_append, List.mem_singleton, ← h.mem_iff]
    exact ⟨.inl, fun hmem => hmem.elim id fun heq => ht name heq.symm⟩

/-- A new variable brings its name. -/
theorem Names.append_var {ts : List Term} {names : List String} (h : Names ts names) {name : String}
    (hname : name ∉ names) : Names (ts ++ [.var name]) (names ++ [name]) where
  nodup := h.nodup.append (List.nodup_singleton name) (List.disjoint_singleton.2 hname)
  mem_iff other := by
    rw [List.mem_append, List.mem_append, h.mem_iff, List.mem_singleton, List.mem_singleton, Term.var.injEq]

theorem Term.slot?_eq_var {names : List String} {terms : Interner} {t : Term} {number : Nat} :
    t.slot? names terms = some (.var number) ↔ ∃ name, t = .var name ∧ names.idxOf? name = some number := by
  cases t <;> simp [slot?]

/-- The slots of two terms have the same number of a variable if the terms are the same variable. -/
theorem Term.exists_var_iff_of_slot? {names : List String} {terms : Interner} {t u : Term} {slot slot' : Slot}
    (ht : t.slot? names terms = some slot) (hu : u.slot? names terms = some slot') :
    (∃ number, slot = .var number ∧ slot' = .var number) ↔ ∃ name, t = .var name ∧ u = .var name := by
  constructor
  · rintro ⟨number, rfl, rfl⟩
    obtain ⟨name, rfl, hname⟩ := slot?_eq_var.1 ht
    obtain ⟨name', rfl, hname'⟩ := slot?_eq_var.1 hu
    obtain ⟨_, hget, -⟩ := List.idxOf?_eq_some_iff.1 hname
    obtain ⟨_, hget', -⟩ := List.idxOf?_eq_some_iff.1 hname'
    exact ⟨name, rfl, congrArg Term.var (hget'.symm.trans hget)⟩
  · rintro ⟨name, rfl, rfl⟩
    obtain ⟨number, -, hslot⟩ := Option.map_eq_some_iff.1 ht
    exact ⟨number, hslot.symm, Option.some.inj (hu.symm.trans ht) ▸ hslot.symm⟩

/-- Each number below the count of the names is that of a variable among the terms. -/
theorem Names.exists_slot? {ts : List Term} {names : List String} (h : Names ts names) (terms : Interner) {number : Nat}
    (hlt : number < names.length) : ∃ t ∈ ts, t.slot? names terms = some (.var number) := by
  refine ⟨.var names[number], (h.mem_iff _).1 (List.getElem_mem hlt), Term.slot?_eq_var.2 ⟨_, rfl, ?_⟩⟩
  -- the name at this place is at no place before it
  refine List.idxOf?_eq_some_iff.2 ⟨hlt, rfl, fun place hplace heq => ?_⟩
  exact hplace.ne (h.nodup.getElem_inj_iff.1 heq)

/-! ### Compiled rules -/

/-- A compiled rule has in each position the slot of the term that the rule has there.  Two positions have the same
number of a variable if they have the same variable, these numbers are those below their count, and the premise has all of
them.  The number of a constant is found for it. -/
structure CompiledRule.Transcribes (c : CompiledRule) (rule : Rule) (terms : Interner) (slot : Term → Slot) :
    Prop where
  premise : c.premise = rule.premise.map (Triple.map slot)
  conclusion : c.conclusion.map Conclusion.atom = rule.conclusion.map (Triple.map slot)
  same : ∀ t ∈ positions (rule.premise ++ rule.conclusion), ∀ u ∈ positions (rule.premise ++ rule.conclusion),
    (∃ number, slot t = .var number ∧ slot u = .var number) ↔ ∃ name, t = .var name ∧ u = .var name
  below : ∀ t ∈ positions (rule.premise ++ rule.conclusion), ∀ number, slot t = .var number → number < c.variableCount
  numbers : ∀ number < c.variableCount, ∃ t ∈ positions rule.premise, slot t = .var number
  constant : ∀ t ∈ positions (rule.premise ++ rule.conclusion), t.isVar = false →
    ∃ id, slot t = .const id ∧ terms.find? t = some id

/-- The slots of some terms, when all have one. -/
private theorem slots_of_transcribed {names : List String} {terms : Interner} {patterns : List TriplePattern}
    {atoms : List Atom} (slot : Term → Slot) (hslot : ∀ t, slot t = (t.slot? names terms).getD default)
    (h : List.Forall₂ (TriplePattern.Transcribed names terms) patterns atoms) :
    atoms = patterns.map (Triple.map slot) ∧ ∀ t ∈ positions patterns, t.slot? names terms = some (slot t) := by
  induction h with
  | nil => simp [positions]
  | @cons pattern atom patterns atoms hfirst _ ih =>
    obtain ⟨hatoms, hsome⟩ := ih
    simp only [TriplePattern.Transcribed, Triple.map, Triple.mk.injEq] at hfirst
    obtain ⟨hs, hp, ho⟩ := hfirst
    have hatom : atom = pattern.map slot := by
      ext1 <;> simp only [Triple.map, hslot, hs, hp, ho, Option.getD_some]
    refine ⟨by rw [List.map_cons, ← hatoms, ← hatom], fun t ht => ?_⟩
    rw [positions, List.flatMap_cons, List.mem_append] at ht
    rcases ht with ht | ht
    · simp only [Triple.toList, List.mem_cons, List.not_mem_nil, or_false] at ht
      rcases ht with rfl | rfl | rfl <;> simp only [hslot, hs, hp, ho, Option.getD_some]
    · exact hsome t ht

/-- The slots of a rule, when the names are those of the variables in its premise. -/
private theorem transcribes_of_transcribed {rule : Rule} {names : List String} {terms : Interner}
    {premise conclusion : List Atom} (hnames : Names (positions rule.premise) names)
    (hpremise : List.Forall₂ (TriplePattern.Transcribed names terms) rule.premise premise)
    (hconclusion : List.Forall₂ (TriplePattern.Transcribed names terms) rule.conclusion conclusion) :
    ∃ slot, CompiledRule.Transcribes ⟨premise, conclusion.map (⟨·, []⟩), names.length⟩ rule terms slot := by
  let slot : Term → Slot := fun t => (t.slot? names terms).getD default
  obtain ⟨hpremise', hsome⟩ := slots_of_transcribed slot (fun _ => rfl) hpremise
  obtain ⟨hconclusion', hsome'⟩ := slots_of_transcribed slot (fun _ => rfl) hconclusion
  have hall : ∀ t ∈ positions (rule.premise ++ rule.conclusion), t.slot? names terms = some (slot t) := by
    rw [positions_append]
    exact fun t ht => (List.mem_append.1 ht).elim (hsome t) (hsome' t)
  refine ⟨slot, hpremise', ?_, fun t ht u hu => Term.exists_var_iff_of_slot? (hall t ht) (hall u hu),
    fun t ht number hnumber => ?_, fun number hlt => ?_, fun t ht hvar => ?_⟩
  · rw [List.map_map, ← hconclusion']
    exact List.map_id conclusion
  · have ht := hall t ht
    rw [hnumber, Term.slot?_eq_var] at ht
    obtain ⟨name, -, hname⟩ := ht
    exact (List.idxOf?_eq_some_iff.1 hname).1
  · obtain ⟨t, ht, hslot⟩ := hnames.exists_slot? terms hlt
    exact ⟨t, ht, Option.some.inj ((hsome t ht).symm.trans hslot)⟩
  · have ht := hall t ht
    rw [Term.slot?_of_isVar hvar, Option.map_eq_some_iff] at ht
    obtain ⟨id, hid, hslot⟩ := ht
    exact ⟨id, hslot.symm, hid⟩

namespace CompiledRule.Transcribes

variable {c : CompiledRule} {rule : Rule} {terms terms' : Interner} {slot : Term → Slot}

theorem mono (hterms : terms.Keeps terms') (h : c.Transcribes rule terms slot) : c.Transcribes rule terms' slot where
  premise := h.premise
  conclusion := h.conclusion
  same := h.same
  below := h.below
  numbers := h.numbers
  constant t ht hvar := by
    obtain ⟨id, hslot, hid⟩ := h.constant t ht hvar
    exact ⟨id, hslot, hterms t id hid⟩

/-- The number of a constant resolves to a term with the same id. -/
theorem exists_resolve? (h : c.Transcribes rule terms slot) (hterms : terms.Sound) {t : Term}
    (ht : t ∈ positions (rule.premise ++ rule.conclusion)) (hvar : t.isVar = false) :
    ∃ id u, slot t = .const id ∧ terms.resolve? id = some u ∧ u.id = t.id := by
  obtain ⟨id, hslot, hid⟩ := h.constant t ht hvar
  obtain ⟨u, hu, hsame⟩ := (hterms _ _).1 hid
  exact ⟨id, u, hslot, hu, hsame⟩

/-- The slots of an atom are those of the terms of a pattern. -/
private theorem exists_term {patterns : List TriplePattern} {atom : Atom} (hatom : atom ∈ patterns.map (Triple.map slot))
    {x : Slot} (hx : x ∈ atom.toList) : ∃ t ∈ positions patterns, slot t = x := by
  obtain ⟨pattern, hpattern, rfl⟩ := List.mem_map.1 hatom
  have hmap : (pattern.map slot).toList = pattern.toList.map slot := rfl
  rw [hmap, List.mem_map] at hx
  obtain ⟨t, ht, rfl⟩ := hx
  exact ⟨t, List.mem_flatMap.2 ⟨pattern, hpattern, ht⟩, rfl⟩

/-- The slots of a term in a premise stand in an atom. -/
private theorem exists_atom (h : c.Transcribes rule terms slot) {t : Term} (ht : t ∈ positions rule.premise) :
    ∃ atom ∈ c.premise, slot t ∈ atom.toList := by
  obtain ⟨pattern, hpattern, ht⟩ := List.mem_flatMap.1 ht
  refine ⟨pattern.map slot, ?_, List.mem_map_of_mem (f := slot) ht⟩
  rw [h.premise]
  exact List.mem_map_of_mem hpattern

theorem inScope (h : c.Transcribes rule terms slot) :
    ∀ atom ∈ c.premise ++ c.conclusion.map Conclusion.atom, InScope c.variableCount atom := by
  rw [h.premise, h.conclusion, ← List.map_append]
  intro atom hatom number hnumber
  obtain ⟨t, ht, hslot⟩ := exists_term hatom hnumber
  exact h.below t ht number hslot

theorem wellScoped (h : c.Transcribes rule terms slot) : c.WellScoped where
  premise atom hatom := h.inScope atom (List.mem_append_left _ hatom)
  conclusion := by
    intro k hk number hnumber
    have hlt := h.inScope k.atom (List.mem_append_right _ (List.mem_map_of_mem hk)) number hnumber
    obtain ⟨t, ht, hslot⟩ := h.numbers number hlt
    obtain ⟨atom, hatom, hmem⟩ := h.exists_atom ht
    exact ⟨atom, hatom, hslot ▸ hmem⟩

end CompiledRule.Transcribes

/-- All variables of a rule have places in its environment, and every match of its premise binds those of its conclusions.
A link leads to a premise of the rules that are compiled. -/
structure CompiledRule.IsSafe (c : CompiledRule) (compiled : List CompiledRule) : Prop where
  inScope : ∀ atom ∈ c.premise ++ c.conclusion.map Conclusion.atom, InScope c.variableCount atom
  bound : ∀ env : Env, (∀ atom ∈ c.premise, ∃ fact, env.instantiate atom = some fact) →
    ∀ k ∈ c.conclusion, ∃ fact, env.instantiate k.atom = some fact
  links : ∀ k ∈ c.conclusion, ∀ link ∈ k.links, ∃ target, compiled[link.rule]? = some target ∧
    (link.base :: link.others).Perm target.premise

theorem CompiledRule.Transcribes.isSafe {c : CompiledRule} {rule : Rule} {terms : Interner} {slot : Term → Slot}
    (h : c.Transcribes rule terms slot) {compiled : List CompiledRule} (hlinked : Linked compiled) (hc : c ∈ compiled) :
    c.IsSafe compiled where
  inScope := h.inScope
  bound := by
    intro env hpremise k hk
    refine ⟨_, Env.instantiate_of_known fun number hnumber => ?_⟩
    obtain ⟨atom, hatom, hmem⟩ := h.wellScoped.conclusion k hk number hnumber
    obtain ⟨fact, hfact⟩ := hpremise atom hatom
    exact Env.exists_value_of_instantiate hfact hmem
  links := by
    intro k hk link hlink
    rw [hlinked.links c hc k hk, mem_linksOf] at hlink
    obtain ⟨premise, position, hpremise, hbase, hothers, -⟩ := hlink
    rw [List.getElem?_map, Option.map_eq_some_iff] at hpremise
    obtain ⟨target, htarget, rfl⟩ := hpremise
    obtain ⟨hlt, hget⟩ := List.getElem?_eq_some_iff.1 hbase
    refine ⟨target, htarget, ?_⟩
    rw [hothers, ← hget]
    exact List.getElem_cons_eraseIdx_perm hlt

/-! ### Steps of compilation -/

namespace Compile

variable {α β : Type}

/-- From a scope with names of which a condition holds, a step of compilation fails with the given fault.  If there is
none, it gives a result, and another condition holds of the scope before it, the result and the scope after it.  Either
way all terms keep their numbers. -/
def Meets (m : Compile α) (P : List String → Prop) (fault : Option RuleError) (Q : Scope → α → Scope → Prop) : Prop :=
  ∀ s : Scope, s.terms.Sound → P s.names →
    (m.run.run s).2.terms.Sound ∧ s.terms.Keeps (m.run.run s).2.terms ∧
      match fault with
      | some e => (m.run.run s).1 = .error e
      | none => ∃ a, (m.run.run s).1 = .ok a ∧ Q s a (m.run.run s).2

variable {m : Compile α} {P S : List String → Prop} {fault fault' : Option RuleError} {Q Q' : Scope → α → Scope → Prop}

theorem Meets.weaken (hm : m.Meets P fault Q) (h : ∀ s a s', P s.names → Q s a s' → Q' s a s') : m.Meets P fault Q' := by
  intro s hs hP
  obtain ⟨hsound, hkeeps, hresult⟩ := hm s hs hP
  refine ⟨hsound, hkeeps, ?_⟩
  cases fault with
  | some e => exact hresult
  | none =>
    obtain ⟨a, ha, hQ⟩ := hresult
    exact ⟨a, ha, h s a _ hP hQ⟩

theorem Meets.pure (a : α) : Meets (Pure.pure a) P none fun s b s' => s' = s ∧ b = a :=
  fun _ hs _ => ⟨hs, fun _ _ h => h, a, rfl, rfl, rfl⟩

theorem Meets.throw (e : RuleError) : Meets (throw e : Compile α) P (some e) Q :=
  fun _ hs _ => ⟨hs, fun _ _ h => h, rfl⟩

/-- Of two steps the first fault is reported. -/
theorem Meets.bind {f : α → Compile β} {R : α → Scope → β → Scope → Prop} (hm : m.Meets P fault Q)
    (hnames : ∀ s a s', P s.names → Q s a s' → S s'.names) (hf : ∀ a, (f a).Meets S fault' (R a)) :
    (m >>= f).Meets P (fault.or fault') fun s b s' => ∃ a t, t.terms.Keeps s'.terms ∧ Q s a t ∧ R a t b s' := by
  intro s hs hP
  obtain ⟨hsound, hkeeps, hresult⟩ := hm s hs hP
  rw [run_bind]
  cases fault with
  | some e =>
    rw [hresult]
    exact ⟨hsound, hkeeps, rfl⟩
  | none =>
    obtain ⟨a, ha, hQ⟩ := hresult
    rw [ha]
    obtain ⟨hsound', hkeeps', hresult'⟩ := hf a _ hsound (hnames s a _ hP hQ)
    refine ⟨hsound', hkeeps.trans hkeeps', ?_⟩
    cases fault' with
    | some e => exact hresult'
    | none =>
      obtain ⟨b, hb, hR⟩ := hresult'
      exact ⟨b, hb, a, _, hkeeps', hQ, hR⟩

/-! ### Slots -/

/-- What a slot for a term has to satisfy, after the terms before it. -/
def SlotMeets (I : List Term → List String → Prop) (done : List Term) (t : Term) (s : Scope) (slot : Slot)
    (s' : Scope) : Prop :=
  s.names <+: s'.names ∧ I (done ++ [t]) s'.names ∧ t.slot? s'.names s'.terms = some slot

theorem Meets.constant {t : Term} (hvar : t.isVar = false) :
    (Compile.constant t).Meets P none fun s slot s' =>
      s'.names = s.names ∧ t.slot? s'.names s'.terms = some slot := by
  intro s hs _
  obtain ⟨hsound, hkeeps, -⟩ := hs.intern t
  refine ⟨hsound, hs.keeps hsound hkeeps, .const (s.terms.intern t).1, rfl, rfl, ?_⟩
  rw [Term.slot?_of_isVar hvar]
  exact congrArg (Option.map Slot.const) (s.terms.find?_intern t)

theorem Meets.premiseSlot (number : Nat) (done : List Term) (t : Term) :
    (Compile.premiseSlot number t).Meets (Names done) (premiseFault number t) (SlotMeets Names done t) := by
  have hconstant : ∀ {t : Term}, t.isVar = false →
      (Compile.constant t).Meets (Names done) none (SlotMeets Names done t) := by
    intro t hvar
    refine (Meets.constant hvar).weaken fun s slot s' hdone h => ⟨h.1 ▸ List.prefix_rfl, ?_, h.2⟩
    rw [h.1]
    refine hdone.append ?_
    rintro name rfl
    cases hvar
  cases t with
  | var name =>
    intro s hs hdone
    rw [Compile.premiseSlot, run_get_bind]
    cases hname : s.names.idxOf? name with
    | some place =>
      have hmem : name ∈ s.names := List.isSome_idxOf?.1 (Option.isSome_of_eq_some hname)
      have hnames : Names (done ++ [.var name]) s.names := hdone.append fun other h => Term.var.inj h ▸ hmem
      exact ⟨hs, fun _ _ h => h, .var place, rfl, List.prefix_rfl, hnames, congrArg (Option.map Slot.var) hname⟩
    | none =>
      have hnames := hdone.append_var (List.idxOf?_eq_none_iff.1 hname)
      exact ⟨hs, fun _ _ h => h, .var s.names.length, rfl, List.prefix_append _ _, hnames,
        congrArg (Option.map Slot.var) (idxOf?_self hname)⟩
  | defaultGraph => exact .throw _
  | iri _ | blank _ | literal _ | quoted _ _ _ _ => exact hconstant rfl

theorem Meets.conclusionSlot (number : Nat) (premise done : List Term) (t : Term) :
    (Compile.conclusionSlot number t).Meets (Names premise) (conclusionFault number premise t)
      (SlotMeets (fun _ => Names premise) done t) := by
  have hconstant : ∀ {t : Term}, t.isVar = false →
      (Compile.constant t).Meets (Names premise) none (SlotMeets (fun _ => Names premise) done t) := by
    intro t hvar
    refine (Meets.constant hvar).weaken fun s slot s' hpremise h => ⟨h.1 ▸ List.prefix_rfl, ?_, h.2⟩
    rwa [h.1]
  cases t with
  | var name =>
    intro s hs hpremise
    rw [Compile.conclusionSlot, run_get_bind, conclusionFault]
    cases hname : s.names.idxOf? name with
    | some place =>
      have hmem : name ∈ s.names := List.isSome_idxOf?.1 (Option.isSome_of_eq_some hname)
      rw [if_pos ((hpremise.mem_iff name).1 hmem)]
      exact ⟨hs, fun _ _ h => h, .var place, rfl, List.prefix_rfl, hpremise, congrArg (Option.map Slot.var) hname⟩
    | none =>
      rw [if_neg fun h => List.idxOf?_eq_none_iff.1 hname ((hpremise.mem_iff name).2 h)]
      exact Meets.throw (Q := SlotMeets (fun _ => Names premise) done (.var name)) _ s hs hpremise
  | defaultGraph => exact .throw _
  | iri _ | blank _ | literal _ | quoted _ _ _ _ => exact hconstant rfl

/-! ### Atoms and rules -/

section Atoms

variable {I : List Term → List String → Prop} {faultOf : Term → Option RuleError} {slot : Term → Compile Slot}
  (hslot : ∀ done t, (slot t).Meets (I done) (faultOf t) (SlotMeets I done t))
include hslot

theorem Meets.atom (done : List Term) (pattern : TriplePattern) :
    (Compile.atom slot pattern).Meets (I done) (pattern.toList.findSome? faultOf) fun s atom s' =>
      s.names <+: s'.names ∧ I (done ++ pattern.toList) s'.names ∧
        TriplePattern.Transcribed s'.names s'.terms pattern atom := by
  obtain ⟨s, p, o⟩ := pattern
  have hfault : (Triple.toList ⟨s, p, o⟩).findSome? faultOf =
      (faultOf s).or ((faultOf p).or ((faultOf o).or none)) := by
    simp only [Triple.toList, List.findSome?_cons, List.findSome?_nil]
    cases faultOf s <;> cases faultOf p <;> cases faultOf o <;> rfl
  rw [hfault]
  refine ((hslot done s).bind (fun _ _ _ _ h => h.2.1) fun a => (hslot (done ++ [s]) p).bind (fun _ _ _ _ h => h.2.1)
    fun b => (hslot (done ++ [s] ++ [p]) o).bind (fun _ _ _ _ h => h.2.1) fun c =>
      Meets.pure (⟨a, b, c⟩ : Atom)).weaken ?_
  rintro s₀ atom s₃ - ⟨a, s₁, k₁, ⟨n₁, -, h₁⟩, b, s₂, k₂, ⟨n₂, -, h₂⟩, c, _, k₃, ⟨n₃, i₃, h₃⟩, rfl, rfl⟩
  -- slots stay while more names and terms come, so all three are right in the end
  refine ⟨(n₁.trans n₂).trans n₃, by simpa [Triple.toList] using i₃, ?_⟩
  simp only [TriplePattern.Transcribed, Triple.map, Triple.mk.injEq]
  exact ⟨Term.slot?_mono (n₂.trans n₃) k₁ h₁, Term.slot?_mono n₃ k₂ h₂, h₃⟩

theorem Meets.atoms (done : List Term) (patterns : List TriplePattern) :
    (patterns.mapM (Compile.atom slot)).Meets (I done) ((positions patterns).findSome? faultOf) fun s atoms s' =>
      s.names <+: s'.names ∧ I (done ++ positions patterns) s'.names ∧
        List.Forall₂ (TriplePattern.Transcribed s'.names s'.terms) patterns atoms := by
  induction patterns generalizing done with
  | nil =>
    rw [List.mapM_nil]
    refine (Meets.pure []).weaken ?_
    rintro s atoms s' hdone ⟨rfl, rfl⟩
    exact ⟨List.prefix_rfl, by rwa [positions, List.flatMap_nil, List.append_nil], .nil⟩
  | cons pattern patterns ih =>
    have hpositions : positions (pattern :: patterns) = pattern.toList ++ positions patterns := List.flatMap_cons
    rw [List.mapM_cons, hpositions, List.findSome?_append, ← Option.or_none (o := (positions patterns).findSome? faultOf)]
    refine ((Meets.atom hslot done pattern).bind (fun _ _ _ _ h => h.2.1) fun atom =>
      (ih (done ++ pattern.toList)).bind (S := fun _ => True) (fun _ _ _ _ _ => trivial) fun atoms =>
        Meets.pure (atom :: atoms)).weaken ?_
    rintro s₀ all s₂ - ⟨atom, s₁, k₁, ⟨n₁, -, h₁⟩, atoms, _, -, ⟨n₂, i₂, h₂⟩, rfl, rfl⟩
    exact ⟨n₁.trans n₂, by rwa [← List.append_assoc], .cons (h₁.mono n₂ k₁) h₂⟩

end Atoms

theorem Meets.reset : Meets (modify fun scope => { scope with names := [] }) P none fun _ _ s' => Names [] s'.names := by
  intro s hs _
  refine ⟨hs, fun _ _ h => h, (), rfl, List.nodup_nil, fun name => ?_⟩
  change name ∈ [] ↔ _
  simp only [List.not_mem_nil]

theorem Meets.get : Meets get P none fun s a s' => a = s ∧ s' = s :=
  fun s hs _ => ⟨hs, fun _ _ h => h, s, rfl, rfl, rfl⟩

/-- Compiling a rule reports the first of its faults; if it has none, it is transcribed. -/
theorem Meets.compile (number : Nat) (rule : Rule) :
    (rule.compile number).Meets (fun _ => True) (rule.faults number).head? fun _ c s' =>
      ∃ slot, c.Transcribes rule s'.terms slot := by
  have hpremise := Meets.atoms (Meets.premiseSlot number) [] rule.premise
  have hconclusion := Meets.atoms (Meets.conclusionSlot number (positions rule.premise)) [] rule.conclusion
  unfold Rule.compile Rule.faults
  by_cases hempty : rule.premise = []
  · rw [if_pos hempty, if_pos (List.isEmpty_iff.2 hempty)]
    exact .throw _
  · rw [if_neg hempty, if_neg (mt List.isEmpty_iff.1 hempty), List.nil_append, List.head?_append, List.head?_filterMap,
      List.head?_filterMap, ← Option.or_none (o := (positions rule.conclusion).findSome? _)]
    refine (Meets.reset.bind (fun _ _ _ _ h => h) fun _ => hpremise.bind (fun _ _ _ _ h => h.2.1) fun premise =>
      hconclusion.bind (S := fun _ => True) (fun _ _ _ _ _ => trivial) fun conclusion =>
      Meets.get.bind (fun _ _ _ _ _ => trivial) fun scope => Meets.pure (P := fun _ => True)
        (⟨premise, conclusion.map (⟨·, []⟩), scope.names.length⟩ : CompiledRule)).weaken ?_
    rintro s c s' - ⟨_, s₀, -, -, premise, s₁, k₁, ⟨-, -, h₁⟩, conclusion, s₂, -, ⟨n₂, i₂, h₂⟩, scope, s₃, -, ⟨rfl, rfl⟩,
      rfl, rfl⟩
    exact transcribes_of_transcribed i₂ (h₁.imp fun _ _ h => h.mono n₂ k₁) h₂

theorem Meets.compileAll (start : Nat) (rules : List Rule) :
    ((rules.zipIdx start).mapM fun x : Rule × Nat => x.1.compile x.2).Meets (fun _ => True) (firstFault start rules)
      fun _ compiled s' => List.Forall₂ (fun rule c => ∃ slot, c.Transcribes rule s'.terms slot) rules compiled := by
  induction rules generalizing start with
  | nil =>
    refine (Meets.pure []).weaken ?_
    rintro s compiled s' - ⟨rfl, rfl⟩
    exact .nil
  | cons rule rules ih =>
    have hfault : firstFault start (rule :: rules) =
        (rule.faults start).head?.or ((firstFault (start + 1) rules).or none) := by
      rw [firstFault, List.zipIdx_cons, List.findSome?_cons, Option.or_none]
      cases (rule.faults start).head? <;> rfl
    rw [List.zipIdx_cons, List.mapM_cons, hfault]
    refine ((Meets.compile start rule).bind (fun _ _ _ _ _ => trivial) fun c =>
      (ih (start + 1)).bind (S := fun _ => True) (fun _ _ _ _ _ => trivial) fun compiled =>
        Meets.pure (c :: compiled)).weaken ?_
    rintro s all s' - ⟨c, s₁, k₁, ⟨slot, hc⟩, compiled, s₂, -, hcompiled, rfl, rfl⟩
    exact .cons ⟨slot, hc.mono k₁⟩ hcompiled

end Compile

/-! ### Compiling rules -/

/-- Linking the rules changes no slot. -/
theorem CompiledRule.Transcribes.links {c : CompiledRule} {rule : Rule} {terms : Interner} {slot : Term → Slot}
    (h : c.Transcribes rule terms slot) (links : Conclusion → List Link) :
    CompiledRule.Transcribes { c with conclusion := c.conclusion.map fun k => ⟨k.atom, links k⟩ } rule terms slot where
  premise := h.premise
  conclusion := by
    rw [← h.conclusion, List.map_map]
    rfl
  same := h.same
  below := h.below
  numbers := h.numbers
  constant := h.constant

theorem exists_transcribes {terms : Interner} {rules : List Rule} {compiled : List CompiledRule}
    (h : List.Forall₂ (fun rule c => ∃ slot, CompiledRule.Transcribes c rule terms slot) rules compiled)
    {c : CompiledRule} (hc : c ∈ compiled) : ∃ rule slot, c.Transcribes rule terms slot := by
  obtain ⟨number, hnumber, rfl⟩ := List.getElem_of_mem hc
  obtain ⟨hlength, hget⟩ := List.forall₂_iff_get.1 h
  exact ⟨_, hget number (hlength ▸ hnumber) hnumber⟩

/-- Compiling rules reports the first fault; if there is none, the rules are transcribed and linked. -/
theorem compileRules_cases {terms : Interner} (hterms : terms.Sound) (rules : List Rule) :
    match firstFault 0 rules with
    | some e => (compileRules rules terms).1 = .error e
    | none => ∃ compiled, (compileRules rules terms).1 = .ok compiled ∧ Linked compiled ∧
        List.Forall₂ (fun rule c => ∃ slot, c.Transcribes rule (compileRules rules terms).2 slot) rules compiled := by
  obtain ⟨-, -, hresult⟩ := Compile.Meets.compileAll 0 rules { names := [], terms } hterms trivial
  have hrun : (compileRules rules terms).1 =
    ((rules.zipIdx.mapM fun x : Rule × Nat => x.1.compile x.2).run.run { names := [], terms }).1.map linkRules := rfl
  rw [hrun]
  cases hfault : firstFault 0 rules with
  | some e =>
    rw [hfault] at hresult
    rw [hresult]
    rfl
  | none =>
    rw [hfault] at hresult
    obtain ⟨unlinked, hunlinked, htranscribes⟩ := hresult
    rw [hunlinked]
    have hlinked : List.Forall₂ (fun rule c => ∃ slot, c.Transcribes rule (compileRules rules terms).2 slot) rules
        (linkRules unlinked) := by
      rw [linkRules, List.forall₂_map_right_iff]
      exact htranscribes.imp fun rule c => Exists.imp fun slot h => h.links _
    refine ⟨linkRules unlinked, rfl, ⟨fun c hc => ?_, fun c hc k hk => links_of_mem_linkRules hc hk⟩, hlinked⟩
    obtain ⟨rule, slot, h⟩ := exists_transcribes hlinked hc
    exact h.wellScoped

section Sound

variable {terms : Interner} (hterms : terms.Sound) {rules : List Rule}
include hterms

/-- The first fault is reported. -/
theorem compileRules_eq_error_iff {e : RuleError} :
    (compileRules rules terms).1 = .error e ↔ firstFault 0 rules = some e := by
  have hcases := compileRules_cases hterms rules
  cases hfault : firstFault 0 rules with
  | some e' =>
    rw [hfault] at hcases
    rw [hcases, Except.error.injEq, Option.some.injEq]
  | none =>
    rw [hfault] at hcases
    obtain ⟨compiled, hcompiled, -⟩ := hcases
    simp [hcompiled]

/-- Exactly usable rules are compiled. -/
theorem exists_compileRules_iff :
    (∃ compiled, (compileRules rules terms).1 = .ok compiled) ↔ ∀ rule ∈ rules, rule.IsUsable := by
  have hcases := compileRules_cases hterms rules
  rw [← firstFault_eq_none 0]
  cases hfault : firstFault 0 rules with
  | some e =>
    rw [hfault] at hcases
    simp [hcases]
  | none =>
    rw [hfault] at hcases
    obtain ⟨compiled, hcompiled, -⟩ := hcases
    simp [hcompiled]

/-- The rules that are compiled are linked and transcribed. -/
theorem transcribes_of_compileRules {compiled : List CompiledRule}
    (hcompiled : (compileRules rules terms).1 = .ok compiled) :
    Linked compiled ∧
      List.Forall₂ (fun rule c => ∃ slot, c.Transcribes rule (compileRules rules terms).2 slot) rules compiled := by
  have hcases := compileRules_cases hterms rules
  cases hfault : firstFault 0 rules with
  | some e =>
    rw [hfault] at hcases
    rw [hcompiled] at hcases
    cases hcases
  | none =>
    rw [hfault] at hcases
    obtain ⟨compiled', hcompiled', h⟩ := hcases
    rw [hcompiled] at hcompiled'
    obtain rfl := Except.ok.inj hcompiled'
    exact h

end Sound

end RdfDataset
