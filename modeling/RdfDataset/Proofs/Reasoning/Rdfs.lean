import RdfDataset.Proofs.Dataset.Call
import RdfDataset.Proofs.Rule.Represent

/-!
# Reasoning about classes

The rules of RDF Schema can be used with every dataset.  Those about classes add the transitive closure of the subclass
relation of each graph, and the types that follow from it, and nothing else.

* `Dataset.Consistent.isLeast_reasonRdfs`: reasoning with rules of RDF Schema closes the triples of every graph.
* `IsSubClassOf` and `HasType` are the relations in a set of triples; `hierarchyTriples` and `inheritedTypes` are what
  follows from them, `classTriples` all triples together.
* `isLeast_classTriples`: this is the least set that is closed under the rules.
* `Dataset.reasonRdfs_classes`: it is what reasoning gives, after any calls.
-/

namespace RdfDataset

open Vocabulary

/-! ### Rules of RDF Schema -/

namespace RdfsRule

theorem isUsable_toRule (rule : RdfsRule) : rule.toRule.IsUsable := by
  cases rule <;> constructor <;> simp [toRule, pattern, positions, Triple.toList]

/-- The constants of the rules begin with a letter, as only the ids of IRIs do. -/
theorem distinguishes_of_mem_positions (rule : RdfsRule) (terms : Interner) :
    ∀ t ∈ positions (rule.toRule.premise ++ rule.toRule.conclusion), t.isVar = false → terms.Distinguishes t := by
  have hiri : ∀ iri ∈ [Rdf.type, Rdfs.subClassOf, Rdfs.subPropertyOf, Rdfs.domain, Rdfs.range],
      terms.Distinguishes (.iri iri) := by
    simp only [List.forall_mem_cons]
    refine ⟨?_, ?_, ?_, ?_, ?_, by simp⟩ <;> exact Interner.distinguishes_iri _ rfl (by decide)
  simp only [List.forall_mem_cons] at hiri
  cases rule <;> simp [toRule, pattern, positions, Triple.toList, Term.isVar, hiri]

/-- The rules can be used whatever terms have numbers. -/
theorem exists_usable (rules : List RdfsRule) {terms : Interner} (hterms : terms.Sound) :
    ∃ compiled, Usable (rules.map toRule) terms compiled := by
  apply hterms.exists_usable
  · intro rule hrule
    obtain ⟨rdfsRule, -, rfl⟩ := List.mem_map.1 hrule
    exact rdfsRule.isUsable_toRule
  · intro rule hrule
    obtain ⟨rdfsRule, -, rfl⟩ := List.mem_map.1 hrule
    exact rdfsRule.distinguishes_of_mem_positions _

end RdfsRule

/-- Reasoning with rules of RDF Schema closes the triples of every graph. -/
theorem Dataset.Consistent.isLeast_reasonRdfs [Arrangement] {d : Dataset} (hd : d.Consistent) (rules : List RdfsRule) :
    (∃ stats, (d.reasonRdfs rules).1 = .ok stats) ∧
      ∀ g, IsLeast {T | d.triplesIn g ⊆ T ∧ ClosedUnderRules (rules.map RdfsRule.toRule) T}
        ((d.reasonRdfs rules).2.triplesIn g) := by
  obtain ⟨compiled, hrules⟩ := RdfsRule.exists_usable rules hd.sound
  exact hd.isLeast_reason hrules

/-! ### Classes -/

section Classes

variable {T G : Set (Triple Term)} {rules : List RdfsRule} {x a b c : Term}

/-- A class is stated to be a subclass of another one. -/
def IsSubClassOf (T : Set (Triple Term)) (a b : Term) : Prop :=
  ⟨a, .iri Rdfs.subClassOf, b⟩ ∈ T

/-- A thing is stated to be of a class. -/
def HasType (T : Set (Triple Term)) (x a : Term) : Prop :=
  ⟨x, .iri Rdf.type, a⟩ ∈ T

/-- The transitive closure of the subclass relation, as triples. -/
def hierarchyTriples (G : Set (Triple Term)) : Set (Triple Term) :=
  {t | t.predicate = .iri Rdfs.subClassOf ∧ Relation.TransGen (IsSubClassOf G) t.subject t.object}

/-- The types that things have because of the types that are stated of them. -/
def inheritedTypes (G : Set (Triple Term)) : Set (Triple Term) :=
  {t | t.predicate = .iri Rdf.type ∧
    ∃ a, HasType G t.subject a ∧ Relation.TransGen (IsSubClassOf G) a t.object}

/-- Some triples with what follows from them by rules about classes. -/
def classTriples (rules : List RdfsRule) (G : Set (Triple Term)) : Set (Triple Term) :=
  G ∪ hierarchyTriples G ∪ {t | .typeInheritance ∈ rules ∧ t ∈ inheritedTypes G}

theorem type_ne_subClassOf : Term.iri Rdf.type ≠ .iri Rdfs.subClassOf := by
  decide

theorem isSubClassOf_classTriples :
    IsSubClassOf (classTriples rules G) a b ↔ Relation.TransGen (IsSubClassOf G) a b := by
  constructor
  · intro h
    rcases h with (h | h) | h
    · exact .single h
    · exact h.2
    · exact absurd h.2.1 type_ne_subClassOf.symm
  · intro h
    exact .inl (.inr ⟨rfl, h⟩)

theorem hasType_classTriples :
    HasType (classTriples rules G) x b ↔ HasType G x b ∨
      .typeInheritance ∈ rules ∧ ∃ a, HasType G x a ∧ Relation.TransGen (IsSubClassOf G) a b := by
  constructor
  · intro h
    rcases h with (h | h) | h
    · exact .inl h
    · exact absurd h.1 type_ne_subClassOf
    · exact .inr ⟨h.1, h.2.2⟩
  · intro h
    rcases h with h | h
    · exact .inl (.inl h)
    · exact .inr ⟨h.1, rfl, h.2⟩

/-- The rule about subclasses says that their relation is transitive. -/
theorem closedUnder_subClassOfTransitive :
    ClosedUnderRules [RdfsRule.subClassOfTransitive.toRule] T ↔
      ∀ a b c, IsSubClassOf T a b → IsSubClassOf T b c → IsSubClassOf T a c := by
  simp only [ClosedUnderRules, List.mem_singleton, forall_eq, RdfsRule.toRule, RdfsRule.pattern, List.forall_mem_cons,
    Triple.map, Term.subst]
  constructor
  · intro h a b c hab hbc
    let σ : String → Term := fun name => if name = "a" then a else if name = "b" then b else c
    exact h σ ⟨hab, hbc⟩
  · intro h σ hpremise
    exact h _ _ _ hpremise.1 hpremise.2

/-- The rule about types says that things have the types of their classes. -/
theorem closedUnder_typeInheritance :
    ClosedUnderRules [RdfsRule.typeInheritance.toRule] T ↔
      ∀ x a b, HasType T x a → IsSubClassOf T a b → HasType T x b := by
  simp only [ClosedUnderRules, List.mem_singleton, forall_eq, RdfsRule.toRule, RdfsRule.pattern, List.forall_mem_cons,
    Triple.map, Term.subst]
  constructor
  · intro h x a b hx hab
    let σ : String → Term := fun name => if name = "x" then x else if name = "a" then a else b
    exact h σ ⟨hx, hab⟩
  · intro h σ hpremise
    exact h _ _ _ hpremise.1 hpremise.2

theorem closedUnderRules_iff {rules : List Rule} :
    ClosedUnderRules rules T ↔ ∀ rule ∈ rules, ClosedUnderRules [rule] T := by
  simp [ClosedUnderRules]

/-- Rules about classes, each as what it says of the two relations. -/
theorem closedUnderRules_classes
    (hrules : ∀ rule ∈ rules, rule = .subClassOfTransitive ∨ rule = .typeInheritance) :
    ClosedUnderRules (rules.map RdfsRule.toRule) T ↔
      (.subClassOfTransitive ∈ rules → ∀ a b c, IsSubClassOf T a b → IsSubClassOf T b c → IsSubClassOf T a c) ∧
      (.typeInheritance ∈ rules → ∀ x a b, HasType T x a → IsSubClassOf T a b → HasType T x b) := by
  rw [closedUnderRules_iff, List.forall_mem_map, ← closedUnder_subClassOfTransitive, ← closedUnder_typeInheritance]
  constructor
  · intro h
    exact ⟨h _, h _⟩
  · intro h rule hrule
    rcases hrules rule hrule with heq | heq
    · subst heq
      exact h.1 hrule
    · subst heq
      exact h.2 hrule

/-- The closed form of what follows by rules about classes. -/
theorem isLeast_classTriples (hrules : ∀ rule ∈ rules, rule = .subClassOfTransitive ∨ rule = .typeInheritance)
    (htransitive : .subClassOfTransitive ∈ rules) (G : Set (Triple Term)) :
    IsLeast {T | G ⊆ T ∧ ClosedUnderRules (rules.map RdfsRule.toRule) T} (classTriples rules G) := by
  constructor
  · refine ⟨fun t ht => .inl (.inl ht), (closedUnderRules_classes hrules).2 ⟨?_, ?_⟩⟩
    · intro _ a b c hab hbc
      rw [isSubClassOf_classTriples] at hab hbc ⊢
      exact hab.trans hbc
    · intro hinherits x a b hx hab
      rw [isSubClassOf_classTriples] at hab
      rw [hasType_classTriples] at hx ⊢
      rcases hx with hx | ⟨-, a', hx, ha⟩
      · exact .inr ⟨hinherits, a, hx, hab⟩
      · exact .inr ⟨hinherits, a', hx, ha.trans hab⟩
  · intro T hT
    obtain ⟨hG, hclosed⟩ := hT
    obtain ⟨htrans, hinherit⟩ := (closedUnderRules_classes hrules).1 hclosed
    -- along a path of stated subclasses, each class on it is a subclass of the last one
    have hpath : ∀ {a b}, Relation.TransGen (IsSubClassOf G) a b → IsSubClassOf T a b := by
      intro a b h
      induction h with
      | single h => exact hG h
      | tail _ h ih => exact htrans htransitive _ _ _ ih (hG h)
    intro t ht
    obtain ⟨s, p, o⟩ := t
    rcases ht with (ht | ht) | ht
    · exact hG ht
    · obtain ⟨rfl, h⟩ := ht
      exact hpath h
    · obtain ⟨hinherits, rfl, a, hx, h⟩ := ht
      exact hinherit hinherits _ _ _ (hG hx) (hpath h)

end Classes

/-! ### Datasets -/

namespace Dataset

/-- After any calls, reasoning about classes adds to each graph the transitive closure of its subclass relation and,
with the rule about types, the types that follow from stated types along it.  It adds nothing else, whether the classes
are in cycles or not, and takes nothing away. -/
theorem reasonRdfs_classes [Arrangement] (settings : Settings) (calls : List Call) {rules : List RdfsRule}
    (hrules : ∀ rule ∈ rules, rule = .subClassOfTransitive ∨ rule = .typeInheritance)
    (htransitive : .subClassOfTransitive ∈ rules) :
    let d := calls.foldl Call.run { settings }
    (∃ stats, (d.reasonRdfs rules).1 = .ok stats) ∧
      (.typeInheritance ∈ rules → ∀ g, (d.reasonRdfs rules).2.triplesIn g =
        d.triplesIn g ∪ hierarchyTriples (d.triplesIn g) ∪ inheritedTypes (d.triplesIn g)) ∧
      (.typeInheritance ∉ rules → ∀ g, (d.reasonRdfs rules).2.triplesIn g =
        d.triplesIn g ∪ hierarchyTriples (d.triplesIn g)) := by
  intro d
  have hd : d.Consistent := (sound_calls settings calls).consistent
  obtain ⟨hok, hleast⟩ := hd.isLeast_reasonRdfs rules
  have hclosed : ∀ g, (d.reasonRdfs rules).2.triplesIn g = classTriples rules (d.triplesIn g) :=
    fun g => (hleast g).unique (isLeast_classTriples hrules htransitive _)
  refine ⟨hok, ?_, ?_⟩
  · intro hinherits g
    simp [hclosed, classTriples, hinherits]
  · intro hinherits g
    simp [hclosed, classTriples, hinherits]

/-- Two classes that are subclasses of each other are subclasses of themselves, and what is of one is of the other. -/
theorem reasonRdfs_classes_cycle :
    let quads : List Quad := [⟨.iri "c:a", .iri Rdfs.subClassOf, .iri "c:b", .blank "g"⟩,
      ⟨.iri "c:b", .iri Rdfs.subClassOf, .iri "c:a", .blank "g"⟩, ⟨.blank "x", .iri Rdf.type, .iri "c:a", .blank "g"⟩]
    let rules : List RdfsRule := [.typeInheritance, .subClassOfTransitive, .typeInheritance]
    let d := [Call.update (.insertMany quads)].foldl Call.run {}
    (∃ stats, (d.reasonRdfs rules).1 = .ok stats) ∧
      ⟨.iri "c:a", .iri Rdfs.subClassOf, .iri "c:a"⟩ ∈ (d.reasonRdfs rules).2.triplesIn (.blank "g") ∧
      ⟨.blank "x", .iri Rdf.type, .iri "c:b"⟩ ∈ (d.reasonRdfs rules).2.triplesIn (.blank "g") := by
  have hiri : ∀ iri ∈ ["c:a", "c:b", Rdfs.subClassOf, Rdf.type], (Term.iri iri).IsValid := by
    simp only [Term.isValid_iri]
    decide
  have hblank : ∀ label ∈ ["g", "x"], (Term.blank label).IsValid := by
    simp only [Term.isValid_blank]
    decide
  simp only [List.forall_mem_cons] at hiri hblank
  intro quads rules d
  have hvalid : ∀ q ∈ quads, q.IsValid := by
    simp only [quads, List.forall_mem_cons, Quad.isValid_iff]
    simp [hiri, hblank]
  have hquads : d.quads = quads.toFinset := quads_call_insertMany hvalid
  have hrules : ∀ rule ∈ rules, rule = .subClassOfTransitive ∨ rule = .typeInheritance := by decide
  obtain ⟨hok, hboth, -⟩ := reasonRdfs_classes {} [.update (.insertMany quads)] hrules (by decide)
  have hmem : ∀ t ∈ ([⟨.iri "c:a", .iri Rdfs.subClassOf, .iri "c:b"⟩, ⟨.iri "c:b", .iri Rdfs.subClassOf, .iri "c:a"⟩,
      ⟨.blank "x", .iri Rdf.type, .iri "c:a"⟩] : List (Triple Term)), t ∈ d.triplesIn (.blank "g") := by
    intro t ht
    rw [triplesIn, Set.mem_ofPred_eq, hquads]
    revert t
    decide
  simp only [List.forall_mem_cons] at hmem
  obtain ⟨hab, hba, hx, -⟩ := hmem
  refine ⟨hok, ?_, ?_⟩
  · rw [hboth (by decide)]
    exact .inl (.inr ⟨rfl, .tail (.single hab) hba⟩)
  · rw [hboth (by decide)]
    exact .inr ⟨rfl, _, hx, .single hab⟩

end Dataset

end RdfDataset
