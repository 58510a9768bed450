import RdfDataset.Proofs.Collection.Extract
import RdfDataset.Proofs.Dataset.Replay
import RdfDataset.Proofs.Document.Reader
import RdfDataset.Proofs.Reasoning.Basic
import RdfDataset.Reasoning.Rdfs

/-!
# Datasets that can be reached

A dataset starts empty and goes from one call to the next; whatever the calls are, it stays valid.

* `Dataset.Step` is one call, `Dataset.Reachable` any number of them.
* `Dataset.Step.valid` and `Dataset.Reachable.valid`: validity is kept.
-/

namespace RdfDataset

theorem RdfsRule.isValid_toRule (rule : RdfsRule) : rule.toRule.IsValid := by
  have hvar : ∀ name ∈ ["a", "b", "c", "p", "q", "x", "y"], (Term.var name).IsValid := by
    simp only [Term.isValid_var]
    decide
  have hiri : ∀ iri ∈ [Vocabulary.Rdf.type, Vocabulary.Rdfs.subClassOf, Vocabulary.Rdfs.subPropertyOf,
      Vocabulary.Rdfs.domain, Vocabulary.Rdfs.range], (Term.iri iri).IsValid := by
    simp only [Term.isValid_iri]
    decide
  simp only [List.forall_mem_cons] at hvar hiri
  cases rule <;> simp [Rule.IsValid, toRule, pattern, Triple.toList, hvar, hiri]

namespace Dataset

open Vocabulary.Rdf

section

variable [Arrangement]

/-- One call on a dataset, of valid terms, and what becomes of the dataset. -/
inductive Step : Dataset → Dataset → Prop
  | update (d : Dataset) {u : Update} (hu : u.IsValid) : Step d (u.run d).2
  | size (d : Dataset) : Step d d.size.2
  | extractLists (d : Dataset) (options : ExtractOptions) : Step d (d.extractLists options).2
  | load (d : Dataset) (format : Format) (text : String) (base : Option String) : Step d (d.load format text base).2
  | reason (d : Dataset) {rules : List Rule} (hrules : ∀ rule ∈ rules, rule.IsValid) : Step d (d.reason rules).2
  | reasonIn (d : Dataset) {rules : List Rule} (hrules : ∀ rule ∈ rules, rule.IsValid) (graph : Term) :
    Step d (d.reasonIn rules graph).2

/-- The datasets that come about from an empty one. -/
inductive Reachable : Dataset → Prop
  | init {settings : Settings} {d : Dataset} (h : withSettings settings = .ok d) : Reachable d
  | step {d d' : Dataset} (hd : Reachable d) (h : Step d d') : Reachable d'

theorem Step.valid {d d' : Dataset} (h : Step d d') (hd : d.Valid) : d'.Valid := by
  cases h with
  | update hu => exact (Update.run_refines hd hu).1
  | size => exact hd.size.1
  | extractLists options => exact (hd.extractLists options).1
  | load format text base =>
    obtain ⟨e, -, h⟩ | ⟨quads, hread, h⟩ := d.load_cases format text base
    · rw [h]
      exact hd
    · rw [h]
      exact (hd.insertMany (Format.isValid_of_read hread)).1
  | reason hrules => exact (hd.reason hrules).1
  | reasonIn hrules graph => exact (hd.reasonIn hrules graph).1

/-- Every dataset that can be reached is valid. -/
theorem Reachable.valid {d : Dataset} (h : d.Reachable) : d.Valid := by
  induction h with
  | init h =>
    obtain ⟨_, -, h⟩ := bind_eq_ok.1 h
    rw [← pure_eq_ok.1 h]
    exact .empty _
  | step _ hstep ih => exact hstep.valid ih

/-! ### Calls that are made of others -/

namespace Reachable

variable {d : Dataset} (hd : d.Reachable)
include hd

theorem isEmpty : d.isEmpty.2.Reachable :=
  hd.step (.size d)

theorem loadFile (path : String) (text base : Option String) : (d.loadFile path text base).2.Reachable := by
  obtain ⟨e, -, h⟩ | ⟨format, document, -, -, h⟩ := d.loadFile_cases path text base
  · rw [h]
    exact hd
  · rw [h]
    exact hd.step (.load d format document base)

omit hd in
theorem ofList {quads : List Quad} (hquads : ∀ q ∈ quads, q.IsValid) : (ofList quads).Reachable :=
  .step (.init (rfl : withSettings {} = .ok {})) (.update {} (u := .insertMany quads) hquads)

theorem reasonRdfs (rules : List RdfsRule) : (d.reasonRdfs rules).2.Reachable := by
  refine hd.step (.reason d fun rule hrule => ?_)
  obtain ⟨rdfsRule, -, rfl⟩ := List.mem_map.1 hrule
  exact rdfsRule.isValid_toRule

end Reachable

/-! ### What holds of all of them -/

/-- Reasoning turns the triples of each graph into the least set that contains them and is closed under the rules.
Neither what it does to a graph nor what it leaves alone depends on the triples of other graphs. -/
theorem Reachable.reason_isLeast {d : Dataset} (hd : d.Reachable) {rules : List Rule}
    (hrules : ∀ rule ∈ rules, rule.IsValid) (hcompiles : ∃ compiled, (compileRules rules d.terms).1 = .ok compiled) :
    ((∃ stats, (d.reason rules).1 = .ok stats) ∧
      ∀ g, IsLeast {T | d.triplesIn g ⊆ T ∧ ClosedUnderRules rules T} ((d.reason rules).2.triplesIn g)) ∧
    (∀ g, g.IsValid → (∃ stats, (d.reasonIn rules g).1 = .ok stats) ∧
      IsLeast {T | d.triplesIn g ⊆ T ∧ ClosedUnderRules rules T} ((d.reasonIn rules g).2.triplesIn g) ∧
      ∀ other, other ≠ g → (d.reasonIn rules g).2.triplesIn other = d.triplesIn other) ∧
    ∀ d' : Dataset, d'.Reachable → (∃ compiled, (compileRules rules d'.terms).1 = .ok compiled) →
      ∀ g, g.IsValid → d'.triplesIn g = d.triplesIn g →
        (d'.reason rules).2.triplesIn g = (d.reason rules).2.triplesIn g ∧
        (d'.reasonIn rules g).2.triplesIn g = (d.reasonIn rules g).2.triplesIn g := by
  have hvalid := hd.valid
  refine ⟨⟨hvalid.reason_isOk hrules hcompiles, hvalid.isLeast_reason hrules hcompiles⟩, fun g hg => ?_, ?_⟩
  · exact ⟨hvalid.reasonIn_isOk hrules hcompiles g, hvalid.isLeast_reasonIn hrules hcompiles hg,
      fun other hother => hvalid.triplesIn_reasonIn hrules hcompiles hg hother⟩
  · intro d' hd' hcompiles' g hg hsame
    have hreason := hd'.valid.isLeast_reason hrules hcompiles' g
    have hreasonIn := hd'.valid.isLeast_reasonIn hrules hcompiles' hg
    rw [hsame] at hreason hreasonIn
    exact ⟨hreason.unique (hvalid.isLeast_reason hrules hcompiles g),
      hreasonIn.unique (hvalid.isLeast_reasonIn hrules hcompiles hg)⟩

end

/-- A rule that makes a relation transitive is used with a dataset of two quads. -/
theorem reason_isLeast_transitive :
    let rule : Rule :=
      ⟨[⟨.var "x", .iri "a:p", .var "y"⟩, ⟨.var "y", .iri "a:p", .var "z"⟩], [⟨.var "x", .iri "a:p", .var "z"⟩]⟩
    let d := ofList [⟨.blank "k", .iri "a:p", .blank "l", .defaultGraph⟩,
      ⟨.blank "l", .iri "a:p", .blank "m", .defaultGraph⟩]
    (∃ stats, (d.reason [rule]).1 = .ok stats) ∧
      IsLeast {T | d.triplesIn .defaultGraph ⊆ T ∧ ClosedUnderRules [rule] T}
        ((d.reason [rule]).2.triplesIn .defaultGraph) ∧
      ⟨.blank "k", .iri "a:p", .blank "m"⟩ ∈ (d.reason [rule]).2.triplesIn .defaultGraph := by
  have hblank : ∀ label ∈ ["k", "l", "m"], (Term.blank label).IsValid := by
    simp only [Term.isValid_blank]
    decide
  have hvar : ∀ name ∈ ["x", "y", "z"], (Term.var name).IsValid := by
    simp only [Term.isValid_var]
    decide
  have hiri : (Term.iri "a:p").IsValid := Term.isValid_iri.2 (by decide)
  simp only [List.forall_mem_cons] at hblank hvar
  intro rule d
  have hquads : ∀ q ∈ ([⟨.blank "k", .iri "a:p", .blank "l", .defaultGraph⟩,
      ⟨.blank "l", .iri "a:p", .blank "m", .defaultGraph⟩] : List Quad), q.IsValid := by
    simp only [List.forall_mem_cons, Quad.isValid_iff]
    simp [hblank, hiri, Term.IsValid.defaultGraph]
  have hrules : ∀ r ∈ [rule], r.IsValid := by
    simp only [rule, Rule.IsValid, List.forall_mem_cons, List.cons_append, List.nil_append, Triple.toList]
    simp [hvar, hiri]
  obtain ⟨⟨hok, hleast⟩, -⟩ := Reachable.reason_isLeast (.ofList hquads) hrules ⟨_, rfl⟩
  obtain ⟨hcontains, hclosed⟩ := (hleast .defaultGraph).1
  refine ⟨hok, hleast .defaultGraph, ?_⟩
  have hmem : ∀ t ∈ ([⟨.blank "k", .iri "a:p", .blank "l"⟩, ⟨.blank "l", .iri "a:p", .blank "m"⟩] : List (Triple Term)),
      t ∈ (d.reason [rule]).2.triplesIn .defaultGraph := by
    refine fun t ht => hcontains ?_
    rw [triplesIn, Set.mem_ofPred_eq, quads_ofList hquads]
    revert t
    decide
  let σ : String → Term := fun name => if name = "x" then .blank "k" else if name = "y" then .blank "l" else .blank "m"
  exact hclosed rule List.mem_cons_self σ (by simpa [rule, σ, Term.subst, Triple.map] using hmem) _ List.mem_cons_self

/-- Where nothing follows `rdf:nil`, the lists that are extracted are the well-formed ones, and each other arc to
`rdf:nil` is one fault. -/
theorem Reachable.extractLists_exact [Arrangement] {d : Dataset} (hd : d.Reachable)
    (hnil : ∀ q ∈ d.quads, q.subject = nilTerm → q.predicate ≠ restTerm) (remove : Bool) :
    ∃ extraction, (d.extractLists { remove, ignoreErrors := true }).1 = .ok extraction ∧ d.IsExtraction extraction ∧
      (d.extractLists { remove, ignoreErrors := false }).1 =
        match extraction.faults with
        | [] => .ok extraction
        | fault :: _ => .error (.malformed fault) :=
  hd.valid.exists_isExtraction hnil remove

/-- A list of two items is found beside a cell that has no item. -/
theorem extractLists_exact_two_cells :
    let d := ofList [⟨.blank "l", firstTerm, .literal (.plain "1"), .defaultGraph⟩,
      ⟨.blank "l", restTerm, .blank "m", .defaultGraph⟩, ⟨.blank "m", firstTerm, .literal (.plain "2"), .defaultGraph⟩,
      ⟨.blank "m", restTerm, nilTerm, .defaultGraph⟩, ⟨.blank "n", restTerm, nilTerm, .defaultGraph⟩]
    ∃ extraction, (d.extractLists { remove := true, ignoreErrors := true }).1 = .ok extraction ∧
      (.blank "l", [.literal (.plain "1"), .literal (.plain "2")]) ∈ extraction.lists ∧
      ∃ fault ∈ extraction.faults, (d.extractLists { remove := true }).1 = .error (.malformed fault) := by
  have hblank : ∀ label ∈ ["l", "m", "n"], (Term.blank label).IsValid := by
    simp only [Term.isValid_blank]
    decide
  have hfirst : firstTerm.IsValid := Term.isValid_iri.2 (by decide)
  have hrest : restTerm.IsValid := Term.isValid_iri.2 (by decide)
  have hnil : nilTerm.IsValid := Term.isValid_iri.2 (by decide)
  have hplain : ∀ value, (Term.literal (.plain value)).IsValid := .plain
  simp only [List.forall_mem_cons] at hblank
  intro d
  have hvalid : ∀ q ∈ ([⟨.blank "l", firstTerm, .literal (.plain "1"), .defaultGraph⟩,
      ⟨.blank "l", restTerm, .blank "m", .defaultGraph⟩, ⟨.blank "m", firstTerm, .literal (.plain "2"), .defaultGraph⟩,
      ⟨.blank "m", restTerm, nilTerm, .defaultGraph⟩, ⟨.blank "n", restTerm, nilTerm, .defaultGraph⟩] : List Quad),
      q.IsValid := by
    simp only [List.forall_mem_cons, Quad.isValid_iff]
    simp [hblank, hfirst, hrest, hnil, hplain, Term.IsValid.defaultGraph]
  have hquads := quads_ofList hvalid
  have hends : ∀ q ∈ d.quads, q.subject = nilTerm → q.predicate ≠ restTerm := by
    rw [hquads]
    decide
  have hcollection : d.IsCollection .defaultGraph
      [(.blank "l", .literal (.plain "1")), (.blank "m", .literal (.plain "2"))] := by
    have hinner : d.IsInner .defaultGraph (.blank "l") (.blank "m") := by
      constructor
      · rw [arcsFrom, hquads]
        decide
      · rw [arcsTo, hquads]
        decide
    refine ⟨List.cons_ne_nil _ _, ⟨?_, ?_⟩, ⟨?_, ?_, ?_⟩, ?_, ⟨?_, ?_, ?_⟩, by simp, trivial⟩
    · rw [arcsTo, hquads]
      decide
    · rw [arcsFrom, arcsTo, hquads]
      decide
    · rw [arcsFrom, hquads]
      decide
    · rw [arcsFrom, hquads]
      decide
    · rw [arcsFrom, hquads]
      decide
    · rintro _ ⟨⟩
      exact hinner
    · rw [arcsFrom, hquads]
      decide
    · rw [arcsFrom, hquads]
      decide
    · rw [arcsFrom, hquads]
      decide
  obtain ⟨extraction, hok, hexact, hstrict⟩ := Reachable.extractLists_exact (.ofList hvalid) hends true
  obtain ⟨lasts, -, hlasts, hfaults⟩ := hexact.faults
  refine ⟨extraction, hok, (hexact.mem_lists _ _).2 ⟨_, _, hcollection, rfl, rfl⟩, ?_⟩
  have hlast : (⟨.blank "n", restTerm, nilTerm, .defaultGraph⟩ : Quad) ∈ lasts := by
    refine (hlasts _).2 ⟨⟨?_, rfl, rfl⟩, ?_⟩
    · rw [hquads]
      decide
    · rintro ⟨before, item, h⟩
      have hempty : (d.arcsFrom (.blank "n")).filter (·.predicate = firstTerm) = ∅ := by
        rw [arcsFrom, hquads]
        decide
      exact Finset.singleton_ne_empty _ (h.chained.of_append.1.first.symm.trans hempty)
  cases hcases : extraction.faults with
  | nil =>
    rw [hcases] at hfaults
    rw [List.map_eq_nil_iff.1 hfaults] at hlast
    cases hlast
  | cons fault faults =>
    rw [hcases] at hstrict
    exact ⟨fault, List.mem_cons_self, hstrict⟩

end Dataset

end RdfDataset
