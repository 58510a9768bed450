import RdfDataset.Proofs.Collection.Among
import RdfDataset.Proofs.Dataset.Load
import RdfDataset.Proofs.Document.Turtle.Anonymous

/-!
# Anonymous nodes of several documents

The anonymous nodes of a document are labelled by their numbers in it, whatever the dataset holds that it is loaded
into.  So all documents have the same first anonymous node, and what is said about it in one of them is said about it
in all.  Anonymous nodes are kept apart as long as only one of the documents has any.

* `Source`: a document before it is read; `Source.IsAnonymous`: its anonymous nodes.
* `Dataset.LoadsAll`: documents are loaded one after the other.
* `Dataset.Reachable.loadsAll_anonymous`: what becomes of their anonymous nodes, and when these are kept apart.
-/

namespace RdfDataset

open Document.Turtle Vocabulary.Rdf

/-- A document before it is read. -/
structure Source where
  format : Format
  text : String
  base : Option String := none

namespace Source

/-- The quads of a document. -/
def read (doc : Source) : Except ReadError (List Quad) :=
  doc.format.read doc.text doc.base

/-- The number of anonymous nodes. -/
def countAnonymous (doc : Source) : Nat :=
  doc.format.countAnonymous doc.text doc.base

/-- A blank node that has been generated for a document. -/
def IsAnonymous (doc : Source) (node : Term) : Prop :=
  ∃ i, 1 ≤ i ∧ i ≤ doc.countAnonymous ∧ node = .blank (generatedLabel i)

/-- Two documents have as many anonymous nodes in common as the one with fewer of them has, namely the first ones. -/
theorem isAnonymous_and_iff {doc other : Source} {node : Term} : doc.IsAnonymous node ∧ other.IsAnonymous node ↔
    ∃ i, 1 ≤ i ∧ i ≤ min doc.countAnonymous other.countAnonymous ∧ node = .blank (generatedLabel i) := by
  constructor
  · rintro ⟨⟨i, hpos, hle, rfl⟩, ⟨j, hpos', hle', hsame⟩⟩
    obtain rfl : i = j := generatedLabel_injective (Term.blank.inj hsame)
    exact ⟨i, hpos, le_min hle hle', rfl⟩
  · rintro ⟨i, hpos, hle, rfl⟩
    obtain ⟨hdoc, hother⟩ := le_min_iff.1 hle
    exact ⟨⟨i, hpos, hdoc, rfl⟩, i, hpos, hother, rfl⟩

/-- The format of a document has anonymous nodes. -/
def HasNodes (doc : Source) : Prop :=
  doc.format = .turtle ∨ doc.format = .triG

/-- In a document without anonymous nodes, those of another one do not occur. -/
theorem not_occursInQuad {doc other : Source} (hother : other.HasNodes) (hnone : other.countAnonymous = 0)
    (hfew : doc.countAnonymous < 10 ^ 8) {quads : List Quad} (hread : other.read = .ok quads) {node : Term}
    (hnode : doc.IsAnonymous node) : ∀ q ∈ quads, ¬node.OccursInQuad q := by
  intro q hq hoccurs
  obtain ⟨i, hpos, hle, rfl⟩ := hnode
  rcases Format.labelledBy_of_read hother hread q hq (generatedLabel i) hoccurs with ⟨j, hj, hle', -⟩ | ⟨written, heq⟩
  · have hzero : other.format.countAnonymous other.text other.base = 0 := hnone
    omega
  · exact generatedLabel_ne_keepApart (by omega) written heq

end Source

namespace Dataset

section

variable [Arrangement]

/-! ### Several documents -/

/-- Turtle and TriG documents are loaded one after the other. -/
inductive LoadsAll : Dataset → List Source → Dataset → Prop
  | nil (d : Dataset) : LoadsAll d [] d
  | cons {d d₁ d' : Dataset} {doc : Source} {docs : List Source} {count : Nat} (hformat : doc.HasNodes)
    (hload : d.load doc.format doc.text doc.base = (.ok count, d₁)) (h : LoadsAll d₁ docs d') :
    LoadsAll d (doc :: docs) d'

theorem load_of_read {d : Dataset} {doc : Source} {quads : List Quad} (hread : doc.read = .ok quads) :
    d.load doc.format doc.text doc.base = (.ok (d.insertMany quads).1, (d.insertMany quads).2) := by
  have hread : doc.format.read doc.text doc.base = .ok quads := hread
  rw [load, hread]

theorem Reachable.gains_of_load {d d' : Dataset} (hd : d.Reachable) {doc : Source} {count : Nat}
    (hload : d.load doc.format doc.text doc.base = (.ok count, d')) :
    ∃ quads, doc.read = .ok quads ∧ d.Gains quads count d' := by
  have hadds := hd.addsAtomically (d.load_cases doc.format doc.text doc.base) fun quads => Format.isValid_of_read
  rw [hload] at hadds
  cases hadds with
  | failed _ hresult => cases hresult
  | loaded hread hresult h =>
    obtain rfl := Except.ok.inj hresult
    exact ⟨_, hread, h⟩

namespace LoadsAll

variable {d d' : Dataset} {docs : List Source}

theorem reachable (h : d.LoadsAll docs d') (hd : d.Reachable) : d'.Reachable := by
  induction h with
  | nil => exact hd
  | cons _ hload _ ih =>
    obtain ⟨_, -, hgains⟩ := hd.gains_of_load hload
    exact ih hgains.reachable

/-- Documents that can be read are loaded. -/
theorem exists_of_read (d : Dataset) (h : ∀ doc ∈ docs, doc.HasNodes ∧ ∃ quads, doc.read = .ok quads) :
    ∃ d', d.LoadsAll docs d' := by
  induction docs generalizing d with
  | nil => exact ⟨d, .nil d⟩
  | cons doc docs ih =>
    rw [List.forall_mem_cons] at h
    obtain ⟨⟨hformat, quads, hread⟩, hdocs⟩ := h
    obtain ⟨d', h'⟩ := ih (d.insertMany quads).2 hdocs
    exact ⟨d', .cons hformat (load_of_read hread) h'⟩

/-- All documents have been read. -/
theorem exists_read (h : d.LoadsAll docs d') (hd : d.Reachable) {doc : Source} (hdoc : doc ∈ docs) :
    doc.HasNodes ∧ ∃ quads, doc.read = .ok quads := by
  induction h with
  | nil => cases hdoc
  | cons hformat hload _ ih =>
    obtain ⟨quads, hread, hgains⟩ := hd.gains_of_load hload
    rcases List.mem_cons.1 hdoc with rfl | hdoc
    · exact ⟨hformat, quads, hread⟩
    · exact ih hgains.reachable hdoc

/-- The quads of all documents are added. -/
theorem mem_quads (h : d.LoadsAll docs d') (hd : d.Reachable) {q : Quad} :
    q ∈ d'.quads ↔ q ∈ d.quads ∨ ∃ doc ∈ docs, ∃ quads, doc.read = .ok quads ∧ q ∈ quads := by
  induction h with
  | nil => simp
  | @cons _ _ _ doc _ _ _ hload _ ih =>
    obtain ⟨quads, hread, hgains⟩ := hd.gains_of_load hload
    have hfirst : (∃ quads', doc.read = .ok quads' ∧ q ∈ quads') ↔ q ∈ quads := by
      simp [hread]
    rw [ih hgains.reachable, hgains.quads, Finset.mem_union, List.mem_toFinset, List.exists_mem_cons_iff, hfirst,
      or_assoc]

end LoadsAll

/-! ### Anonymous nodes -/

/-- The anonymous nodes of a document are apart from everything else in a dataset, and so are the collections that
consist of them. -/
structure KeepsApart (d : Dataset) (doc : Source) (quads : List Quad) : Prop where
  occurs : ∀ node, doc.IsAnonymous node → ∀ q ∈ d.quads, node.OccursInQuad q → q ∈ quads
  isCollection : ∀ graph cells, (ofList quads).IsCollection graph cells →
    (∀ cell ∈ cells.map Prod.fst, doc.IsAnonymous cell) → d.IsCollection graph cells
  extracted : d.NilEnds → ∀ graph cells, (ofList quads).IsCollection graph cells →
    (∀ cell ∈ cells.map Prod.fst, doc.IsAnonymous cell) → ∀ remove,
      ∃ extraction, (d.extractLists { remove, ignoreErrors := true }).1 = .ok extraction ∧
        (start cells, cells.map Prod.snd) ∈ extraction.lists

/-- Anonymous nodes that occur nowhere else are kept apart. -/
theorem Valid.keepsApart {d : Dataset} (hd : d.Valid) {doc : Source} {quads : List Quad} (hread : doc.read = .ok quads)
    (hsubset : ∀ q ∈ quads, q ∈ d.quads)
    (hother : ∀ node, doc.IsAnonymous node → ∀ q ∈ d.quads, node.OccursInQuad q → q ∈ quads) :
    d.KeepsApart doc quads := by
  have hquads : (ofList quads).quads = quads.toFinset := quads_ofList (Format.isValid_of_read hread)
  have hamong : ∀ graph cells, (ofList quads).IsCollection graph cells →
      (∀ cell ∈ cells.map Prod.fst, doc.IsAnonymous cell) → d.IsCollection graph cells := by
    intro graph cells hcollection hcells
    refine hcollection.among ?_ fun q hq hnot => ?_
    · intro q hq
      rw [hquads, List.mem_toFinset] at hq
      exact hsubset q hq
    · rw [hquads, List.mem_toFinset] at hnot
      have hmentions : ∀ t ∈ [q.subject, q.predicate, q.object, q.graph], t ∉ cells.map Prod.fst := by
        intro t ht hcell
        obtain ⟨i, hpos, hle, rfl⟩ := hcells t hcell
        exact hnot (hother _ ⟨i, hpos, hle, rfl⟩ q hq ⟨_, ht, rfl⟩)
      exact ⟨hmentions _ (by simp), hmentions _ (by simp)⟩
  refine ⟨hother, hamong, fun hnil graph cells hcollection hcells remove => ?_⟩
  exact (hamong graph cells hcollection hcells).exists_mem_lists hd.toConsistent hnil remove

/-- When documents are loaded one after the other, their anonymous nodes have the labels that their numbers give, so
the first ones of any two documents are the same, and what is loaded again adds nothing.  If only one of the documents
has any, and the dataset has had none of their labels before, then they are apart from all other nodes, and collections
of them can be extracted. -/
theorem Reachable.loadsAll_anonymous {d d' : Dataset} (hd : d.Reachable) {docs : List Source} (h : d.LoadsAll docs d') :
    (∀ doc ∈ docs, ∃ quads, doc.read = .ok quads ∧
      (∀ q ∈ quads, q ∈ d'.quads ∧ q.LabelledBy doc.countAnonymous) ∧
      ∃ d'', d'.load doc.format doc.text doc.base = (.ok 0, d'') ∧ d''.quads = d'.quads) ∧
    (∀ doc ∈ docs, ∀ other ∈ docs, ∀ node, doc.IsAnonymous node ∧ other.IsAnonymous node ↔
      ∃ i, 1 ≤ i ∧ i ≤ min doc.countAnonymous other.countAnonymous ∧ node = .blank (generatedLabel i)) ∧
    ∀ before doc after, docs = before ++ doc :: after → doc.countAnonymous < 10 ^ 8 →
      (∀ other ∈ before ++ after, other.countAnonymous = 0) →
      (∀ node, doc.IsAnonymous node → ∀ q ∈ d.quads, ¬node.OccursInQuad q) →
      ∃ quads, doc.read = .ok quads ∧ d'.KeepsApart doc quads := by
  have hd' := h.reachable hd
  have hsubset : ∀ doc ∈ docs, ∀ quads, doc.read = .ok quads → ∀ q ∈ quads, q ∈ d'.quads :=
    fun doc hdoc quads hread q hq => (h.mem_quads hd).2 (.inr ⟨doc, hdoc, quads, hread, hq⟩)
  refine ⟨?_, fun _ _ _ _ _ => Source.isAnonymous_and_iff, ?_⟩
  · intro doc hdoc
    obtain ⟨hformat, quads, hread⟩ := h.exists_read hd hdoc
    have hold := hsubset doc hdoc quads hread
    refine ⟨quads, hread, fun q hq => ⟨hold q hq, Format.labelledBy_of_read hformat hread q hq⟩, ?_⟩
    have hgains := hd'.gains (Format.isValid_of_read hread)
    have hnone : quads.toFinset ⊆ d'.quads := fun q hq => hold q (List.mem_toFinset.1 hq)
    have hcount : (d'.insertMany quads).1 = 0 := by
      rw [hgains.new, Finset.sdiff_eq_empty_iff_subset.2 hnone, Finset.card_empty]
    refine ⟨(d'.insertMany quads).2, ?_, ?_⟩
    · rw [load_of_read hread, ← hcount]
    · rw [hgains.quads, Finset.union_eq_left.2 hnone]
  · rintro before doc after rfl hfew hnone hunused
    have hdoc : doc ∈ before ++ doc :: after := by simp
    obtain ⟨-, quads, hread⟩ := h.exists_read hd hdoc
    refine ⟨quads, hread, hd'.valid.keepsApart hread (hsubset doc hdoc quads hread) fun node hnode q hq hoccurs => ?_⟩
    rcases (h.mem_quads hd).1 hq with hold | ⟨other, hother, quads', hread', hq'⟩
    · exact absurd hoccurs (hunused node hnode q hold)
    · by_cases hsame : other ∈ before ++ after
      · obtain ⟨hformat, -⟩ := h.exists_read hd hother
        exact absurd hoccurs (Source.not_occursInQuad hformat (hnone other hsame) hfew hread' hnode q hq')
      · obtain rfl : other = doc := by
          simp only [List.mem_append, List.mem_cons, not_or] at hother hsame
          tauto
        rw [hread] at hread'
        rw [Except.ok.inj hread']
        exact hq'

end

/-! ### Two documents with a collection each -/

/-- A document with a collection of one item. -/
def oneItem (item : String) : Source where
  format := .turtle
  text := "<a:s> <a:p> ( <" ++ item ++ "> ) ."

/-- The quads of such a document. -/
def oneItemQuads (item : String) : List Quad :=
  [⟨.blank "riog00000001", firstTerm, .iri item, .defaultGraph⟩,
    ⟨.blank "riog00000001", restTerm, nilTerm, .defaultGraph⟩,
    ⟨.iri "a:s", .iri "a:p", .blank "riog00000001", .defaultGraph⟩]

private theorem read_oneItem : ∀ item ∈ ["a:x", "a:y"],
    (oneItem item).read = .ok (oneItemQuads item) ∧ (oneItem item).countAnonymous = 1 := by
  decide +kernel

private theorem isCollection_oneItem :
    (ofList (oneItemQuads "a:x")).IsCollection .defaultGraph [(.blank "riog00000001", .iri "a:x")] := by
  have hquads := quads_ofList (Format.isValid_of_read (read_oneItem "a:x" (by decide)).1)
  refine ⟨List.cons_ne_nil _ _, ⟨?_, ?_⟩, ⟨?_, ?_, ?_⟩, by simp, trivial⟩
  · rw [arcsTo, hquads]
    decide
  · rw [arcsTo, arcsFrom, hquads]
    decide
  · rw [arcsFrom, hquads]
    decide
  · rw [arcsFrom, hquads]
    decide
  · rw [arcsFrom, hquads]
    decide

private theorem isAnonymous_oneItem {item : String} (hitem : item ∈ ["a:x", "a:y"]) :
    (oneItem item).IsAnonymous (.blank "riog00000001") :=
  ⟨1, le_refl 1, (read_oneItem item hitem).2.ge, by decide⟩

/-- Nothing is stated about the empty list where all quads are those of such documents. -/
private theorem nilEnds_oneItem {d : Dataset} (h : ∀ q ∈ d.quads, ∃ item, q ∈ oneItemQuads item) : d.NilEnds := by
  intro q hq hnil
  obtain ⟨item, hmem⟩ := h q hq
  simp only [oneItemQuads, List.mem_cons, List.not_mem_nil, or_false] at hmem
  rcases hmem with rfl | rfl | rfl <;> exact absurd hnil (by simp [nilTerm, Vocabulary.Rdf.nil])

/-- A written label that looks like a generated one does not touch a collection. -/
theorem loadsAll_anonymous_one_item :
    let plain : Source := { format := .triG, text := "_:riog00000001 <a:p> <a:o> ." }
    ∃ d, LoadsAll {} [plain, oneItem "a:x"] d ∧
      d.IsCollection .defaultGraph [(.blank "riog00000001", .iri "a:x")] ∧
      ∃ d', d.load .turtle (oneItem "a:x").text none = (.ok 0, d') ∧ d'.quads = d.quads := by
  intro plain
  obtain ⟨hread, hcount⟩ := read_oneItem "a:x" (by decide)
  have hplain : plain.read = .ok [⟨.blank "riog00000001d", .iri "a:p", .iri "a:o", .defaultGraph⟩] ∧
      plain.countAnonymous = 0 := by
    decide +kernel
  have hdocs : ∀ doc ∈ [plain, oneItem "a:x"], doc.HasNodes ∧ ∃ quads, doc.read = .ok quads := by
    simp only [List.forall_mem_cons]
    exact ⟨⟨.inr rfl, _, hplain.1⟩, ⟨.inl rfl, _, hread⟩, by simp⟩
  obtain ⟨d, h⟩ := LoadsAll.exists_of_read {} hdocs
  have hempty : Reachable {} := .init (rfl : withSettings {} = .ok {})
  obtain ⟨hagain, -, hapart⟩ := hempty.loadsAll_anonymous h
  refine ⟨d, h, ?_, ?_⟩
  · have hunused : ∀ node, (oneItem "a:x").IsAnonymous node → ∀ q ∈ quads {}, ¬node.OccursInQuad q := by
      simp [Valid.quads_empty]
    obtain ⟨quads, hquads, hkept⟩ := hapart [plain] (oneItem "a:x") [] rfl (by omega) (by simpa using hplain.2) hunused
    rw [hread] at hquads
    rw [← Except.ok.inj hquads] at hkept
    exact hkept.isCollection _ _ isCollection_oneItem (by simpa using isAnonymous_oneItem (by decide))
  · obtain ⟨_, -, -, hload⟩ := hagain (oneItem "a:x") (by simp)
    exact hload

/-- Of two documents with a collection each, the second one spoils the collection of the first one: both of them begin
with the same node. -/
theorem not_loadsAll_anonymous :
    let node : Term := .blank "riog00000001"
    let alone := ofList (oneItemQuads "a:x")
    let ignoring : ExtractOptions := { ignoreErrors := true }
    (oneItem "a:x").read = .ok (oneItemQuads "a:x") ∧
      (∃ extraction, (alone.extractLists ignoring).1 = .ok extraction ∧ (node, [.iri "a:x"]) ∈ extraction.lists) ∧
      ∃ d d', LoadsAll {} [oneItem "a:x"] d ∧ LoadsAll d [oneItem "a:y"] d' ∧
        (oneItem "a:y").IsAnonymous node ∧ (∃ q ∈ d.quads, node.OccursInQuad q) ∧
        ∃ extraction, (d'.extractLists ignoring).1 = .ok extraction ∧ ∀ items, (node, items) ∉ extraction.lists := by
  intro node alone ignoring
  have hread := fun item hitem => (read_oneItem item hitem).1
  have hempty : Reachable {} := .init (rfl : withSettings {} = .ok {})
  have hloads : ∀ item ∈ ["a:x", "a:y"], ∀ d : Dataset, ∃ d', LoadsAll d [oneItem item] d' := by
    refine fun item hitem d => LoadsAll.exists_of_read d ?_
    simpa using ⟨.inl rfl, _, hread item hitem⟩
  have hvalid := Format.isValid_of_read (hread "a:x" (by decide))
  have hnil : alone.NilEnds := by
    refine nilEnds_oneItem fun q hq => ⟨"a:x", ?_⟩
    rwa [quads_ofList hvalid, List.mem_toFinset] at hq
  refine ⟨hread "a:x" (by decide), ?_, ?_⟩
  · exact isCollection_oneItem.exists_mem_lists (Reachable.ofList hvalid).valid.toConsistent hnil false
  · obtain ⟨d, h⟩ := hloads "a:x" (by decide) {}
    obtain ⟨d', h'⟩ := hloads "a:y" (by decide) d
    have hd := h.reachable hempty
    have hquads : ∀ q, q ∈ d.quads ↔ q ∈ oneItemQuads "a:x" := by
      intro q
      simp [h.mem_quads hempty, Valid.quads_empty, hread]
    have hquads' : ∀ q, q ∈ d'.quads ↔ q ∈ oneItemQuads "a:x" ∨ q ∈ oneItemQuads "a:y" := by
      intro q
      simp [h'.mem_quads hd, hquads, hread]
    have hnil' : d'.NilEnds := nilEnds_oneItem fun q hq => ((hquads' q).1 hq).elim (⟨_, ·⟩) (⟨_, ·⟩)
    obtain ⟨extraction, hextract, hextraction, -⟩ := (h'.reachable hd).valid.toConsistent.exists_isExtraction hnil' false
    refine ⟨d, d', h, h', isAnonymous_oneItem (by decide), ?_, extraction, hextract, fun items hmem => ?_⟩
    · exact ⟨_, (hquads _).2 List.mem_cons_self, _, List.mem_cons_self, rfl⟩
    · -- the first cell would have two items
      obtain ⟨graph, cells, hcollection, hstart, -⟩ := (hextraction.mem_lists node items).1 hmem
      obtain ⟨⟨cell, item⟩, cells, rfl⟩ := List.exists_cons_of_ne_nil hcollection.ne_nil
      obtain rfl : node = cell := hstart
      have hitem : ∀ x ∈ ["a:x", "a:y"], Term.iri x = item := by
        intro x hx
        have hmem : (⟨node, firstTerm, .iri x, .defaultGraph⟩ : Quad) ∈ d'.quads := by
          rw [hquads']
          revert x
          decide
        exact congrArg Quad.object (hcollection.chained.1.eq_of_first hmem rfl rfl)
      exact absurd ((hitem "a:x" (by decide)).trans (hitem "a:y" (by decide)).symm) (by decide)

end Dataset

end RdfDataset
