import RdfDataset.Document.Reader
import RdfDataset.Proofs.Document.Line

/-!
# What is read of a document

All documents are read as valid quads, which can be written in the format they have been read in.  While a Turtle or
TriG document is read, this holds of the quads so far, and all terms at hand can stand where they are put.

* `Term.IsSubject`, `Term.IsObject`: the terms that subjects and objects are read as; `Term.IsFlat`: those of them in
  which nothing is nested.
* `Document.Turtle.Keeps`: a step keeps what holds of the quads so far, and its result satisfies a condition; there is
  one lemma for each step.
* `Format.sound_of_read`: the quads of a document of any format are valid, and this format can express them.
* `Format.read_writable`: so they are written.
-/

namespace RdfDataset

/-! ### Terms in their places -/

namespace Term

/-- A term that can be the subject of a statement, with language tags as they are kept. -/
structure IsSubject (t : Term) : Prop where
  lowered : t.IsLowered
  node : t.IsNode

/-- A term that can be the object of a statement, with language tags as they are kept. -/
structure IsObject (t : Term) : Prop where
  lowered : t.IsLowered
  node : t.IsNode ∨ t.isLiteral

/-- An IRI, a blank node, or a literal whose language tag is as it is kept. -/
def IsFlat : Term → Prop
  | .iri _ | .blank _ => True
  | .literal l => l.IsLowered
  | _ => False

variable {t : Term}

theorem isSubject_of_isName (h : t.isIri ∨ t.isBlank) : t.IsSubject := by
  rcases h with h | h
  · obtain ⟨text, rfl⟩ := isIri_iff.1 h
    exact ⟨trivial, trivial⟩
  · obtain ⟨label, rfl⟩ := isBlank_iff.1 h
    exact ⟨trivial, trivial⟩

theorem IsSubject.isObject (h : t.IsSubject) : t.IsObject :=
  ⟨h.lowered, .inl h.node⟩

/-- Of the objects, only the literals are no subjects. -/
theorem IsObject.isSubject (h : t.IsObject) (hliteral : ¬t.isLiteral) : t.IsSubject :=
  ⟨h.lowered, h.node.resolve_right hliteral⟩

theorem isFlat_of_isIri (h : t.isIri) : t.IsFlat := by
  obtain ⟨text, rfl⟩ := isIri_iff.1 h
  trivial

theorem isFlat_of_isBlank (h : t.isBlank) : t.IsFlat := by
  obtain ⟨label, rfl⟩ := isBlank_iff.1 h
  trivial

theorem IsFlat.isObject (h : t.IsFlat) : t.IsObject := by
  cases t with
  | iri text => exact ⟨trivial, .inl trivial⟩
  | blank label => exact ⟨trivial, .inl trivial⟩
  | literal l => exact ⟨h, .inr rfl⟩
  | var name => exact h.elim
  | defaultGraph => exact h.elim
  | quoted s p o g => exact h.elim

/-- Where nothing is nested and there is no literal, something is named. -/
theorem IsFlat.isName (h : t.IsFlat) (hliteral : ¬t.isLiteral) : t.isIri ∨ t.isBlank := by
  cases t with
  | iri text => exact .inl rfl
  | blank label => exact .inr rfl
  | literal l => exact absurd rfl hliteral
  | var name => exact h.elim
  | defaultGraph => exact h.elim
  | quoted s p o g => exact h.elim

/-- A statement that has been read can be quoted. -/
theorem IsSubject.quoted {s p o : Term} (hs : s.IsSubject) (hp : p.isIri) (ho : o.IsObject) :
    (Term.quoted s p o .defaultGraph).IsSubject := by
  have hp' := isSubject_of_isName (.inl hp)
  exact ⟨⟨hs.lowered, hp'.lowered, ho.lowered, trivial⟩, hs.node, hp, ho.node, rfl⟩

end Term

namespace Document.Turtle

/-- The quads so far are valid and can be written, and the format has the current graph. -/
structure Progress.Sound (format : Format) (p : Progress) : Prop where
  graph : p.graph.isDefaultGraph ∨ format.hasGraphs ∧ (p.graph.isIri ∨ p.graph.isBlank)
  quads : ∀ q ∈ p.quads, q.IsValid ∧ q.IsWritable format

/-- A step keeps what is known of the progress, and its result satisfies a condition. -/
def Keeps {α : Type} (format : Format) (m : Reading α) (P : α → Prop) : Prop :=
  ∀ p a p', p.Sound format → m.run p = .ok (a, p') → p'.Sound format ∧ P a

/-- A step about whose result nothing is said. -/
abbrev KeepsSound {α : Type} (format : Format) (m : Reading α) : Prop :=
  Keeps format m fun _ => True

namespace Keeps

variable {format : Format} {α β : Type}

theorem pure {P : α → Prop} {a : α} (h : P a) : Keeps format (Pure.pure a) P := by
  intro p b p' hp hrun
  obtain ⟨rfl, rfl⟩ := Prod.mk.inj (Except.ok.inj hrun)
  exact ⟨hp, h⟩

theorem bind {m : Reading α} {f : α → Reading β} {P : α → Prop} {Q : β → Prop} (hm : Keeps format m P)
    (hf : ∀ a, P a → Keeps format (f a) Q) : Keeps format (m >>= f) Q := by
  intro p b p' hp h
  rw [StateT.run_bind, bind_eq_ok] at h
  obtain ⟨⟨a, p₁⟩, ha, hb⟩ := h
  obtain ⟨hp₁, hP⟩ := hm p a p₁ hp ha
  exact hf a hP p₁ b p' hp₁ hb

theorem weaken {m : Reading α} {P Q : α → Prop} (hm : Keeps format m P) (h : ∀ a, P a → Q a) : Keeps format m Q := by
  intro p a p' hp hrun
  obtain ⟨hp', hP⟩ := hm p a p' hp hrun
  exact ⟨hp', h a hP⟩

theorem map {m : Reading α} {f : α → β} {P : α → Prop} {Q : β → Prop} (hm : Keeps format m P)
    (hf : ∀ a, P a → Q (f a)) : Keeps format (f <$> m) Q := by
  rw [map_eq_pure_bind]
  exact hm.bind fun a ha => .pure (hf a ha)

theorem malformed {P : α → Prop} : Keeps format malformed P := by
  intro p a p' hp hrun
  cases hrun

theorem get : Keeps format get (Progress.Sound format) := by
  intro p a p' hp hrun
  obtain ⟨rfl, rfl⟩ := Prod.mk.inj (Except.ok.inj hrun)
  exact ⟨hp, hp⟩

theorem modify {f : Progress → Progress} (h : ∀ p, p.Sound format → (f p).Sound format) :
    KeepsSound format (modify f) := by
  intro p a p' hp hrun
  obtain ⟨rfl, rfl⟩ := Prod.mk.inj (Except.ok.inj hrun)
  exact ⟨h p hp, trivial⟩

theorem upcoming : KeepsSound format upcoming :=
  get.bind fun _ _ => .pure trivial

theorem proceed (rest : List Char) : KeepsSound format (proceed rest) :=
  .modify fun _ hp => ⟨hp.graph, hp.quads⟩

theorem token {read : List Char → Option (α × List Char)} {P : α → Prop} (h : Reads read P) :
    Keeps format (token read) P := by
  refine upcoming.bind fun cs _ => ?_
  split
  · rename_i a rest hread
    exact (proceed rest).bind fun _ _ => .pure (h cs a rest hread)
  · exact malformed

theorem anyToken (read : List Char → Option (α × List Char)) : KeepsSound format (Turtle.token read) :=
  token fun _ _ _ _ => trivial

theorem skip : KeepsSound format skip :=
  upcoming.bind fun _ _ => proceed _

theorem accept (mark : String) : KeepsSound format (accept mark) := by
  refine upcoming.bind fun cs _ => ?_
  split
  · exact (proceed _).bind fun _ _ => .pure trivial
  · exact .pure trivial

theorem expect (mark : String) : KeepsSound format (expect mark) := by
  refine (accept mark).bind fun isThere _ => ?_
  split
  · exact malformed
  · exact .pure trivial

/-- Where something is refused, the next step is made only if it is not there. -/
theorem refuse {isThere : Bool} {m : Reading β} {P : β → Prop} (hm : ¬isThere → Keeps format m P) :
    Keeps format (do
      if isThere then Turtle.malformed
      m) P := by
  dsimp only
  split
  · exact malformed.bind (P := fun _ => False) fun _ h => h.elim
  · rename_i hnot
    exact hm hnot

theorem newBlank : Keeps format newBlank fun t => t.isBlank := by
  refine get.bind fun p _ => ?_
  dsimp only
  refine (modify ?_).bind fun _ _ => .pure ?_
  · exact fun _ hp => ⟨hp.graph, hp.quads⟩
  · rfl

/-- What is made of a report is valid. -/
theorem emit {s p o : Term} (hs : s.IsSubject) (hp : p.isIri) (ho : o.IsObject) : KeepsSound format (emit s p o) := by
  refine get.bind fun progress hprogress => ?_
  dsimp only
  split
  · rintro _ _ _ _ ⟨⟩
  · rename_i q' hconvert
    refine modify fun other hother => ⟨hother.graph, fun q hq => ?_⟩
    rcases List.mem_cons.1 hq with rfl | hq
    · have hgraph : progress.graph.IsLowered := by
        rcases hprogress.graph with hdefault | ⟨-, hname⟩
        · rw [Term.isDefaultGraph_iff.1 hdefault]
          trivial
        · exact (Term.isSubject_of_isName hname).lowered
      have hlowered : Report.IsLowered ⟨s, p, o, progress.graph⟩ :=
        ⟨hs.lowered, (Term.isSubject_of_isName (.inl hp)).lowered, ho.lowered, hgraph⟩
      obtain ⟨rfl, rfl, rfl, hg⟩ := Report.mk.inj (hlowered.eq_of_convert hconvert)
      exact ⟨Report.isValid_of_convert hconvert, hs.node, hp, ho.node, hg ▸ hprogress.graph⟩
    · exact hother.quads q hq

/-! ### Terms -/

theorem readIriTerm : Keeps format readIriTerm fun t => t.isIri := by
  refine get.bind fun p _ => ?_
  split
  · exact (anyToken _).map fun _ _ => rfl
  · exact (anyToken _).map fun _ _ => rfl

theorem readBlankTerm : Keeps format readBlankTerm Term.IsFlat :=
  (expect _).bind fun _ _ => (anyToken _).bind fun _ _ => .pure trivial

theorem readQuotedLiteral : Keeps format readQuotedLiteral Term.IsFlat := by
  refine get.bind fun p _ => ?_
  exact (anyToken _).bind fun value _ => (token (reads_readLiteralEnd _ _ value)).map fun _ h => h

theorem reads_readBoolean : Reads readBoolean Literal.IsLowered := by
  intro cs l rest h
  obtain ⟨word, -, heq⟩ := Option.map_eq_some_iff.1 h
  rw [← (Prod.mk.inj heq).1]
  exact Literal.isLowered_ofDatatype _ _

theorem reads_readNumber : Reads readNumber Literal.IsLowered := by
  intro cs l rest h
  unfold readNumber at h
  dsimp only at h
  split at h
  · cases h
  · split at h
    · split at h
      · split at h
        · cases h
        · rw [← (Prod.mk.inj (Option.some.inj h)).1]
          exact Literal.isLowered_ofDatatype _ _
      · rw [← (Prod.mk.inj (Option.some.inj h)).1]
        exact Literal.isLowered_ofDatatype _ _
    · rw [← (Prod.mk.inj (Option.some.inj h)).1]
      exact Literal.isLowered_ofDatatype _ _

theorem readWord : Keeps format readWord Term.IsFlat := by
  refine upcoming.bind fun cs _ => ?_
  split
  · rename_i l rest hread
    exact (proceed rest).bind fun _ _ => .pure (reads_readBoolean _ _ _ hread)
  · exact readIriTerm.weaken fun _ => Term.isFlat_of_isIri

theorem readSimpleTerm : Keeps format readSimpleTerm Term.IsFlat := by
  refine upcoming.bind fun cs _ => ?_
  split
  · exact readBlankTerm
  · exact readQuotedLiteral
  · exact readQuotedLiteral
  · split
    · exact (token reads_readNumber).map fun _ h => h
    · exact readWord
  · exact malformed

theorem readVerb : Keeps format readVerb fun t => t.isIri := by
  refine upcoming.bind fun cs _ => ?_
  split
  · split
    · exact (proceed _).bind fun _ _ => .pure rfl
    · exact readIriTerm
  · exact readIriTerm

theorem readFlatTerm : Keeps format readFlatTerm Term.IsFlat := by
  refine upcoming.bind fun cs _ => ?_
  split
  · exact (proceed _).bind fun _ _ => newBlank.weaken fun _ => Term.isFlat_of_isBlank
  · exact readSimpleTerm

theorem readQuoted (depth : Nat) : Keeps format (Turtle.readQuoted depth) Term.IsSubject := by
  induction depth with
  | zero => exact malformed
  | succ depth ih =>
    rw [Turtle.readQuoted]
    -- subject and object are read in the same way
    generalize hread : (Turtle.upcoming >>= _ : Reading Term) = readPart
    have hpart : Keeps format readPart Term.IsObject := by
      rw [← hread]
      refine upcoming.bind fun cs _ => ?_
      split
      · exact ih.weaken fun _ => Term.IsSubject.isObject
      · exact readFlatTerm.weaken fun _ => Term.IsFlat.isObject
    refine (expect _).bind fun _ _ => skip.bind fun _ _ => hpart.bind fun s hs => refuse fun hliteral => ?_
    have hsubject := hs.isSubject hliteral
    refine skip.bind fun _ _ => readVerb.bind fun p hp => skip.bind fun _ _ => hpart.bind fun o ho => ?_
    exact skip.bind fun _ _ => (expect _).bind fun _ _ => .pure (hsubject.quoted hp ho)

/-! ### Lists of predicates and objects -/

/-- What holds of the lists of predicates and objects that are bounded by a number, which each call lowers. -/
theorem readPredicates_and_readObjects {inner : Reading Term} (h : Keeps format inner Term.IsObject) (bound : Nat) :
    (∀ s : Term, s.IsSubject → KeepsSound format (Turtle.readPredicates inner bound s)) ∧
      ∀ s p : Term, s.IsSubject → p.isIri → KeepsSound format (Turtle.readObjects inner bound s p) := by
  induction bound with
  | zero => exact ⟨fun _ _ => malformed, fun _ _ _ _ => malformed⟩
  | succ bound ih =>
    obtain ⟨hpredicates, hobjects⟩ := ih
    constructor
    · intro s hs
      rw [Turtle.readPredicates]
      refine readVerb.bind fun p hp => skip.bind fun _ _ => (hobjects s p hs hp).bind fun _ _ => ?_
      refine (accept _).bind fun _ _ => ?_
      split
      · refine upcoming.bind fun _ _ => (proceed _).bind fun _ _ => upcoming.bind fun _ _ => ?_
        split
        · exact hpredicates s hs
        · exact .pure trivial
      · exact .pure trivial
    · intro s p hs hp
      rw [Turtle.readObjects]
      have hmore : KeepsSound format (do
          if ← Turtle.accept "," then
            Turtle.skip
            Turtle.readObjects inner bound s p) := by
        refine (accept _).bind fun _ _ => ?_
        split
        · exact skip.bind fun _ _ => hobjects s p hs hp
        · exact .pure trivial
      refine h.bind fun o ho => (emit hs hp ho).bind fun _ _ => skip.bind fun _ _ => (accept _).bind fun _ _ => ?_
      dsimp only
      split
      · refine skip.bind fun _ _ => (hpredicates _ (hs.quoted hp ho)).bind fun _ _ => ?_
        exact (expect _).bind fun _ _ => skip.bind fun _ _ => hmore
      · exact hmore

theorem readPredicates {inner : Reading Term} (h : Keeps format inner Term.IsObject) (bound : Nat) {s : Term}
    (hs : s.IsSubject) : KeepsSound format (Turtle.readPredicates inner bound s) :=
  (readPredicates_and_readObjects h bound).1 s hs

/-! ### Terms with inner statements -/

theorem readProperties {inner : Reading Term} (h : Keeps format inner Term.IsObject) (bound : Nat) {node : Term}
    (hnode : node.IsSubject) : KeepsSound format (Turtle.readProperties inner bound node) := by
  induction bound with
  | zero => exact malformed
  | succ bound ih =>
    rw [Turtle.readProperties]
    refine (readPredicates h _ hnode).bind fun _ _ => (accept _).bind fun _ _ => ?_
    split
    · exact ih
    · exact .pure trivial

theorem readPropertyList {inner : Reading Term} (h : Keeps format inner Term.IsObject) :
    Keeps format (Turtle.readPropertyList inner) Term.IsSubject := by
  refine (expect _).bind fun _ _ => skip.bind fun _ _ => newBlank.bind fun node hblank => ?_
  have hnode := Term.isSubject_of_isName (.inr hblank)
  exact upcoming.bind fun _ _ => (readProperties h _ hnode).bind fun _ _ => .pure hnode

theorem readItems {inner : Reading Term} (h : Keeps format inner Term.IsObject) (bound : Nat) {cell : Term}
    (hcell : cell.isBlank) : KeepsSound format (Turtle.readItems inner bound cell) := by
  induction bound generalizing cell with
  | zero => exact malformed
  | succ bound ih =>
    rw [Turtle.readItems]
    have hsubject := Term.isSubject_of_isName (.inr hcell)
    refine h.bind fun item hitem => (emit hsubject rfl hitem).bind fun _ _ => skip.bind fun _ _ => ?_
    refine (accept _).bind fun _ _ => ?_
    split
    · exact emit hsubject rfl (Term.isSubject_of_isName (.inl rfl)).isObject
    · refine newBlank.bind fun next hnext => ?_
      exact (emit hsubject rfl (Term.isSubject_of_isName (.inr hnext)).isObject).bind fun _ _ => ih hnext

theorem readCollection {inner : Reading Term} (h : Keeps format inner Term.IsObject) :
    Keeps format (Turtle.readCollection inner) Term.IsSubject := by
  refine (expect _).bind fun _ _ => skip.bind fun _ _ => (accept _).bind fun _ _ => ?_
  split
  · exact .pure (Term.isSubject_of_isName (.inl rfl))
  · refine newBlank.bind fun cell hcell => upcoming.bind fun _ _ => ?_
    exact (readItems h _ hcell).bind fun _ _ => .pure (Term.isSubject_of_isName (.inr hcell))

theorem readTerm (depth : Nat) : Keeps format (Turtle.readTerm depth) Term.IsObject := by
  induction depth with
  | zero =>
    refine upcoming.bind fun _ _ => refuse fun _ => ?_
    exact readFlatTerm.weaken fun _ => Term.IsFlat.isObject
  | succ depth ih =>
    refine upcoming.bind fun _ _ => ?_
    split
    · split
      · exact (readCollection ih).weaken fun _ => Term.IsSubject.isObject
      · exact (readPropertyList ih).weaken fun _ => Term.IsSubject.isObject
      · exact (readQuoted _).weaken fun _ => Term.IsSubject.isObject
    · exact readFlatTerm.weaken fun _ => Term.IsFlat.isObject

/-! ### Statements -/

theorem readDescription {s : Term} (hs : s.IsSubject) : KeepsSound format (Turtle.readDescription s) :=
  upcoming.bind fun _ _ => readPredicates (readTerm _) _ hs

theorem readTriples : KeepsSound format readTriples := by
  refine upcoming.bind fun _ _ => (readTerm _).bind fun s hs => refuse fun hliteral => ?_
  refine skip.bind fun _ _ => upcoming.bind fun _ _ => ?_
  dsimp only
  split
  · exact readDescription (hs.isSubject hliteral)
  · exact .pure trivial

/-! ### Blocks -/

theorem bindPrefix : KeepsSound format bindPrefix := by
  refine skip.bind fun _ _ => (anyToken _).bind fun name _ => skip.bind fun _ _ => get.bind fun _ _ => ?_
  exact (anyToken _).bind fun iri _ => modify fun _ hp => ⟨hp.graph, hp.quads⟩

theorem setBase : KeepsSound format setBase := by
  refine skip.bind fun _ _ => get.bind fun _ _ => ?_
  exact (anyToken _).bind fun base _ => modify fun _ hp => ⟨hp.graph, hp.quads⟩

theorem endDirective (withStop : Bool) : KeepsSound format (followDirective.endDirective withStop) := by
  unfold followDirective.endDirective
  split
  · exact skip.bind fun _ _ => expect _
  · exact .pure trivial

theorem followDirective (directive : Directive) : KeepsSound format (Turtle.followDirective directive) := by
  cases directive with
  | bindPrefix withStop => exact bindPrefix.bind fun _ _ => endDirective _
  | setBase withStop => exact setBase.bind fun _ _ => endDirective _

theorem readStatement : KeepsSound format readStatement :=
  readTriples.bind fun _ _ => skip.bind fun _ _ => expect _

theorem readTurtleBlock : KeepsSound format readTurtleBlock := by
  refine upcoming.bind fun _ _ => ?_
  split
  · exact (proceed _).bind fun _ _ => followDirective _
  · exact readStatement

theorem readGraphStatements (bound : Nat) : KeepsSound format (Turtle.readGraphStatements bound) := by
  induction bound with
  | zero => exact malformed
  | succ bound ih =>
    refine skip.bind fun _ _ => (accept _).bind fun _ _ => ?_
    split
    · refine readTriples.bind fun _ _ => skip.bind fun _ _ => (accept _).bind fun _ _ => ?_
      split
      · exact ih
      · exact expect _
    · exact .pure trivial

theorem readGraph {name : Term} (hname : name.isDefaultGraph ∨ format.hasGraphs ∧ (name.isIri ∨ name.isBlank)) :
    KeepsSound format (Turtle.readGraph name) := by
  refine (expect _).bind fun _ _ => (modify ?_).bind fun _ _ => upcoming.bind fun _ _ => ?_
  · exact fun _ hp => ⟨hname, hp.quads⟩
  · exact (readGraphStatements _).bind fun _ _ => modify fun _ hp => ⟨.inl rfl, hp.quads⟩

theorem readLabelTerm : Keeps format readLabelTerm fun t => t.isIri ∨ t.isBlank :=
  readFlatTerm.bind fun _ ht => refuse fun hliteral => .pure (ht.isName hliteral)

theorem readGraphOrStatement (hgraphs : format.hasGraphs) : KeepsSound format readGraphOrStatement := by
  refine readLabelTerm.bind fun t ht => skip.bind fun _ _ => upcoming.bind fun _ _ => ?_
  split
  · exact readGraph (.inr ⟨hgraphs, ht⟩)
  · exact (readDescription (Term.isSubject_of_isName ht)).bind fun _ _ => skip.bind fun _ _ => expect _

theorem readTrigBlock (hgraphs : format.hasGraphs) : KeepsSound format readTrigBlock := by
  refine upcoming.bind fun _ _ => ?_
  split
  · exact (proceed _).bind fun _ _ => followDirective _
  · refine (proceed _).bind fun _ _ => skip.bind fun _ _ => readLabelTerm.bind fun _ hname => ?_
    exact skip.bind fun _ _ => readGraph (.inr ⟨hgraphs, hname⟩)
  · split
    · exact readGraph (.inl rfl)
    · split
      · exact readStatement
      · exact readGraphOrStatement hgraphs

theorem readBlocks {readBlock : Reading Unit} (h : KeepsSound format readBlock) (bound : Nat) :
    KeepsSound format (Turtle.readBlocks readBlock bound) := by
  induction bound with
  | zero => exact malformed
  | succ bound ih =>
    refine skip.bind fun _ _ => upcoming.bind fun _ _ => ?_
    split
    · exact h.bind fun _ _ => ih
    · exact .pure trivial

end Keeps

/-- The quads of a document are valid and can be written. -/
theorem sound_of_readDocument {format : Format} {readBlock : Reading Unit} (hblock : KeepsSound format readBlock)
    {base : Option Iri.Reference} {text : List Char} {quads : List Quad}
    (h : readDocument readBlock base text = .ok quads) : ∀ q ∈ quads, q.IsValid ∧ q.IsWritable format := by
  obtain ⟨⟨_, p⟩, hrun, hquads⟩ := bind_eq_ok.1 h
  rw [← pure_eq_ok.1 hquads]
  intro q hq
  have hstart : Progress.Sound format { rest := text, base } := by
    refine ⟨.inl rfl, fun q hq => ?_⟩
    cases hq
  exact (Keeps.readBlocks hblock _ _ _ _ hstart hrun).1.quads q (List.mem_reverse.1 hq)

end Document.Turtle

namespace Format

variable {format : Format} {text : String} {base : Option String} {quads : List Quad}

/-- A base that can be read is the same, whatever its errors are taken for. -/
theorem readBase_eq_ok {reference : Option Iri.Reference} :
    base.mapM (fun iri => (Iri.readAbsolute iri.toList).mapError ReadError.invalidBase) = .ok reference ↔
      base.mapM (fun iri => Iri.readAbsolute iri.toList) = .ok reference := by
  cases base with
  | none => simp
  | some iri => simp

theorem readBase_eq_error {e : ReadError} :
    base.mapM (fun iri => (Iri.readAbsolute iri.toList).mapError ReadError.invalidBase) = .error e ↔
      ∃ iri reason, base = some iri ∧ Iri.readAbsolute iri.toList = .error reason ∧ .invalidBase reason = e := by
  cases base with
  | none => simp
  | some iri => simp

open Document in
/-- A reader reports valid quads only, and those that can be written in its format. -/
theorem sound_of_read (h : format.read text base = .ok quads) : ∀ q ∈ quads, q.IsValid ∧ q.IsWritable format := by
  obtain ⟨base, -, h⟩ := bind_eq_ok.1 h
  cases format with
  | nTriples =>
    have h : readLines Format.nTriples.hasGraphs text.toList = .ok quads := h
    exact fun q hq => ⟨isValid_of_readLines h q hq, isWritable_of_readLines h q hq⟩
  | nQuads =>
    have h : readLines Format.nQuads.hasGraphs text.toList = .ok quads := h
    exact fun q hq => ⟨isValid_of_readLines h q hq, isWritable_of_readLines h q hq⟩
  | turtle => exact Turtle.sound_of_readDocument Turtle.Keeps.readTurtleBlock h
  | triG => exact Turtle.sound_of_readDocument (Turtle.Keeps.readTrigBlock rfl) h

theorem isValid_of_read (h : format.read text base = .ok quads) : ∀ q ∈ quads, q.IsValid :=
  fun q hq => (sound_of_read h q hq).1

/-- For every text, format and base: the quads that are read are valid, they can be expressed in the format, and so
they are written in it. -/
theorem read_writable (h : format.read text base = .ok quads) :
    (∀ q ∈ quads, q.IsValid ∧ q.IsWritable format) ∧ ∃ output, format.write quads = .ok output := by
  have hsound := sound_of_read h
  exact ⟨hsound, _, write_eq_ok.2 ⟨fun q hq => (hsound q hq).2, rfl⟩⟩

/-- A graph with a collection, a node without a label and a quoted triple whose tag is in upper case. -/
theorem read_writable_graph :
    let text := "@prefix e: <a:> . e:g \x7b << _:a e:p \"\"@EN >> e:q ( [] ) \x7d"
    let quads : List Quad := [⟨.blank "riog00000001", .iri Vocabulary.Rdf.first, .blank "riog00000002", .iri "a:g"⟩,
      ⟨.blank "riog00000001", .iri Vocabulary.Rdf.rest, .iri Vocabulary.Rdf.nil, .iri "a:g"⟩,
      ⟨.quoted (.blank "a") (.iri "a:p") (.literal (.tagged "" "en")) .defaultGraph, .iri "a:q", .blank "riog00000001",
        .iri "a:g"⟩]
    Format.triG.read text none = .ok quads ∧ (∀ q ∈ quads, q.IsValid ∧ q.IsWritable .triG) ∧
      ∃ output, Format.triG.write quads = .ok output := by
  intro text quads
  have hread : Format.triG.read text none = .ok quads := by decide +kernel
  exact ⟨hread, read_writable hread⟩

end Format

end RdfDataset
