import RdfDataset.Proofs.Document.Turtle.KeepApart
import RdfDataset.Proofs.Document.Turtle.Suffix

/-!
# Where labels come from

While a Turtle or TriG document is read, every blank node gets its label in one of two ways: it is generated, with the
next number, or it is written in the document and kept apart.  And nothing is read twice.

* `Document.Turtle.IsLabel`: the labels of a document in which some nodes have been labelled.
* `Document.Turtle.MovesFrom`: a step reads on, labels more nodes or none, and uses these labels only; there is one
  lemma for each step.
* `Document.Turtle.Moves.readBlocks`: this is what reading a whole document does.
-/

namespace RdfDataset

open Document.Turtle

/-! ### Labels -/

/-- A label is one of the first generated ones, or has been written and kept apart. -/
def Document.Turtle.IsLabel (n : Nat) (label : String) : Prop :=
  (∃ i, 1 ≤ i ∧ i ≤ n ∧ label = generatedLabel i) ∨ ∃ written, label = keepApart written

theorem Document.Turtle.IsLabel.mono {m n : Nat} (h : m ≤ n) {label : String} (hlabel : IsLabel m label) :
    IsLabel n label := by
  rcases hlabel with ⟨i, hpos, hle, hi⟩ | hwritten
  · exact .inl ⟨i, hpos, hle.trans h, hi⟩
  · exact .inr hwritten

/-- All blank nodes at any depth of a term have such labels. -/
def Term.LabelledBy (n : Nat) (t : Term) : Prop :=
  ∀ label, (Term.blank label).OccursIn t → IsLabel n label

/-- So have those of a quad. -/
def Quad.LabelledBy (n : Nat) (q : Quad) : Prop :=
  ∀ label, (Term.blank label).OccursInQuad q → IsLabel n label

namespace Term

variable {m n : Nat} {s p o g : Term}

theorem LabelledBy.mono (h : m ≤ n) (hs : s.LabelledBy m) : s.LabelledBy n :=
  fun label hoccurs => (hs label hoccurs).mono h

theorem labelledBy_iri (n : Nat) (text : String) : (Term.iri text).LabelledBy n := by
  intro label h
  cases h

theorem labelledBy_literal (n : Nat) (l : Literal) : (Term.literal l).LabelledBy n := by
  intro label h
  cases h

theorem labelledBy_defaultGraph (n : Nat) : Term.defaultGraph.LabelledBy n := by
  intro label h
  cases h

theorem labelledBy_blank {label : String} (h : IsLabel n label) : (Term.blank label).LabelledBy n := by
  intro other hother
  rw [Term.blank.inj hother]
  exact h

theorem LabelledBy.quoted (hs : s.LabelledBy n) (hp : p.LabelledBy n) (ho : o.LabelledBy n) (hg : g.LabelledBy n) :
    (Term.quoted s p o g).LabelledBy n := by
  rintro label (h | h | h | h | h)
  · cases h
  · exact hs label h
  · exact hp label h
  · exact ho label h
  · exact hg label h

/-- The term that is made of a reported one has its labels. -/
theorem LabelledBy.of_convert {t t' : Term} (ht : t.LabelledBy n) (h : t.convert = .ok t') : t'.LabelledBy n := by
  induction t generalizing t' with
  | iri text =>
    rw [← (iri?_eq_ok.1 h).2]
    exact ht
  | blank label =>
    rw [← (blank?_eq_ok.1 h).2]
    exact ht
  | var name =>
    rw [← (var?_eq_ok.1 h).2]
    exact ht
  | defaultGraph =>
    rw [← Except.ok.inj h]
    exact ht
  | literal l =>
    obtain ⟨l', -, rfl⟩ := map_eq_ok.1 h
    exact labelledBy_literal n l'
  | quoted s p o g ihs ihp iho ihg =>
    obtain ⟨g', s', p', o', hg, hs, hp, ho, rfl⟩ := convert_quoted_eq_ok.1 h
    exact .quoted (ihs (fun label h => ht label (.inr (.inl h))) hs)
      (ihp (fun label h => ht label (.inr (.inr (.inl h)))) hp)
      (iho (fun label h => ht label (.inr (.inr (.inr (.inl h))))) ho)
      (ihg (fun label h => ht label (.inr (.inr (.inr (.inr h))))) hg)

end Term

theorem Quad.LabelledBy.mono {m n : Nat} (h : m ≤ n) {q : Quad} (hq : q.LabelledBy m) : q.LabelledBy n :=
  fun label hoccurs => (hq label hoccurs).mono h

theorem Quad.labelledBy {n : Nat} {q : Quad} (hs : q.subject.LabelledBy n) (hp : q.predicate.LabelledBy n)
    (ho : q.object.LabelledBy n) (hg : q.graph.LabelledBy n) : q.LabelledBy n := by
  rintro label ⟨t, ht, hoccurs⟩
  simp only [List.mem_cons, List.not_mem_nil, or_false] at ht
  rcases ht with rfl | rfl | rfl | rfl
  · exact hs label hoccurs
  · exact hp label hoccurs
  · exact ho label hoccurs
  · exact hg label hoccurs

namespace Document.Turtle

/-! ### Steps -/

/-- The labels in the quads so far and in the name of the current graph are known. -/
structure Progress.Labelled (p : Progress) : Prop where
  graph : p.graph.LabelledBy p.labelled
  quads : ∀ q ∈ p.quads, q.LabelledBy p.labelled

theorem Progress.Labelled.start (text : List Char) (base : Option Iri.Reference) :
    Progress.Labelled { rest := text, base } :=
  ⟨Term.labelledBy_defaultGraph 0, fun _ hq => absurd hq List.not_mem_nil⟩

/-- In front of some text, and with some nodes labelled, a step leaves an end of the text, labels more nodes or none,
and uses known labels only.  A condition holds of the number of labelled nodes then and the result. -/
def MovesFrom {α : Type} (n : Nat) (cs : List Char) (m : Reading α) (P : Nat → α → Prop) : Prop :=
  ∀ p a p', p.rest = cs → n ≤ p.labelled → p.Labelled → m.run p = .ok (a, p') →
    p'.Labelled ∧ p'.rest <:+ cs ∧ p.labelled ≤ p'.labelled ∧ P p'.labelled a

/-- A step does so in front of any text. -/
abbrev Moves {α : Type} (n : Nat) (m : Reading α) (P : Nat → α → Prop) : Prop :=
  ∀ cs, MovesFrom n cs m P

/-- A step about whose result nothing is said. -/
abbrev MovesOn {α : Type} (n : Nat) (m : Reading α) : Prop :=
  Moves n m fun _ _ => True

/-- A step whose result is a term. -/
abbrev MovesTerm (n : Nat) (m : Reading Term) : Prop :=
  Moves n m fun k t => t.LabelledBy k

theorem run_upcoming_bind {α : Type} (f : List Char → Reading α) (p : Progress) :
    (upcoming >>= f).run p = (f p.rest).run p :=
  rfl

namespace MovesFrom

variable {α β : Type} {k n : Nat} {cs : List Char}

theorem pure {P : Nat → α → Prop} {a : α} (h : ∀ k, n ≤ k → P k a) : MovesFrom n cs (Pure.pure a) P := by
  intro p b p' hrest hn hp hrun
  obtain ⟨rfl, rfl⟩ := Prod.mk.inj (Except.ok.inj hrun)
  exact ⟨hp, hrest ▸ List.suffix_rfl, le_refl _, h _ hn⟩

theorem bind {m : Reading α} {f : α → Reading β} {P : Nat → α → Prop} {Q : Nat → β → Prop} (hm : MovesFrom n cs m P)
    (hf : ∀ k a, n ≤ k → P k a → Moves k (f a) Q) : MovesFrom n cs (m >>= f) Q := by
  intro p b p' hrest hn hp h
  rw [StateT.run_bind, bind_eq_ok] at h
  obtain ⟨⟨a, p₁⟩, ha, hb⟩ := h
  obtain ⟨hp₁, hsuffix, hle, hP⟩ := hm p a p₁ hrest hn hp ha
  obtain ⟨hp', hsuffix', hle', hQ⟩ := hf _ a (hn.trans hle) hP _ p₁ b p' rfl (le_refl _) hp₁ hb
  exact ⟨hp', hsuffix'.trans hsuffix, hle.trans hle', hQ⟩

theorem malformed {P : Nat → α → Prop} : MovesFrom n cs malformed P := by
  intro p a p' hrest hn hp hrun
  cases hrun

/-- What comes after a look at the progress. -/
theorem get_bind {f : Progress → Reading α} {P : Nat → α → Prop}
    (h : ∀ p, p.rest = cs → n ≤ p.labelled → p.Labelled → MovesFrom p.labelled cs (f p) P) :
    MovesFrom n cs (get >>= f) P := by
  intro p a p' hrest hn hp hrun
  exact h p hrest hn hp p a p' hrest (le_refl _) hp hrun

/-- What comes after a look at the text. -/
theorem upcoming_bind {f : List Char → Reading α} {P : Nat → α → Prop} (h : MovesFrom n cs (f cs) P) :
    MovesFrom n cs (upcoming >>= f) P := by
  intro p a p' hrest hn hp hrun
  rw [run_upcoming_bind, hrest] at hrun
  exact h p a p' hrest hn hp hrun

theorem modify {f : Progress → Progress}
    (h : ∀ p, n ≤ p.labelled → p.Labelled → (f p).Labelled ∧ (f p).rest = p.rest ∧ p.labelled ≤ (f p).labelled) :
    MovesFrom n cs (modify f) fun _ _ => True := by
  intro p a p' hrest hn hp hrun
  obtain ⟨rfl, rfl⟩ := Prod.mk.inj (Except.ok.inj hrun)
  obtain ⟨hp', hsame, hle⟩ := h p hn hp
  exact ⟨hp', hrest ▸ hsame ▸ List.suffix_rfl, hle, trivial⟩

theorem proceed {rest : List Char} (h : rest <:+ cs) : MovesFrom n cs (proceed rest) fun _ _ => True := by
  intro p a p' hrest hn hp hrun
  obtain ⟨rfl, rfl⟩ := Prod.mk.inj (Except.ok.inj hrun)
  exact ⟨⟨hp.graph, hp.quads⟩, h, le_refl _, trivial⟩

end MovesFrom

namespace Moves

variable {α β : Type} {k n : Nat}

theorem token {read : List Char → Option (α × List Char)} (h : LeavesSuffix read) : MovesOn n (token read) := by
  intro cs
  refine MovesFrom.upcoming_bind ?_
  split
  · rename_i a rest hread
    exact (MovesFrom.proceed (h cs a rest hread)).bind fun _ _ _ _ _ => .pure fun _ _ => trivial
  · exact .malformed

theorem upcoming : MovesOn n upcoming := by
  intro cs p a p' hrest hn hp hrun
  obtain ⟨rfl, rfl⟩ := Prod.mk.inj (Except.ok.inj hrun)
  exact ⟨hp, hrest ▸ List.suffix_rfl, le_refl _, trivial⟩

theorem skip : MovesOn n skip :=
  fun cs => MovesFrom.upcoming_bind (.proceed (dropSpace_suffix cs))

theorem accept (mark : String) : MovesOn n (accept mark) := by
  intro cs
  refine MovesFrom.upcoming_bind ?_
  split
  · exact (MovesFrom.proceed (List.drop_suffix _ cs)).bind fun _ _ _ _ _ => .pure fun _ _ => trivial
  · exact .pure fun _ _ => trivial

theorem expect (mark : String) : MovesOn n (expect mark) := by
  intro cs
  refine (accept mark cs).bind fun _ isThere _ _ => ?_
  split
  · exact fun _ => .malformed
  · exact fun _ => .pure fun _ _ => trivial

/-- Where something is refused, the next step is made only if it is not there. -/
theorem refuse {isThere : Bool} {m : Reading β} {P : Nat → β → Prop} (hm : Moves n m P) :
    Moves n (do
      if isThere then Turtle.malformed
      m) P := by
  intro cs
  dsimp only
  split
  · exact (MovesFrom.malformed (P := fun _ _ => False)).bind fun _ _ _ h => h.elim
  · exact hm cs

/-- A node gets the next generated label. -/
theorem newBlank : MovesTerm n newBlank := by
  intro cs p a p' hrest hn hp hrun
  obtain ⟨rfl, rfl⟩ := Prod.mk.inj (Except.ok.inj hrun)
  have hnext : p.labelled ≤ p.labelled + 1 := Nat.le_succ _
  refine ⟨⟨hp.graph.mono hnext, fun q hq => (hp.quads q hq).mono hnext⟩, hrest ▸ List.suffix_rfl, hnext, ?_⟩
  exact Term.labelledBy_blank (.inl ⟨p.labelled + 1, by omega, le_refl _, rfl⟩)

theorem emit {s p o : Term} (hs : s.LabelledBy n) (hp : p.LabelledBy n) (ho : o.LabelledBy n) :
    MovesOn n (emit s p o) := by
  intro cs
  refine MovesFrom.get_bind fun progress _ hn hprogress => ?_
  dsimp only
  split
  · rintro _ _ _ _ _ _ ⟨⟩
  · rename_i q' hconvert
    obtain ⟨hgraph, hsubject, hpredicate, hobject⟩ := Report.convert_eq_ok.1 hconvert
    refine .modify fun other hother hlabelled => ⟨⟨hlabelled.graph, fun q hq => ?_⟩, rfl, le_refl _⟩
    rcases List.mem_cons.1 hq with rfl | hq
    · have hle : n ≤ other.labelled := hn.trans hother
      exact Quad.labelledBy ((hs.mono hle).of_convert hsubject) ((hp.mono hle).of_convert hpredicate)
        ((ho.mono hle).of_convert hobject) ((hprogress.graph.mono hother).of_convert hgraph)
    · exact hlabelled.quads q hq

/-! ### Terms -/

theorem readIriTerm : MovesTerm n readIriTerm := by
  intro cs
  refine MovesFrom.get_bind fun p _ _ _ => ?_
  have hiri : ∀ {read : List Char → Option (String × List Char)}, LeavesSuffix read →
      MovesTerm p.labelled (Term.iri <$> Turtle.token read) := by
    intro read hread cs
    rw [map_eq_pure_bind]
    exact (token hread cs).bind fun _ text _ _ _ => .pure fun k _ => Term.labelledBy_iri k text
  split
  · exact hiri (leavesSuffix_readIri p.base) cs
  · exact hiri (leavesSuffix_readPrefixed p.prefixes) cs

theorem readBlankTerm : MovesTerm n readBlankTerm := by
  intro cs
  refine (expect _ cs).bind fun _ _ _ _ cs => (token leavesSuffix_readLabel cs).bind fun _ label _ _ _ => ?_
  exact .pure fun _ _ => Term.labelledBy_blank (.inr ⟨label, rfl⟩)

/-- A literal that has been read. -/
theorem literal {read : List Char → Option (Literal × List Char)} (h : LeavesSuffix read) :
    MovesTerm n (Term.literal <$> Turtle.token read) := by
  intro cs
  rw [map_eq_pure_bind]
  exact (token h cs).bind fun _ l _ _ _ => .pure fun k _ => Term.labelledBy_literal k l

theorem readQuotedLiteral : MovesTerm n readQuotedLiteral := by
  intro cs
  refine MovesFrom.get_bind fun p _ _ _ => ?_
  refine (token leavesSuffix_readQuotation cs).bind fun _ value _ _ => ?_
  refine literal (leavesSuffix_readLiteralEnd dropSpace_suffix (fun cs datatype rest h => ?_) value)
  -- the datatype of a literal is written like any other IRI
  split at h
  · exact leavesSuffix_readIri p.base _ _ _ h
  · exact leavesSuffix_readPrefixed p.prefixes _ _ _ h

theorem readWord : MovesTerm n readWord := by
  intro cs
  refine MovesFrom.upcoming_bind ?_
  split
  · rename_i l rest hread
    refine (MovesFrom.proceed (leavesSuffix_readBoolean cs l rest hread)).bind fun _ _ _ _ _ => ?_
    exact .pure fun k _ => Term.labelledBy_literal k l
  · exact readIriTerm cs

theorem readSimpleTerm : MovesTerm n readSimpleTerm := by
  intro cs
  refine MovesFrom.upcoming_bind ?_
  split
  · exact readBlankTerm _
  · exact readQuotedLiteral _
  · exact readQuotedLiteral _
  · split
    · exact literal leavesSuffix_readNumber _
    · exact readWord _
  · exact .malformed

theorem readVerb : MovesTerm n readVerb := by
  intro cs
  refine MovesFrom.upcoming_bind ?_
  split
  · rename_i cs
    split
    · refine (MovesFrom.proceed (List.suffix_cons 'a' cs)).bind fun _ _ _ _ _ => ?_
      exact .pure fun k _ => Term.labelledBy_iri k _
    · exact readIriTerm _
  · exact readIriTerm _

theorem readFlatTerm : MovesTerm n readFlatTerm := by
  intro cs
  refine MovesFrom.upcoming_bind ?_
  split
  · rename_i rest hbrackets
    exact (MovesFrom.proceed (afterEmptyBrackets?_suffix hbrackets)).bind fun _ _ _ _ => newBlank
  · exact readSimpleTerm cs

theorem readQuoted (depth : Nat) {n : Nat} : MovesTerm n (Turtle.readQuoted depth) := by
  induction depth generalizing n with
  | zero => exact fun _ => .malformed
  | succ depth ih =>
    rw [Turtle.readQuoted]
    -- subject and object are read in the same way
    generalize hread : (Turtle.upcoming >>= _ : Reading Term) = readPart
    have hpart : ∀ n, MovesTerm n readPart := by
      intro n cs
      rw [← hread]
      refine MovesFrom.upcoming_bind ?_
      split
      · exact ih _
      · exact readFlatTerm _
    intro cs
    refine (expect _ cs).bind fun _ _ _ _ cs => (skip cs).bind fun k₁ _ _ _ cs => ?_
    refine (hpart k₁ cs).bind fun k₂ s _ hs => refuse fun cs => ?_
    refine (skip cs).bind fun k₃ _ hk₃ _ cs => (readVerb cs).bind fun k₄ p hk₄ hp cs => ?_
    refine (skip cs).bind fun k₅ _ hk₅ _ cs => (hpart k₅ cs).bind fun k₆ o hk₆ ho cs => ?_
    refine (skip cs).bind fun k₇ _ hk₇ _ cs => (expect _ cs).bind fun k₈ _ hk₈ _ _ => .pure fun k hk => ?_
    exact .quoted (hs.mono (by omega)) (hp.mono (by omega)) (ho.mono (by omega)) (Term.labelledBy_defaultGraph k)

/-! ### Lists of predicates and objects -/

/-- The lists of predicates and objects are bounded by a number, which each call lowers. -/
theorem readPredicates_and_readObjects {inner : Reading Term} (h : ∀ n, MovesTerm n inner) (bound : Nat) :
    (∀ n (s : Term), s.LabelledBy n → MovesOn n (Turtle.readPredicates inner bound s)) ∧
      ∀ n (s p : Term), s.LabelledBy n → p.LabelledBy n → MovesOn n (Turtle.readObjects inner bound s p) := by
  induction bound with
  | zero => exact ⟨fun _ _ _ _ => .malformed, fun _ _ _ _ _ _ => .malformed⟩
  | succ bound ih =>
    obtain ⟨hpredicates, hobjects⟩ := ih
    constructor
    · intro n s hs cs
      rw [Turtle.readPredicates]
      refine (readVerb cs).bind fun k₁ p hk₁ hp cs => (skip cs).bind fun k₂ _ hk₂ _ cs => ?_
      refine (hobjects k₂ s p (hs.mono (by omega)) (hp.mono hk₂) cs).bind fun k₃ _ hk₃ _ cs => ?_
      refine (accept _ cs).bind fun k₄ _ hk₄ _ cs => ?_
      split
      · refine MovesFrom.upcoming_bind ((MovesFrom.proceed (dropSemicolons_suffix cs)).bind fun k₅ _ hk₅ _ cs => ?_)
        refine MovesFrom.upcoming_bind ?_
        split
        · exact hpredicates k₅ s (hs.mono (by omega)) cs
        · exact .pure fun _ _ => trivial
      · exact .pure fun _ _ => trivial
    · intro n s p hs hp cs
      rw [Turtle.readObjects]
      have hmore : ∀ k, n ≤ k → MovesOn k (do
          if ← Turtle.accept "," then
            Turtle.skip
            Turtle.readObjects inner bound s p) := by
        intro k hk cs
        refine (accept _ cs).bind fun k₁ _ hk₁ _ cs => ?_
        split
        · refine (skip cs).bind fun k₂ _ hk₂ _ => ?_
          exact hobjects k₂ s p (hs.mono (by omega)) (hp.mono (by omega))
        · exact .pure fun _ _ => trivial
      refine (h n cs).bind fun k₁ o hk₁ ho cs => ?_
      refine (emit (hs.mono hk₁) (hp.mono hk₁) ho cs).bind fun k₂ _ hk₂ _ cs => ?_
      refine (skip cs).bind fun k₃ _ hk₃ _ cs => (accept _ cs).bind fun k₄ _ hk₄ _ cs => ?_
      dsimp only
      split
      · have hquoted : (Term.quoted s p o .defaultGraph).LabelledBy k₂ :=
          .quoted (hs.mono (by omega)) (hp.mono (by omega)) (ho.mono hk₂) (Term.labelledBy_defaultGraph k₂)
        refine (skip cs).bind fun k₅ _ hk₅ _ cs => ?_
        refine (hpredicates k₅ _ (hquoted.mono (by omega)) cs).bind fun k₆ _ hk₆ _ cs => ?_
        exact (expect _ cs).bind fun k₇ _ hk₇ _ cs => (skip cs).bind fun k₈ _ hk₈ _ => hmore k₈ (by omega)
      · exact hmore k₄ (by omega) cs

theorem readPredicates {inner : Reading Term} (h : ∀ n, MovesTerm n inner) (bound : Nat) {s : Term}
    (hs : s.LabelledBy n) : MovesOn n (Turtle.readPredicates inner bound s) :=
  (readPredicates_and_readObjects h bound).1 n s hs

/-! ### Terms with inner statements -/

theorem readProperties {inner : Reading Term} (h : ∀ n, MovesTerm n inner) (bound : Nat) {node : Term}
    (hnode : node.LabelledBy n) : MovesOn n (Turtle.readProperties inner bound node) := by
  induction bound generalizing n with
  | zero => exact fun _ => .malformed
  | succ bound ih =>
    intro cs
    rw [Turtle.readProperties]
    refine (readPredicates h _ hnode cs).bind fun k₁ _ hk₁ _ cs => (accept _ cs).bind fun k₂ _ hk₂ _ cs => ?_
    split
    · exact ih (hnode.mono (by omega)) cs
    · exact .pure fun _ _ => trivial

theorem readPropertyList {inner : Reading Term} (h : ∀ n, MovesTerm n inner) :
    MovesTerm n (Turtle.readPropertyList inner) := by
  intro cs
  refine (expect _ cs).bind fun _ _ _ _ cs => (skip cs).bind fun _ _ _ _ cs => ?_
  refine (newBlank cs).bind fun k node _ hnode cs => MovesFrom.upcoming_bind ?_
  exact (readProperties h _ hnode cs).bind fun _ _ hle _ _ => .pure fun _ hk => hnode.mono (hle.trans hk)

theorem readItems {inner : Reading Term} (h : ∀ n, MovesTerm n inner) (bound : Nat) {cell : Term}
    (hcell : cell.LabelledBy n) : MovesOn n (Turtle.readItems inner bound cell) := by
  induction bound generalizing n cell with
  | zero => exact fun _ => .malformed
  | succ bound ih =>
    intro cs
    rw [Turtle.readItems]
    refine (h n cs).bind fun k₁ item hk₁ hitem cs => ?_
    refine (emit (hcell.mono hk₁) (Term.labelledBy_iri k₁ _) hitem cs).bind fun k₂ _ hk₂ _ cs => ?_
    refine (skip cs).bind fun k₃ _ hk₃ _ cs => (accept _ cs).bind fun k₄ _ hk₄ _ cs => ?_
    split
    · exact emit (hcell.mono (by omega)) (Term.labelledBy_iri k₄ _) (Term.labelledBy_iri k₄ _) cs
    · refine (newBlank cs).bind fun k₅ next hk₅ hnext cs => ?_
      refine (emit (hcell.mono (by omega)) (Term.labelledBy_iri k₅ _) hnext cs).bind fun k₆ _ hk₆ _ => ?_
      exact ih (hnext.mono hk₆)

theorem readCollection {inner : Reading Term} (h : ∀ n, MovesTerm n inner) :
    MovesTerm n (Turtle.readCollection inner) := by
  intro cs
  refine (expect _ cs).bind fun _ _ _ _ cs => (skip cs).bind fun _ _ _ _ cs => ?_
  refine (accept _ cs).bind fun _ _ _ _ cs => ?_
  split
  · exact .pure fun k _ => Term.labelledBy_iri k _
  · refine (newBlank cs).bind fun k cell _ hcell cs => MovesFrom.upcoming_bind ?_
    exact (readItems h _ hcell cs).bind fun _ _ hle _ _ => .pure fun _ hk => hcell.mono (hle.trans hk)

theorem readTerm (depth : Nat) {n : Nat} : MovesTerm n (Turtle.readTerm depth) := by
  induction depth generalizing n with
  | zero => exact fun cs => MovesFrom.upcoming_bind (refuse readFlatTerm cs)
  | succ depth ih =>
    refine fun cs => MovesFrom.upcoming_bind ?_
    split
    · split
      · exact readCollection (fun _ => ih) _
      · exact readPropertyList (fun _ => ih) _
      · exact readQuoted _ _
    · exact readFlatTerm cs

/-! ### Statements -/

theorem readDescription {s : Term} (hs : s.LabelledBy n) : MovesOn n (Turtle.readDescription s) :=
  fun cs => MovesFrom.upcoming_bind (readPredicates (fun _ => readTerm _) _ hs cs)

theorem readTriples : MovesOn n readTriples := by
  refine fun cs => MovesFrom.upcoming_bind ((readTerm _ cs).bind fun k s _ hs => refuse fun cs => ?_)
  refine (skip cs).bind fun k₁ _ hk₁ _ cs => MovesFrom.upcoming_bind ?_
  dsimp only
  split
  · exact readDescription (hs.mono hk₁) cs
  · exact .pure fun _ _ => trivial

/-! ### Blocks -/

theorem bindPrefix : MovesOn n bindPrefix := by
  intro cs
  refine (skip cs).bind fun _ _ _ _ cs => (token leavesSuffix_readPrefixName cs).bind fun _ _ _ _ cs => ?_
  refine (skip cs).bind fun _ _ _ _ cs => MovesFrom.get_bind fun p _ _ _ => ?_
  refine (token (leavesSuffix_readIri p.base) cs).bind fun _ _ _ _ cs => ?_
  exact .modify fun _ _ hp => ⟨⟨hp.graph, hp.quads⟩, rfl, le_refl _⟩

theorem setBase : MovesOn n setBase := by
  intro cs
  refine (skip cs).bind fun _ _ _ _ cs => MovesFrom.get_bind fun p _ _ _ => ?_
  refine (token (leavesSuffix_readReference p.base) cs).bind fun _ _ _ _ cs => ?_
  exact .modify fun _ _ hp => ⟨⟨hp.graph, hp.quads⟩, rfl, le_refl _⟩

theorem endDirective (withStop : Bool) : MovesOn n (followDirective.endDirective withStop) := by
  intro cs
  unfold followDirective.endDirective
  split
  · exact (skip cs).bind fun _ _ _ _ => expect _
  · exact .pure fun _ _ => trivial

theorem followDirective (directive : Directive) : MovesOn n (Turtle.followDirective directive) := by
  cases directive with
  | bindPrefix withStop => exact fun cs => (bindPrefix cs).bind fun _ _ _ _ => endDirective _
  | setBase withStop => exact fun cs => (setBase cs).bind fun _ _ _ _ => endDirective _

theorem readStatement : MovesOn n readStatement :=
  fun cs => (readTriples cs).bind fun _ _ _ _ cs => (skip cs).bind fun _ _ _ _ => expect _

theorem readTurtleBlock : MovesOn n readTurtleBlock := by
  refine fun cs => MovesFrom.upcoming_bind ?_
  split
  · rename_i directive rest hdirective
    exact (MovesFrom.proceed (readDirective_suffix hdirective).1).bind fun _ _ _ _ => followDirective directive
  · exact readStatement cs

theorem readGraphStatements (bound : Nat) {n : Nat} : MovesOn n (Turtle.readGraphStatements bound) := by
  induction bound generalizing n with
  | zero => exact fun _ => .malformed
  | succ bound ih =>
    refine fun cs => (skip cs).bind fun _ _ _ _ cs => (accept _ cs).bind fun _ _ _ _ cs => ?_
    split
    · refine (readTriples cs).bind fun _ _ _ _ cs => (skip cs).bind fun _ _ _ _ cs => ?_
      refine (accept _ cs).bind fun _ _ _ _ cs => ?_
      split
      · exact ih cs
      · exact expect _ cs
    · exact .pure fun _ _ => trivial

/-- What follows the opening brace of a graph. -/
theorem afterBrace {name : Term} (hname : name.LabelledBy n) :
    MovesOn n (do
      modify fun p => { p with graph := name }
      Turtle.readGraphStatements ((← Turtle.upcoming).length + 1)
      modify fun p => { p with graph := .defaultGraph }) := by
  intro cs
  have hset : MovesFrom n cs (modify fun p : Progress => { p with graph := name }) fun _ _ => True :=
    .modify fun p hp hlabelled => ⟨⟨hname.mono hp, hlabelled.quads⟩, rfl, le_refl _⟩
  refine hset.bind fun _ _ _ _ cs => MovesFrom.upcoming_bind ?_
  refine (readGraphStatements _ cs).bind fun _ _ _ _ cs => ?_
  exact .modify fun p _ hp => ⟨⟨Term.labelledBy_defaultGraph _, hp.quads⟩, rfl, le_refl _⟩

theorem readGraph {name : Term} (hname : name.LabelledBy n) : MovesOn n (Turtle.readGraph name) :=
  fun cs => (expect _ cs).bind fun _ _ hk _ => afterBrace (hname.mono hk)

theorem readLabelTerm : MovesTerm n readLabelTerm :=
  fun cs => (readFlatTerm cs).bind fun _ _ _ ht => refuse fun _ => .pure fun _ hk => ht.mono hk

theorem readGraphOrStatement : MovesOn n readGraphOrStatement := by
  refine fun cs => (readLabelTerm cs).bind fun _ t _ ht cs => (skip cs).bind fun k _ hk _ cs => ?_
  refine MovesFrom.upcoming_bind ?_
  split
  · exact readGraph (ht.mono hk) cs
  · exact (readDescription (ht.mono hk) cs).bind fun _ _ _ _ cs => (skip cs).bind fun _ _ _ _ => expect _

/-- What follows the keyword of a graph. -/
theorem afterGraphKeyword :
    MovesOn n (do
      Turtle.skip
      let name ← Turtle.readLabelTerm
      Turtle.skip
      Turtle.readGraph name) :=
  fun cs => (skip cs).bind fun _ _ _ _ cs => (readLabelTerm cs).bind fun _ _ _ hname cs =>
    (skip cs).bind fun _ _ hk _ => readGraph (hname.mono hk)

theorem readTrigBlock : MovesOn n readTrigBlock := by
  refine fun cs => MovesFrom.upcoming_bind ?_
  split
  · rename_i directive rest hdirective
    exact (MovesFrom.proceed (readDirective_suffix hdirective).1).bind fun _ _ _ _ => followDirective directive
  · rename_i rest hkeyword
    exact (MovesFrom.proceed (afterKeyword?_suffix hkeyword).1).bind fun _ _ _ _ => afterGraphKeyword
  · split
    · exact readGraph (Term.labelledBy_defaultGraph n) cs
    · split
      · exact readStatement cs
      · exact readGraphOrStatement cs

theorem readBlocks {readBlock : Reading Unit} (h : ∀ n, MovesOn n readBlock) (bound : Nat) {n : Nat} :
    MovesOn n (Turtle.readBlocks readBlock bound) := by
  induction bound generalizing n with
  | zero => exact fun _ => .malformed
  | succ bound ih =>
    refine fun cs => (skip cs).bind fun _ _ _ _ cs => MovesFrom.upcoming_bind ?_
    split
    · exact (h _ cs).bind fun _ _ _ _ => ih
    · exact .pure fun _ _ => trivial

end Moves

end Document.Turtle

end RdfDataset
