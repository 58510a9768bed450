import RdfDataset.Proofs.Document.Turtle.Labels
import RdfDataset.Proofs.Document.Turtle.Run

/-!
# Where reading stops

A Turtle or TriG document is read block by block.  Each block takes at least one character, so the bound on their
number is never reached: a document is read to its end unless one of its blocks cannot be read, and then reading it
fails as the first such block does.

* `Document.Turtle.Consumes`: a step takes at least one character; `isBlockReader_readTurtleBlock` and
  `isBlockReader_readTrigBlock` show this of blocks.
* `Document.Turtle.BlockStep`: one block is read; `Document.Turtle.StopsAt`: the next one cannot be read.
* `Document.Turtle.readDocument_eq_error`: the errors of documents are those of their blocks.
-/

namespace RdfDataset.Document.Turtle

variable {α β : Type} {n : Nat}

/-! ### Steps that take text -/

/-- A step takes at least one character of the text. -/
def Consumes (n : Nat) (m : Reading α) : Prop :=
  ∀ p a p', n ≤ p.labelled → p.Labelled → m.run p = .ok (a, p') → p'.rest.length < p.rest.length

namespace Consumes

/-- The first of two steps takes a character, and the second one does not put it back. -/
theorem bind {m : Reading α} {f : α → Reading β} {P : Nat → α → Prop} (h : Consumes n m) (hm : Moves n m P)
    (hf : ∀ k a, n ≤ k → P k a → MovesOn k (f a)) : Consumes n (m >>= f) := by
  intro p b p' hn hp hrun
  obtain ⟨a, p₁, ha, hb⟩ := run_bind_eq_ok.1 hrun
  obtain ⟨hp₁, -, hle, hP⟩ := hm _ p a p₁ rfl hn hp ha
  obtain ⟨-, hsuffix, -⟩ := hf _ a (hn.trans hle) hP _ p₁ b p' rfl (le_refl _) hp₁ hb
  exact hsuffix.length_le.trans_lt (h p a p₁ hn hp ha)

/-- The second of two steps takes a character. -/
theorem after {m : Reading α} {f : α → Reading β} {P : Nat → α → Prop} (hm : Moves n m P)
    (h : ∀ k a, n ≤ k → P k a → Consumes k (f a)) : Consumes n (m >>= f) := by
  intro p b p' hn hp hrun
  obtain ⟨a, p₁, ha, hb⟩ := run_bind_eq_ok.1 hrun
  obtain ⟨hp₁, hsuffix, hle, hP⟩ := hm _ p a p₁ rfl hn hp ha
  exact (h _ a (hn.trans hle) hP p₁ b p' (le_refl _) hp₁ hb).trans_le hsuffix.length_le

theorem expect {mark : String} (h : 0 < mark.length) : Consumes n (expect mark) := by
  intro p a p' _ _ hrun
  by_cases hmark : mark.toList <+: p.rest
  · have hread : (Turtle.expect mark).run p = .ok ((), { p with rest := p.rest.drop mark.length }) := by
      simp [Turtle.expect, accept, upcoming, proceed, hmark]
    rw [hread] at hrun
    obtain ⟨-, rfl⟩ := Prod.mk.inj (Except.ok.inj hrun)
    have hlength := hmark.length_le
    rw [String.length_toList] at hlength
    rw [List.length_drop]
    omega
  · have hread : (Turtle.expect mark).run p = .error .malformed := by
      simp [Turtle.expect, accept, upcoming, proceed, hmark]
    rw [hread] at hrun
    cases hrun

theorem readStatement : Consumes n readStatement :=
  .after Moves.readTriples fun _ _ _ _ => .after Moves.skip fun _ _ _ _ => .expect (by decide)

theorem readGraph {name : Term} (hname : name.LabelledBy n) : Consumes n (readGraph name) :=
  .bind (.expect (by decide)) (Moves.expect _) fun _ _ hk _ => Moves.afterBrace (hname.mono hk)

theorem readGraphOrStatement : Consumes n readGraphOrStatement := by
  refine .after Moves.readLabelTerm fun _ t _ ht => .after Moves.skip fun k _ hk _ => ?_
  refine .after Moves.upcoming fun k' _ hk' _ => ?_
  split
  · exact readGraph (ht.mono (by omega))
  · refine .after (Moves.readDescription (ht.mono (by omega))) fun _ _ _ _ => .after Moves.skip fun _ _ _ _ => ?_
    exact .expect (by decide)

end Consumes

/-- A block labels nodes and takes at least one character. -/
structure IsBlockReader (readBlock : Reading Unit) : Prop where
  moves : ∀ n, MovesOn n readBlock
  consumes : ∀ n, Consumes n readBlock

/-- A keyword that has been read stays read. -/
theorem length_lt_of_proceed {m : Reading β} (hm : MovesOn n m) {p p' : Progress} {b : β} (hn : n ≤ p.labelled)
    (hp : p.Labelled) {rest : List Char} (hrest : rest.length < p.rest.length)
    (hrun : (proceed rest >>= fun _ => m).run p = .ok (b, p')) : p'.rest.length < p.rest.length := by
  obtain ⟨-, hsuffix, -⟩ := hm rest { p with rest } b p' rfl hn ⟨hp.graph, hp.quads⟩ hrun
  exact hsuffix.length_le.trans_lt hrest

theorem isBlockReader_readTurtleBlock : IsBlockReader readTurtleBlock where
  moves := fun _ => Moves.readTurtleBlock
  consumes := by
    intro n p a p' hn hp hrun
    rw [readTurtleBlock, run_upcoming_bind] at hrun
    split at hrun
    · rename_i directive rest hdirective
      exact length_lt_of_proceed (Moves.followDirective directive) hn hp (readDirective_suffix hdirective).2 hrun
    · exact Consumes.readStatement p a p' hn hp hrun

theorem isBlockReader_readTrigBlock : IsBlockReader readTrigBlock where
  moves := fun _ => Moves.readTrigBlock
  consumes := by
    intro n p a p' hn hp hrun
    rw [readTrigBlock, run_upcoming_bind] at hrun
    split at hrun
    · rename_i directive rest hdirective
      exact length_lt_of_proceed (Moves.followDirective directive) hn hp (readDirective_suffix hdirective).2 hrun
    · rename_i rest hkeyword
      have hlength := (afterKeyword?_suffix hkeyword).2
      have hletters : "GRAPH".length = 5 := rfl
      exact length_lt_of_proceed Moves.afterGraphKeyword hn hp (by omega) hrun
    · split at hrun
      · exact Consumes.readGraph (Term.labelledBy_defaultGraph n) p a p' hn hp hrun
      · split at hrun
        · exact Consumes.readStatement p a p' hn hp hrun
        · exact Consumes.readGraphOrStatement p a p' hn hp hrun

/-! ### Blocks -/

/-- The progress behind the space in front of a block. -/
def Progress.skipped (p : Progress) : Progress :=
  { p with rest := dropSpace p.rest }

/-- One block is read, and the space in front of it. -/
def BlockStep (readBlock : Reading Unit) (p p' : Progress) : Prop :=
  p.skipped.rest ≠ [] ∧ readBlock.run p.skipped = .ok ((), p')

/-- There is one more block, which cannot be read. -/
def StopsAt (readBlock : Reading Unit) (p : Progress) (e : ReadError) : Prop :=
  p.skipped.rest ≠ [] ∧ readBlock.run p.skipped = .error e

variable {readBlock : Reading Unit} {p p' : Progress} {bound : Nat}

theorem Progress.Labelled.skipped (hp : p.Labelled) : p.skipped.Labelled :=
  ⟨hp.graph, hp.quads⟩

theorem BlockStep.labelled (hblock : IsBlockReader readBlock) (hp : p.Labelled) (h : BlockStep readBlock p p') :
    p'.Labelled ∧ p'.rest.length < p.rest.length := by
  obtain ⟨-, hrun⟩ := h
  obtain ⟨hp', -⟩ := hblock.moves 0 _ _ _ _ rfl (Nat.zero_le _) hp.skipped hrun
  have hlt := hblock.consumes 0 _ _ _ (Nat.zero_le _) hp.skipped hrun
  exact ⟨hp', hlt.trans_le (dropSpace_suffix p.rest).length_le⟩

theorem BlockStep.rightUnique : Relator.RightUnique (BlockStep readBlock) := by
  intro p p₁ p₂ h₁ h₂
  exact (Prod.mk.inj (Except.ok.inj (h₁.2.symm.trans h₂.2))).2

theorem run_readBlocks_succ :
    (readBlocks readBlock (bound + 1)).run p =
      if p.skipped.rest = [] then .ok ((), p.skipped)
      else (readBlock >>= fun _ => readBlocks readBlock bound).run p.skipped := by
  have hskip : (readBlocks readBlock (bound + 1)).run p =
      (if !p.skipped.rest.isEmpty then readBlock >>= fun _ => readBlocks readBlock bound
        else pure () : Reading Unit).run p.skipped := rfl
  rw [hskip]
  by_cases hend : p.skipped.rest = []
  · rw [if_pos hend, hend]
    rfl
  · rw [if_neg hend, if_pos (by simpa using hend)]

/-- Blocks are read up to the end of the text or up to the first one that cannot be read; the bound is not reached. -/
theorem exists_run_readBlocks (hblock : IsBlockReader readBlock) (hp : p.Labelled) (hbound : p.rest.length < bound) :
    ∃ last, Relation.ReflTransGen (BlockStep readBlock) p last ∧
      (last.skipped.rest = [] ∧ (readBlocks readBlock bound).run p = .ok ((), last.skipped) ∨
        ∃ e, StopsAt readBlock last e ∧ (readBlocks readBlock bound).run p = .error e) := by
  induction bound generalizing p with
  | zero => exact absurd hbound (Nat.not_lt_zero _)
  | succ bound ih =>
    rw [run_readBlocks_succ]
    by_cases hend : p.skipped.rest = []
    · rw [if_pos hend]
      exact ⟨p, .refl, .inl ⟨hend, rfl⟩⟩
    · rw [if_neg hend]
      cases hrun : readBlock.run p.skipped with
      | error e => exact ⟨p, .refl, .inr ⟨e, ⟨hend, hrun⟩, run_bind_of_error hrun⟩⟩
      | ok result =>
        obtain ⟨_, p'⟩ := result
        have hstep : BlockStep readBlock p p' := ⟨hend, hrun⟩
        obtain ⟨hp', hlt⟩ := hstep.labelled hblock hp
        rw [run_bind_of_ok hrun]
        obtain ⟨last, hsteps, hlast⟩ := ih hp' (by omega)
        exact ⟨last, .head hstep hsteps, hlast⟩

/-- There is only one progress that can be reached and from which no block can be read. -/
theorem eq_of_reaches {last last' : Progress} (h : Relation.ReflTransGen (BlockStep readBlock) p last)
    (h' : Relation.ReflTransGen (BlockStep readBlock) p last') (hlast : ∀ q, ¬BlockStep readBlock last q)
    (hlast' : ∀ q, ¬BlockStep readBlock last' q) : last = last' := by
  rcases Relation.ReflTransGen.total_of_right_unique BlockStep.rightUnique h h' with hsteps | hsteps
  · rcases hsteps.cases_head with heq | ⟨q, hq, -⟩
    · exact heq
    · exact absurd hq (hlast q)
  · rcases hsteps.cases_head with heq | ⟨q, hq, -⟩
    · exact heq.symm
    · exact absurd hq (hlast' q)

theorem StopsAt.not_blockStep {e : ReadError} (h : StopsAt readBlock p e) (q : Progress) :
    ¬BlockStep readBlock p q := by
  rintro ⟨-, hrun⟩
  rw [h.2] at hrun
  cases hrun

/-! ### Documents -/

/-- Reading a document stops with an error behind some statements. -/
def DocumentStops (readBlock : Reading Unit) (base : Option Iri.Reference) (text : List Char) (before : List Quad)
    (e : ReadError) : Prop :=
  ∃ last, Relation.ReflTransGen (BlockStep readBlock) { rest := text, base } last ∧ last.quads.reverse = before ∧
    StopsAt readBlock last e

/-- A document cannot be read if one of its blocks cannot, whatever blocks stand before it, and only then. -/
theorem readDocument_eq_error (hblock : IsBlockReader readBlock) {base : Option Iri.Reference} {text : List Char}
    {e : ReadError} :
    readDocument readBlock base text = .error e ↔ ∃ before, DocumentStops readBlock base text before e := by
  obtain ⟨last, hsteps, hlast⟩ :=
    exists_run_readBlocks hblock (.start text base) (Nat.lt_succ_self text.length)
  rw [readDocument, bind_eq_error]
  constructor
  · rintro (herror | ⟨_, -, hpure⟩)
    · rcases hlast with ⟨-, hrun⟩ | ⟨e', hstops, hrun⟩
      · rw [hrun] at herror
        cases herror
      · rw [hrun] at herror
        obtain rfl := Except.error.inj herror
        exact ⟨_, last, hsteps, rfl, hstops⟩
    · exact absurd hpure pure_ne_error
  · rintro ⟨before, last', hsteps', -, hstops'⟩
    rcases hlast with ⟨hend, -⟩ | ⟨e', hstops, hrun⟩
    · obtain rfl := eq_of_reaches hsteps hsteps' (fun q hq => hq.1 hend) hstops'.not_blockStep
      exact absurd hend hstops'.1
    · obtain rfl := eq_of_reaches hsteps hsteps' hstops.not_blockStep hstops'.not_blockStep
      obtain rfl := Except.error.inj (hstops.2.symm.trans hstops'.2)
      exact .inl hrun

end RdfDataset.Document.Turtle
