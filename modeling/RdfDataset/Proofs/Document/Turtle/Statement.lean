import RdfDataset.Proofs.Document.Turtle.Term

/-!
# Reading back statements

A statement that has been written is read back and reported, along with the quads that follow it.

* `Document.Turtle.Reports`: what is read of the text of some quads.
* `Document.Turtle.ReportsNext`: the text behind an object is read as some quads.  There may be more objects of the same
  predicate, more predicates of the same subject, or other statements.
* `Document.Turtle.RefusesInLabel`: nothing is read inside a label.
* `reports_readObjects`, `reports_readPredicates`, `reports_readDescription`, `reports_readTriples`: the quad in front
  of such a text is reported as well, from its object, its predicate or its subject on.
-/

namespace RdfDataset.Document.Turtle

open Progress (before)

/-- What is read of the text of some quads: they are reported in order with their labels renamed, if all of them are
readable.  Otherwise the text is refused. -/
def Reports (quads : List Quad) (read : Reading Unit) (p : Progress) : Prop :=
  ((∀ q ∈ quads, q.IsReadable) →
      ∃ p', read.run p = .ok ((), p') ∧ p'.quads = (quads.map (Quad.relabel keepApart)).reverse ++ p.quads) ∧
    ((∃ q ∈ quads, ¬q.IsReadable) → ∀ r, read.run p ≠ .ok r)

variable {q : Quad} {quads done : List Quad}

namespace Reports

variable {read read' : Reading Unit} {p p' : Progress}

/-- Steps that report nothing can be left out. -/
theorem skip (h : Reports quads read' p') (hquads : p'.quads = p.quads)
    (hrun : read.run p = read'.run p') : Reports quads read p := by
  rwa [Reports, hrun, ← hquads]

/-- A readable quad is reported before the others. -/
theorem cons (h : Reports quads read' p') (hq : q.IsReadable) (hquads : p'.quads = q.relabel keepApart :: p.quads)
    (hrun : read.run p = read'.run p') : Reports (q :: quads) read p := by
  obtain ⟨hread, hrefuse⟩ := h
  rw [Reports, hrun]
  constructor
  · intro hreadable
    rw [List.forall_mem_cons] at hreadable
    obtain ⟨p'', hr, hp''⟩ := hread hreadable.2
    exact ⟨p'', hr, by simp [hp'', hquads]⟩
  · rintro ⟨q', hq', hnot⟩ r hr
    have hmem : q' ∈ quads := (List.mem_cons.1 hq').resolve_left fun heq => hnot (heq ▸ hq)
    exact hrefuse ⟨q', hmem, hnot⟩ r hr

/-- Behind a quad that is not readable nothing has to be read. -/
theorem refuse (hq : ¬q.IsReadable) (hrun : ∀ r, read.run p ≠ .ok r) : Reports (q :: quads) read p :=
  ⟨fun h => absurd (h q List.mem_cons_self) hq, fun _ => hrun⟩

end Reports

/-! ### Lists of predicates and objects -/

/-- What is left to do behind an object without annotations: more objects can follow. -/
def moreObjects (bound : Nat) (s p : Term) : Reading Unit := do
  if ← accept "," then
    skip
    readObjects (readTerm maxDepth) bound s p

/-- What is left to do behind the objects of a predicate: more predicates can follow. -/
def morePredicates (bound : Nat) (s : Term) : Reading Unit := do
  if ← accept ";" then
    proceed (dropSemicolons (← upcoming))
    if !endsPredicates (← upcoming) then
      readPredicates (readTerm maxDepth) bound s

/-- Behind the object of a quad the text of the following ones is read, if it is not longer than the bounds on objects
and on predicates; what is read behind the statement is left open. -/
def ReportsNext (next : Reading Unit) (last : Quad) (done : List Quad) (tail : List Char) (quads : List Quad) : Prop :=
  ∀ bound bound', tail.length ≤ min bound bound' →
    Reports quads
      (do
        moreObjects bound (last.subject.relabel keepApart) last.predicate
        morePredicates bound' (last.subject.relabel keepApart)
        next)
      (before (last.graph.relabel keepApart) done tail)

theorem readPredicates_succ (bound : Nat) (s : Term) :
    readPredicates (readTerm maxDepth) (bound + 1) s =
      (do
        let p ← readVerb
        skip
        readObjects (readTerm maxDepth) bound s p
        morePredicates bound s) :=
  rfl

section

variable {g s p o : Term} {bound : Nat} {cs rest : List Char}

/-- An object is read and the statement is reported. -/
theorem run_readObjects (hread : (readTerm maxDepth).run (before g done cs) = .ok (o, before g done rest))
    {q : Quad} (hconvert : Report.convert ⟨s, p, o, g⟩ = .ok q) (hbrace : ¬['\x7b', '|'] <+: dropSpace rest) :
    (readObjects (readTerm maxDepth) (bound + 1) s p).run (before g done cs) =
      (moreObjects bound s p).run (before g (q :: done) (dropSpace rest)) := by
  have hemit : (emit s p o).run (before g done rest) = .ok ((), before g (q :: done) rest) :=
    run_emit.2 ⟨q, hconvert, rfl⟩
  have haccept (done : List Quad) : (accept "\x7b|").run (before g done (dropSpace rest)) =
      .ok (false, before g done (dropSpace rest)) := by
    simp [hbrace]
  rw [readObjects, run_bind_of_ok hread, run_bind_of_ok hemit, run_bind_of_ok run_skip, run_bind_of_ok (haccept _)]
  rfl

/-- A predicate is read, and its objects follow. -/
theorem run_readPredicates {p : String} (hp : checkIri p = .ok ()) :
    (readPredicates (readTerm maxDepth) (bound + 1) s).run (before g done (displayIri p ++ ' ' :: cs)) =
      (do readObjects (readTerm maxDepth) bound s (.iri p); morePredicates bound s : Reading Unit).run
        (before g done (dropSpace cs)) := by
  rw [readPredicates_succ, run_bind_of_ok (run_readVerb hp _), run_bind_of_ok run_skip, dropSpace_space]

theorem run_moreObjects_comma :
    (moreObjects bound s p).run (before g done (',' :: cs)) =
      (readObjects (readTerm maxDepth) bound s p).run (before g done (dropSpace cs)) := by
  have haccept : (accept ",").run (before g done (',' :: cs)) = .ok (true, before g done cs) := by simp
  rw [moreObjects, run_bind_of_ok haccept]
  rfl

theorem run_moreObjects (h : ¬[','] <+: cs) :
    (moreObjects bound s p).run (before g done cs) = .ok ((), before g done cs) := by
  simp [moreObjects, h]

theorem run_morePredicates_semicolon (h : endsPredicates (dropSemicolons cs) = false) :
    (morePredicates bound s).run (before g done (';' :: cs)) =
      (readPredicates (readTerm maxDepth) bound s).run (before g done (dropSemicolons cs)) := by
  have haccept : (accept ";").run (before g done (';' :: cs)) = .ok (true, before g done cs) := by simp
  rw [morePredicates, run_bind_of_ok haccept, if_pos rfl, run_bind_of_ok run_upcoming, run_bind_of_ok (run_proceed _),
    run_bind_of_ok run_upcoming, h]
  rfl

theorem run_morePredicates (h : ¬[';'] <+: cs) :
    (morePredicates bound s).run (before g done cs) = .ok ((), before g done cs) := by
  simp [morePredicates, h]

theorem startsProperties_display (t : Term) (cs : List Char) : startsProperties (t.display ++ cs) = false := by
  cases t <;> rfl

theorem exists_of_run_readTriples {p : Progress} {r : Unit × Progress} (h : readTriples.run p = .ok r) :
    ∃ s p', (readTerm maxDepth).run p = .ok (s, p') := by
  obtain ⟨_, _, hupcoming, h⟩ := run_bind_eq_ok.1 h
  obtain ⟨s, p', hread, -⟩ := run_bind_eq_ok.1 h
  cases hupcoming
  exact ⟨s, p', hread⟩

/-- A subject is read, which must not be a literal, and what is stated about it follows. -/
theorem run_readTriples (hread : (readTerm maxDepth).run (before g done cs) = .ok (s, before g done rest))
    (hproperties : startsProperties cs = false) :
    readTriples.run (before g done cs) =
      if s.isLiteral then .error .malformed else (readDescription s).run (before g done (dropSpace rest)) := by
  rw [readTriples, run_bind_of_ok run_upcoming]
  dsimp only
  rw [run_bind_of_ok hread, hproperties]
  split
  · rfl
  · simp only [Bool.false_and, Bool.not_false, ↓reduceIte]
    rw [run_bind_of_ok run_skip, run_bind_of_ok run_upcoming]

end

/-! ### Inside a label -/

/-- Inside a label nothing more is read. -/
def RefusesInLabel (read : Reading Unit) : Prop :=
  ∀ g done rest r, CutsLabel rest → read.run (before g done rest) ≠ .ok r

theorem RefusesInLabel.morePredicates {next : Reading Unit} (h : RefusesInLabel next) (bound : Nat) (s : Term) :
    RefusesInLabel (do morePredicates bound s; next) := by
  intro g done rest r hcut
  rw [StateT.run_bind, run_morePredicates (hcut.not_prefix (by decide) _)]
  exact h g done rest r hcut

theorem refusesInLabel_readDescription (s : Term) : RefusesInLabel (readDescription s) := by
  intro g done rest r hcut hr
  obtain ⟨bound, hbound⟩ : ∃ bound, rest.length = bound + 1 := by
    cases hcut with
    | colon cs => exact ⟨_, rfl⟩
    | stop hc cs => exact ⟨_, rfl⟩
  simp [readDescription, hbound, readPredicates_succ, hcut.run_readVerb] at hr

/-! ### Statements -/

/-- A mark behind an object: another object, another predicate or the end of the statement follows. -/
def EndsObject : List Char → Prop
  | [] => False
  | c :: _ => c ∈ [',', ';', '.']

theorem EndsObject.startsToken {tail : List Char} (h : EndsObject tail) : StartsToken tail := by
  cases tail with
  | nil => exact h
  | cons c cs =>
    simp only [EndsObject, List.mem_cons, List.not_mem_nil, or_false] at h
    rcases h with rfl | rfl | rfl <;> exact startsToken_cons.2 (by decide)

theorem EndsObject.not_prefix {tail : List Char} (h : EndsObject tail) (cs : List Char) : ¬('\x7b' :: cs) <+: tail := by
  cases tail with
  | nil => simp
  | cons c ds =>
    rw [List.cons_prefix_cons]
    rintro ⟨rfl, -⟩
    simp [EndsObject] at h

section

variable {format : Format} {tail : List Char} {bound : Nat} {next : Reading Unit}
  (hvalid : q.IsValid) (hwritable : q.IsWritable format) (hg : q.graph.IsReadable maxDepth) (htail : EndsObject tail)
  (hnext : RefusesInLabel next)

include hvalid hwritable hg htail hnext

theorem reports_readObjects (hs : q.subject.IsReadable maxDepth)
    (h : q.IsReadable → Reports quads (do moreObjects bound (q.subject.relabel keepApart) q.predicate; next)
      (before (q.graph.relabel keepApart) (q.relabel keepApart :: done) tail)) :
    Reports (q :: quads)
      (do readObjects (readTerm maxDepth) (bound + 1) (q.subject.relabel keepApart) q.predicate; next)
      (before (q.graph.relabel keepApart) done (q.object.display ++ ' ' :: tail)) := by
  obtain ⟨hnode, hp, ho, -⟩ := hwritable
  obtain ⟨vs, vp, vo, -⟩ := Quad.isValid_iff.1 hvalid
  by_cases ro : q.object.IsReadable maxDepth
  · obtain ⟨rest, rfl, hread⟩ :=
      readsBack_readTerm ho vo ro (q.graph.relabel keepApart) done tail htail.startsToken
    have hrelabel : q.relabel keepApart =
        ⟨q.subject.relabel keepApart, q.predicate, q.object.relabel keepApart, q.graph.relabel keepApart⟩ := by
      obtain ⟨p, hp⟩ := Term.isIri_iff.1 hp
      simp [Quad.relabel, hp, Term.relabel]
    have hconvert := (Quad.isValid_relabel (fun _ => checkBlank_keepApart) hvalid).convert_report
    have hreadable : q.IsReadable := ⟨hs, Term.isReadable_of_isIri hp maxDepth, ro, hg⟩
    rw [hrelabel] at h hconvert
    refine (h hreadable).cons hreadable (by rw [hrelabel]; rfl) ?_
    exact run_bind_congr (run_readObjects hread hconvert (htail.not_prefix _))
  · refine Reports.refuse (fun hq => ro hq.2.2.1) fun r hr => ?_
    obtain ⟨_, p, hobjects, hr⟩ := run_bind_eq_ok.1 hr
    obtain ⟨o, p', hread, hobjects⟩ := run_bind_eq_ok.1 hobjects
    obtain ⟨rest, hcut, rfl⟩ := breaksOff_readTerm ho vo ro _ _ _ _ _ hread
    -- the label goes on where more objects and predicates could follow
    obtain ⟨q', -, rfl⟩ : ∃ q', _ ∧ before _ (q' :: done) rest = p := by
      simpa [hcut.dropSpace, hcut.not_prefix] using hobjects
    exact hnext _ _ _ _ hcut hr

variable (h : q.IsReadable → ReportsNext next q (q.relabel keepApart :: done) tail quads)

include h

theorem reports_readPredicates (hs : q.subject.IsReadable maxDepth) (hbound : tail.length + 2 ≤ bound) :
    Reports (q :: quads) (do readPredicates (readTerm maxDepth) bound (q.subject.relabel keepApart); next)
      (before (q.graph.relabel keepApart) done (q.predicate.display ++ ' ' :: (q.object.display ++ ' ' :: tail))) := by
  obtain ⟨b, rfl⟩ : ∃ b, bound = b + 2 := ⟨bound - 2, by omega⟩
  obtain ⟨p, hp⟩ := Term.isIri_iff.1 hwritable.predicate
  have vp := (Quad.isValid_iff.1 hvalid).2.1
  have hobjects := reports_readObjects hvalid hwritable hg htail (hnext.morePredicates _ _) hs
    fun hreadable => h hreadable b (b + 1) (by omega)
  rw [hp, Term.isValid_iri] at vp
  rw [hp] at hobjects ⊢
  refine hobjects.skip rfl ?_
  rw [Term.display_iri, run_bind_congr (run_readPredicates vp), dropSpace_display, bind_assoc]

theorem reports_readDescription (hs : q.subject.IsReadable maxDepth) :
    Reports (q :: quads) (do readDescription (q.subject.relabel keepApart); next)
      (before (q.graph.relabel keepApart) done (q.predicate.display ++ ' ' :: (q.object.display ++ ' ' :: tail))) := by
  have hbound : tail.length + 2 ≤ (q.predicate.display ++ ' ' :: (q.object.display ++ ' ' :: tail)).length := by
    simp only [List.length_append, List.length_cons]
    omega
  exact (reports_readPredicates hvalid hwritable hg htail hnext h hs hbound).skip rfl rfl

theorem reports_readTriples :
    Reports (q :: quads) (do readTriples; next)
      (before (q.graph.relabel keepApart) done
        (q.subject.display ++ ' ' :: (q.predicate.display ++ ' ' :: (q.object.display ++ ' ' :: tail)))) := by
  have vs := (Quad.isValid_iff.1 hvalid).1
  have hs := hwritable.subject
  have hproperties := startsProperties_display q.subject
    (' ' :: (q.predicate.display ++ ' ' :: (q.object.display ++ ' ' :: tail)))
  by_cases rs : q.subject.IsReadable maxDepth
  · obtain ⟨rest, hrest, hread⟩ := readsBack_readTerm (.inl hs) vs rs (q.graph.relabel keepApart) done
      (q.predicate.display ++ ' ' :: (q.object.display ++ ' ' :: tail)) (startsToken_display _ _)
    have hrun := run_readTriples hread hproperties
    rw [isLiteral_relabel hs, if_neg Bool.false_ne_true, hrest] at hrun
    exact (reports_readDescription hvalid hwritable hg htail hnext h rs).skip rfl (run_bind_congr hrun)
  · refine Reports.refuse (fun hq => rs hq.1) fun r hr => ?_
    obtain ⟨_, p, htriples, -⟩ := run_bind_eq_ok.1 hr
    obtain ⟨s, p', hread⟩ := exists_of_run_readTriples htriples
    obtain ⟨rest, hcut, rfl⟩ := breaksOff_readTerm (.inl hs) vs rs _ _ _ _ _ hread
    rw [run_readTriples hread hproperties, hcut.dropSpace] at htriples
    split at htriples
    · cases htriples
    · exact refusesInLabel_readDescription s _ _ _ _ hcut htriples

end

end RdfDataset.Document.Turtle
