import RdfDataset.Proofs.Document.Turtle.Block

/-!
# Reading back groups

The text that the writer puts behind an object tells how the next quad goes on from the last one, and is read so.

* `Document.Turtle.ReportsBehind`: behind the object of a quad the text of the following ones is read.
* `reportsBehind_object`, `reportsBehind_predicate`, `reportsBehind_statement`, `reportsBehind_graph`: one more quad can
  stand in front of them, whatever it has in common with the last one.
* `reports_readBlocks`: a quad stands in front of them as the first one of its graph.
-/

namespace RdfDataset.Document.Turtle

open Progress (before)

/-- What is left to do behind a statement in a graph with a name, up to the closing brace. -/
def endStatement (bound : Nat) : Reading Unit := do
  skip
  if ← accept "." then readGraphStatements bound else expect "\x7d"

/-- What is left to do behind a statement in a graph with a name or outside of these. -/
def behindStatement (readBlock : Reading Unit) (g : Term) (bound blocks : Nat) : Reading Unit :=
  if g.isDefaultGraph then do
    skip
    expect "."
    readBlocks readBlock blocks
  else do
    endStatement bound
    modify fun p => { p with graph := .defaultGraph }
    readBlocks readBlock blocks

/-- Behind the object of a quad the text of the following ones is read, also across statements and graphs, if it is not
longer than the bounds. -/
def ReportsBehind (readBlock : Reading Unit) (last : Quad) (tail : List Char) (quads : List Quad) : Prop :=
  last.IsReadable → ∀ done bound blocks, tail.length ≤ min bound blocks →
    ReportsNext (behindStatement readBlock (last.graph.relabel keepApart) bound blocks) last done tail quads

variable {readBlock : Reading Unit} {done : List Quad} {g : Term} {cs tail : List Char} {bound blocks : Nat}

/-! ### Steps between statements -/

/-- The text of a term opens and closes no graph. -/
theorem not_prefix_display {c : Char} (hc : c ∈ ['\x7b', '\x7d']) (t : Term) (cs : List Char) :
    ¬[c] <+: t.display ++ cs := by
  simp only [List.mem_cons, List.not_mem_nil, or_false] at hc
  rcases hc with rfl | rfl <;> cases t <;>
    simp [Term.display_iri, displayIri, Term.display_blank, Term.display_literal, Literal.display, Term.display_var,
      Term.display_defaultGraph, Term.display_quoted]

theorem run_readBlocks (h : dropSpace cs ≠ []) :
    (readBlocks readBlock (blocks + 1)).run (before g done cs) =
      (do readBlock; readBlocks readBlock blocks : Reading Unit).run (before g done (dropSpace cs)) := by
  rw [readBlocks, run_bind_of_ok run_skip, run_bind_of_ok run_upcoming]
  simp [h]

theorem run_readBlocks_end (h : dropSpace cs = []) :
    (readBlocks readBlock (blocks + 1)).run (before g done cs) = .ok ((), before g done []) := by
  simp [readBlocks, h]

theorem run_readGraphStatements (h : ¬['\x7d'] <+: dropSpace cs) :
    (readGraphStatements (bound + 1)).run (before g done cs) =
      (do readTriples; endStatement bound : Reading Unit).run (before g done (dropSpace cs)) := by
  have haccept : (accept "\x7d").run (before g done (dropSpace cs)) = .ok (false, before g done (dropSpace cs)) := by
    simp [h]
  rw [readGraphStatements, run_bind_of_ok run_skip, run_bind_of_ok haccept]
  rfl

theorem run_readGraphStatements_end (h : dropSpace cs = '\x7d' :: tail) :
    (readGraphStatements (bound + 1)).run (before g done cs) = .ok ((), before g done tail) := by
  simp [readGraphStatements, h]

theorem run_setGraph (name : Term) :
    (modify fun p => { p with graph := name } : Reading Unit).run (before g done cs) = .ok ((), before name done cs) :=
  rfl

theorem run_readGraph (name : Term) :
    (readGraph name).run (before g done ('\x7b' :: cs)) =
      (do
        readGraphStatements (cs.length + 1)
        modify fun p => { p with graph := .defaultGraph } : Reading Unit).run (before name done cs) := by
  have hexpect : (expect "\x7b").run (before g done ('\x7b' :: cs)) = .ok ((), before g done cs) := by simp
  rw [readGraph, run_bind_of_ok hexpect, run_bind_of_ok (run_setGraph name), run_bind_of_ok run_upcoming]

theorem run_behindStatement_default :
    (behindStatement readBlock .defaultGraph bound blocks).run (before g done ('.' :: cs)) =
      (readBlocks readBlock blocks).run (before g done cs) := by
  have hexpect : (expect ".").run (before g done ('.' :: cs)) = .ok ((), before g done cs) := by simp
  rw [behindStatement, if_pos (show Term.defaultGraph.isDefaultGraph = true from rfl), run_bind_of_ok run_skip,
    dropSpace_of_startsToken (startsToken_cons.2 (by decide)), run_bind_of_ok hexpect]

theorem run_behindStatement_named {name : Term} (hname : name.isDefaultGraph = false) :
    (behindStatement readBlock name bound blocks).run (before g done ('.' :: cs)) =
      (do
        readGraphStatements bound
        modify fun p => { p with graph := .defaultGraph }
        readBlocks readBlock blocks : Reading Unit).run (before g done cs) := by
  have haccept : (accept ".").run (before g done ('.' :: cs)) = .ok (true, before g done cs) := by simp
  rw [behindStatement, hname, if_neg Bool.false_ne_true]
  refine run_bind_congr ?_
  rw [endStatement, run_bind_of_ok run_skip, dropSpace_of_startsToken (startsToken_cons.2 (by decide)),
    run_bind_of_ok haccept]
  rfl

/-- A full stop of a label can end a statement, but the rest of the label begins no other one. -/
theorem refusesInLabel_behindStatement (hblock : ReadsStatements readBlock) (name : Term) (bound blocks : Nat) :
    RefusesInLabel (behindStatement readBlock name bound blocks) := by
  intro g done rest r hcut hr
  cases hcut with
  | colon cs =>
    have hspace : dropSpace (':' :: cs) = ':' :: cs := (CutsLabel.colon cs).dropSpace
    by_cases hname : name.isDefaultGraph <;> simp [behindStatement, endStatement, hname, hspace] at hr
  | @stop c hc cs =>
    -- the statement ends with the first full stop, and the next one would begin with a colon or another full stop
    have hspace : dropSpace (c :: cs) = c :: cs := dropSpace_of_startsToken (startsToken_mark hc cs)
    have hbrace : ¬['\x7d'] <+: c :: cs := by
      rw [List.cons_prefix_cons]
      rintro ⟨rfl, -⟩
      exact absurd hc (by decide)
    by_cases hname : name.isDefaultGraph
    · obtain rfl := Term.isDefaultGraph_iff.1 hname
      rw [run_behindStatement_default] at hr
      cases blocks with
      | zero => cases hr
      | succ blocks =>
        rw [run_readBlocks (by simp [hspace]), hspace] at hr
        obtain ⟨_, _, hr, -⟩ := run_bind_eq_ok.1 hr
        exact hblock.mark hc _ _ _ _ hr
    · rw [run_behindStatement_named (Bool.eq_false_iff.2 hname)] at hr
      obtain ⟨_, _, hr, -⟩ := run_bind_eq_ok.1 hr
      cases bound with
      | zero => cases hr
      | succ bound =>
        rw [run_readGraphStatements (by rw [hspace]; exact hbrace), hspace] at hr
        obtain ⟨_, _, hr, -⟩ := run_bind_eq_ok.1 hr
        exact run_readTriples_mark hc _ hr

/-! ### Quads behind one another -/

@[simp]
theorem isDefaultGraph_relabel (t : Term) (rename : String → String) :
    (t.relabel rename).isDefaultGraph = t.isDefaultGraph := by
  cases t <;> rfl

theorem isNode_of_isName {t : Term} (h : t.isIri ∨ t.isBlank) : t.IsNode ∧ t.isDefaultGraph = false := by
  rcases h with h | h
  · obtain ⟨text, rfl⟩ := Term.isIri_iff.1 h
    exact ⟨trivial, rfl⟩
  · obtain ⟨label, rfl⟩ := Term.isBlank_iff.1 h
    exact ⟨trivial, rfl⟩

/-- Behind a full stop no objects and predicates follow. -/
theorem Reports.fullStop {quads : List Quad} {s p : Term} {bound bound' : Nat} {next : Reading Unit}
    (h : Reports quads next (before g done ('.' :: cs))) :
    Reports quads
      (do
        moreObjects bound s p
        morePredicates bound' s
        next) (before g done ('.' :: cs)) := by
  refine h.skip rfl ?_
  rw [run_bind_of_ok (run_moreObjects (by simp)), run_bind_of_ok (run_morePredicates (by simp))]

/-- Behind the last statement of a graph the other blocks are read. -/
theorem Reports.closeGraph {quads : List Quad} {last : Quad}
    (h : Reports quads (readBlocks readBlock blocks) (before .defaultGraph done ('\n' :: cs))) (hbound : 0 < bound) :
    Reports quads (behindStatement readBlock (last.graph.relabel keepApart) bound blocks)
      (before (last.graph.relabel keepApart) done
        ('.' :: '\n' :: ((if last.graph.isDefaultGraph then [] else ['\x7d', '\n']) ++ cs))) := by
  by_cases hname : last.graph.isDefaultGraph
  · rw [Term.relabel_of_isDefaultGraph hname, if_pos hname]
    exact h.skip rfl run_behindStatement_default
  · obtain ⟨b, rfl⟩ : ∃ b, bound = b + 1 := ⟨bound - 1, by omega⟩
    have hnamed : (last.graph.relabel keepApart).isDefaultGraph = false := by
      rw [isDefaultGraph_relabel]
      exact Bool.eq_false_iff.2 hname
    have hclose : dropSpace ('\n' :: ('\x7d' :: '\n' :: cs)) = '\x7d' :: '\n' :: cs := by
      rw [dropSpace_newline, dropSpace_of_startsToken (startsToken_cons.2 (by decide))]
    rw [if_neg hname, List.cons_append, List.cons_append, List.nil_append]
    refine h.skip rfl ?_
    rw [run_behindStatement_named hnamed, run_bind_of_ok (run_readGraphStatements_end hclose),
      run_bind_of_ok (run_setGraph .defaultGraph)]

theorem startsToken_openGraph (q : Quad) (cs : List Char) : StartsToken (openGraph q ++ cs) := by
  by_cases hname : q.graph.isDefaultGraph <;> simp [openGraph, writeTriple, hname]

section

variable {format : Format} {q last : Quad} {quads : List Quad} (hblock : ReadsStatements readBlock)
  (hvalid : q.IsValid) (hwritable : q.IsWritable format) (htail : EndsObject tail)
  (h : ReportsBehind readBlock q tail quads)

include hblock hvalid hwritable htail h

/-- The next quad has the same graph, subject and predicate. -/
theorem reportsBehind_object (hs : last.subject = q.subject) (hp : last.predicate = q.predicate)
    (hg : last.graph = q.graph) :
    ReportsBehind readBlock last (',' :: ' ' :: (q.object.display ++ ' ' :: tail)) (q :: quads) := by
  intro hlast done bound blocks hbounds objects predicates hlength
  rw [hs, hp, hg]
  simp only [List.length_cons, List.length_append] at hbounds hlength
  obtain ⟨n, rfl⟩ : ∃ n, objects = n + 1 := ⟨objects - 1, by omega⟩
  have hnext := refusesInLabel_behindStatement hblock (q.graph.relabel keepApart) bound blocks
  have hobjects := reports_readObjects hvalid hwritable (hg ▸ hlast.2.2.2) htail (hnext.morePredicates predicates _)
    (hs ▸ hlast.1) fun hq => h hq (q.relabel keepApart :: done) bound blocks (by omega) n predicates (by omega)
  refine hobjects.skip rfl (run_bind_congr ?_)
  rw [run_moreObjects_comma, dropSpace_space, dropSpace_display]

/-- The next quad has the same graph and subject. -/
theorem reportsBehind_predicate (hs : last.subject = q.subject) (hg : last.graph = q.graph) {space : List Char}
    (hspace : space = ['\n', '\t'] ∨ space = ['\n', '\t', '\t']) :
    ReportsBehind readBlock last
      (';' :: (space ++ (q.predicate.display ++ ' ' :: (q.object.display ++ ' ' :: tail)))) (q :: quads) := by
  intro hlast done bound blocks hbounds objects predicates hlength
  rw [hs, hg]
  simp only [List.length_cons, List.length_append] at hbounds hlength
  have hnext := refusesInLabel_behindStatement hblock (q.graph.relabel keepApart) bound blocks
  have hpredicates := reports_readPredicates hvalid hwritable (hg ▸ hlast.2.2.2) htail hnext
    (fun hq => h hq (q.relabel keepApart :: done) bound blocks (by omega)) (hs ▸ hlast.1)
    (show tail.length + 2 ≤ predicates by omega)
  obtain ⟨p, hp⟩ := Term.isIri_iff.1 hwritable.predicate
  rw [hp] at hpredicates ⊢
  have hdrop : dropSemicolons (space ++ ((Term.iri p).display ++ ' ' :: (q.object.display ++ ' ' :: tail))) =
      (Term.iri p).display ++ ' ' :: (q.object.display ++ ' ' :: tail) := by
    rcases hspace with rfl | rfl <;> rfl
  refine hpredicates.skip rfl ?_
  rw [run_bind_of_ok (run_moreObjects (by simp)), run_bind_congr (run_morePredicates_semicolon (by rw [hdrop]; rfl)),
    hdrop]

/-- In a graph with a name the next statement begins. -/
theorem reports_readGraphStatements (hname : q.graph.isDefaultGraph = false) (hg : q.graph.IsReadable maxDepth)
    (hcs : dropSpace cs = writeTriple q ++ ' ' :: tail) (hbound : tail.length < bound)
    (hblocks : tail.length ≤ blocks) :
    Reports (q :: quads)
      (do
        readGraphStatements bound
        modify fun p => { p with graph := .defaultGraph }
        readBlocks readBlock blocks)
      (before (q.graph.relabel keepApart) done cs) := by
  obtain ⟨b, rfl⟩ : ∃ b, bound = b + 1 := ⟨bound - 1, by omega⟩
  have hnext := refusesInLabel_behindStatement hblock (q.graph.relabel keepApart) b blocks
  have htriples := reports_readTriples hvalid hwritable hg htail hnext fun hq =>
    h hq (q.relabel keepApart :: done) b blocks (by omega)
  simp only [writeTriple, List.append_assoc, List.cons_append] at hcs
  have hbrace : ¬['\x7d'] <+: dropSpace cs := by
    rw [hcs]
    exact not_prefix_display (by decide) _ _
  refine htriples.skip rfl ?_
  rw [run_bind_congr (run_readGraphStatements hbrace), hcs, bind_assoc, behindStatement, isDefaultGraph_relabel, hname]
  rfl

/-- Outside of a graph with a name a statement is a block. -/
theorem reports_readBlocks_statement (hname : q.graph.isDefaultGraph)
    (hcs : dropSpace cs = writeTriple q ++ ' ' :: tail) (hblocks : tail.length < blocks) :
    Reports (q :: quads) (readBlocks readBlock blocks) (before .defaultGraph done cs) := by
  obtain ⟨n, rfl⟩ : ∃ n, blocks = n + 1 := ⟨blocks - 1, by omega⟩
  have hreadable := Term.isReadable_of_isDefaultGraph hname maxDepth
  have hnext := refusesInLabel_behindStatement hblock (q.graph.relabel keepApart) n n
  have htriples := reports_readTriples hvalid hwritable hreadable htail hnext fun hq =>
    h hq (q.relabel keepApart :: done) n n (by omega)
  simp only [writeTriple, List.append_assoc, List.cons_append] at hcs
  have hbrace := not_prefix_display (show '\x7b' ∈ ['\x7b', '\x7d'] by decide) q.predicate
    (' ' :: (q.object.display ++ ' ' :: tail))
  have hstatement := hblock.statement (Quad.isValid_iff.1 hvalid).1 hwritable.subject (startsToken_display _ _) hbrace
    .defaultGraph done
  rw [Term.relabel_of_isDefaultGraph hname] at htriples
  refine htriples.skip rfl ?_
  rw [run_readBlocks (by simp [hcs]), hcs, run_bind_congr hstatement, readStatement]
  simp only [bind_assoc]
  rfl

/-- A graph with a name is a block. -/
theorem reports_readBlocks_graph (hname : q.graph.isIri ∨ q.graph.isBlank) (hgraphs : readBlock = readTrigBlock)
    (hcs : dropSpace cs = q.graph.display ++ ' ' :: '\x7b' :: '\n' :: '\t' :: (writeTriple q ++ ' ' :: tail))
    (hblocks : tail.length < blocks) :
    Reports (q :: quads) (readBlocks readBlock blocks) (before .defaultGraph done cs) := by
  obtain ⟨n, rfl⟩ : ∃ n, blocks = n + 1 := ⟨blocks - 1, by omega⟩
  obtain ⟨hnode, hnamed⟩ := isNode_of_isName hname
  have vg := (Quad.isValid_iff.1 hvalid).2.2.2
  have hflat : q.graph.isIri ∨ q.graph.isBlank ∨ q.graph.isLiteral := hname.imp_right .inl
  have hrun : (readBlocks readBlock (n + 1)).run (before .defaultGraph done cs) =
      (do readGraphOrStatement; readBlocks readBlock n : Reading Unit).run
        (before .defaultGraph done (dropSpace cs)) := by
    rw [run_readBlocks (by simp [hcs])]
    refine run_bind_congr ?_
    rw [hcs, hgraphs, run_readTrigBlock (startsBlock_display hnode _), startsConstruct_display vg hflat,
      if_neg Bool.false_ne_true]
  by_cases rg : q.graph.IsReadable maxDepth
  · -- behind the name the graph begins with its first statement
    obtain ⟨rest, hrest, hread⟩ := readsBack_readFlatTerm vg hflat rg .defaultGraph done
      ('\x7b' :: '\n' :: '\t' :: (writeTriple q ++ ' ' :: tail)) (startsToken_cons.2 (by decide))
    have hgraph := run_readGraphOrStatement hread
    rw [isLiteral_relabel hnode, if_neg Bool.false_ne_true, hrest] at hgraph
    have hspace : dropSpace ('\n' :: '\t' :: (writeTriple q ++ ' ' :: tail)) = writeTriple q ++ ' ' :: tail := by
      simp [writeTriple]
    have hbound : tail.length < ('\n' :: '\t' :: (writeTriple q ++ ' ' :: tail)).length + 1 := by
      simp only [List.length_cons, List.length_append]
      omega
    refine (reports_readGraphStatements hblock hvalid hwritable htail h hnamed rg hspace hbound
      (Nat.le_of_lt_succ hblocks)).skip rfl ?_
    rw [hrun, hcs, run_bind_congr (hgraph.trans (run_readGraph _)), bind_assoc]
  · refine Reports.refuse (fun hq => rg hq.2.2.2) fun r hr => ?_
    rw [hrun, hcs] at hr
    obtain ⟨_, _, hr, -⟩ := run_bind_eq_ok.1 hr
    exact run_readGraphOrStatement_of_not_isReadable vg hname rg _ hr

/-- The first quad of a graph is read, in braces if the graph has a name. -/
theorem reports_readBlocks (hgraphs : q.graph.isDefaultGraph ∨ readBlock = readTrigBlock)
    (hcs : dropSpace cs = openGraph q ++ ' ' :: tail) (hblocks : tail.length < blocks) :
    Reports (q :: quads) (readBlocks readBlock blocks) (before .defaultGraph done cs) := by
  rcases hwritable.graph with hname | ⟨-, hname⟩
  · refine reports_readBlocks_statement hblock hvalid hwritable htail h hname ?_ hblocks
    rw [hcs, openGraph, if_pos hname, List.nil_append]
  · have hnamed := (isNode_of_isName hname).2
    refine reports_readBlocks_graph hblock hvalid hwritable htail h hname
      (hgraphs.resolve_left (by simp [hnamed])) ?_ hblocks
    rw [hcs, openGraph, hnamed]
    simp

/-- The next quad has the same graph and another subject. -/
theorem reportsBehind_statement (hg : last.graph = q.graph) {space : List Char}
    (hspace : space = ['\n'] ∨ space = ['\n', '\t']) :
    ReportsBehind readBlock last ('.' :: (space ++ (writeTriple q ++ ' ' :: tail))) (q :: quads) := by
  intro hlast done bound blocks hbounds objects predicates _
  rw [hg]
  simp only [List.length_cons, List.length_append] at hbounds
  have hcs : dropSpace (space ++ (writeTriple q ++ ' ' :: tail)) = writeTriple q ++ ' ' :: tail := by
    rcases hspace with rfl | rfl <;> simp [writeTriple]
  have hbound : tail.length < bound := by omega
  have hblocks : tail.length < blocks := by omega
  refine Reports.fullStop ?_
  by_cases hname : q.graph.isDefaultGraph
  · rw [Term.relabel_of_isDefaultGraph hname]
    exact (reports_readBlocks_statement hblock hvalid hwritable htail h hname hcs hblocks).skip rfl
      run_behindStatement_default
  · have hnamed := Bool.eq_false_iff.2 hname
    exact (reports_readGraphStatements hblock hvalid hwritable htail h hnamed (hg ▸ hlast.2.2.2) hcs hbound
      hblocks.le).skip rfl (run_behindStatement_named (by rw [isDefaultGraph_relabel, hnamed]))

/-- The next quad has another graph. -/
theorem reportsBehind_graph (hgraphs : q.graph.isDefaultGraph ∨ readBlock = readTrigBlock) :
    ReportsBehind readBlock last
      ('.' :: '\n' :: ((if last.graph.isDefaultGraph then [] else ['\x7d', '\n']) ++ (openGraph q ++ ' ' :: tail)))
      (q :: quads) := by
  intro hlast done bound blocks hbounds objects predicates _
  simp only [List.length_cons, List.length_append] at hbounds
  have hcs : dropSpace ('\n' :: (openGraph q ++ ' ' :: tail)) = openGraph q ++ ' ' :: tail := by
    rw [dropSpace_newline, dropSpace_of_startsToken (startsToken_openGraph q _)]
  refine Reports.fullStop (Reports.closeGraph ?_ (by omega))
  exact reports_readBlocks hblock hvalid hwritable htail h hgraphs hcs (by omega)

end

/-- Behind the last quad nothing is left. -/
theorem reportsBehind_nil (last : Quad) :
    ReportsBehind readBlock last
      ('.' :: '\n' :: ((if last.graph.isDefaultGraph then [] else ['\x7d', '\n']) ++ [])) [] := by
  intro hlast done bound blocks hbounds objects predicates _
  simp only [List.length_cons] at hbounds
  obtain ⟨n, rfl⟩ : ∃ n, blocks = n + 1 := ⟨blocks - 1, by omega⟩
  refine Reports.fullStop (Reports.closeGraph ?_ (by omega))
  exact ⟨fun _ => ⟨_, run_readBlocks_end rfl, rfl⟩, by simp⟩

end RdfDataset.Document.Turtle
