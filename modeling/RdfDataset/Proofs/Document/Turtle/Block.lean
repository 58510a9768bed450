import RdfDataset.Proofs.Document.Turtle.Statement

/-!
# Reading back blocks

A statement is the beginning of a block in Turtle and in TriG, as no keyword begins like a subject.

* `Document.Turtle.ReadsStatements`: a reader of blocks reads statements, and refuses the rest of a label.
  `readsStatements_readTurtleBlock` and `readsStatements_readTrigBlock` show it of both.
-/

namespace RdfDataset.Document.Turtle

open Progress (before)

variable {done : List Quad} {g : Term} {cs : List Char}

/-! ### What blocks begin with -/

/-- A text that begins like the subjects and the graph names that are written, or like the rest of a label. -/
def StartsBlock : List Char → Prop
  | [] => False
  | c :: _ => c ∈ ['<', '_', '.', ':']

theorem startsBlock_display {t : Term} (ht : t.IsNode) (cs : List Char) : StartsBlock (t.display ++ cs) := by
  cases t with
  | iri text => exact .head _
  | blank label => exact .tail _ (.head _)
  | quoted s p o g => exact .head _
  | _ => exact ht.elim

theorem startsBlock_mark {c : Char} (hc : c ∈ ['.', ':']) (cs : List Char) : StartsBlock (c :: cs) :=
  List.mem_cons_of_mem _ (List.mem_cons_of_mem _ hc)

/-- No keyword begins like that. -/
private theorem StartsBlock.afterKeyword? (h : StartsBlock cs) {keyword : String}
    (hkeyword : ∃ k ∉ ['<', '_', '.', ':'], ∃ ks, keyword.toList = k :: ks) : afterKeyword? keyword cs = none := by
  obtain ⟨k, hk, ks, hks⟩ := hkeyword
  have hlength : keyword.length = ks.length + 1 := by
    rw [← String.length_toList, hks, List.length_cons]
  cases cs with
  | nil => exact h.elim
  | cons c cs =>
    have hupper : ∀ c ∈ ['<', '_', '.', ':'], c.toUpper = c := by simp [Char.toUpper]
    have hne : c ≠ k := fun hc => hk (hc ▸ h)
    simp [Turtle.afterKeyword?, hks, hlength, hupper c h, hne]

private theorem StartsBlock.readDirective (h : StartsBlock cs) : readDirective cs = none := by
  have hprefix : Turtle.afterKeyword? "PREFIX" cs = none := h.afterKeyword? ⟨'P', by decide, _, rfl⟩
  have hbase : Turtle.afterKeyword? "BASE" cs = none := h.afterKeyword? ⟨'B', by decide, _, rfl⟩
  cases cs with
  | nil => exact h.elim
  | cons c cs =>
    have hat : c ≠ '@' := by
      rintro rfl
      exact absurd h (by simp [StartsBlock])
    simp [Turtle.readDirective, hat.symm, hprefix, hbase]

/-- A Turtle block that begins like that is a statement. -/
theorem run_readTurtleBlock (h : StartsBlock cs) :
    readTurtleBlock.run (before g done cs) = readStatement.run (before g done cs) := by
  rw [readTurtleBlock, run_bind_of_ok run_upcoming, h.readDirective]

/-- A TriG block that begins like that is a statement or a graph with its name. -/
theorem run_readTrigBlock (h : StartsBlock cs) :
    readTrigBlock.run (before g done cs) =
      (if startsConstruct cs then readStatement else readGraphOrStatement).run (before g done cs) := by
  have hgraph : afterKeyword? "GRAPH" cs = none := h.afterKeyword? ⟨'G', by decide, _, rfl⟩
  have hbrace : cs.head? ≠ some '\x7b' := by
    rintro hcs
    obtain ⟨ds, rfl⟩ := List.head?_eq_some_iff.1 hcs
    exact absurd h (by simp [StartsBlock])
  rw [readTrigBlock, run_bind_of_ok run_upcoming, h.readDirective, hgraph]
  simp [hbrace]

/-! ### Names -/

/-- A name is read, which must not be a literal; a brace tells whether it names a graph. -/
theorem run_readGraphOrStatement {t : Term} {rest : List Char}
    (hread : readFlatTerm.run (before g done cs) = .ok (t, before g done rest)) :
    readGraphOrStatement.run (before g done cs) =
      if t.isLiteral then .error .malformed
      else
        (if (dropSpace rest).head? == some '\x7b' then readGraph t
          else do
            readDescription t
            skip
            expect ".").run (before g done (dropSpace rest)) := by
  by_cases hliteral : t.isLiteral
  · have hlabel : readLabelTerm.run (before g done cs) = .error .malformed := by
      rw [readLabelTerm, run_bind_of_ok hread, if_pos hliteral]
      rfl
    rw [readGraphOrStatement, run_bind_of_error hlabel, if_pos hliteral]
  · have hlabel : readLabelTerm.run (before g done cs) = .ok (t, before g done rest) := by
      rw [readLabelTerm, run_bind_of_ok hread, if_neg hliteral]
      rfl
    rw [readGraphOrStatement, run_bind_of_ok hlabel, run_bind_of_ok run_skip, run_bind_of_ok run_upcoming,
      if_neg hliteral]

private theorem exists_of_run_readGraphOrStatement {p : Progress} {r : Unit × Progress}
    (h : readGraphOrStatement.run p = .ok r) : ∃ t p', readFlatTerm.run p = .ok (t, p') := by
  obtain ⟨_, _, hlabel, -⟩ := run_bind_eq_ok.1 h
  obtain ⟨t, p', hread, -⟩ := run_bind_eq_ok.1 hlabel
  exact ⟨t, p', hread⟩

/-- What is left of a name that is not readable is taken for a predicate, and refused. -/
theorem run_readGraphOrStatement_of_not_isReadable {t : Term} (hvalid : t.IsValid) (hname : t.isIri ∨ t.isBlank)
    {depth : Nat} (h : ¬t.IsReadable depth) {tail : List Char} (r : Unit × Progress) :
    readGraphOrStatement.run (before g done (t.display ++ ' ' :: tail)) ≠ .ok r := by
  intro hr
  obtain ⟨t', p, hread⟩ := exists_of_run_readGraphOrStatement hr
  obtain ⟨rest, hcut, rfl⟩ := breaksOff_readFlatTerm hvalid (hname.imp_right .inl) h _ _ _ _ _ hread
  have hhead : (rest.head? == some '\x7b') = false := by cases hcut <;> simp
  rw [run_readGraphOrStatement hread, hcut.dropSpace, hhead] at hr
  split at hr
  · cases hr
  · obtain ⟨_, _, hr, -⟩ := run_bind_eq_ok.1 hr
    exact refusesInLabel_readDescription t' _ _ _ _ hcut hr

section

variable {t : Term} {tail : List Char} (hvalid : t.IsValid) (hname : t.isIri ∨ t.isBlank) (htail : StartsToken tail)
  (hbrace : ¬['\x7b'] <+: tail)

include hvalid hname htail hbrace

/-- Behind an IRI or a blank node no graph begins if no brace follows. -/
private theorem head?_of_run_readFlatTerm {t' : Term} {p : Progress}
    (h : readFlatTerm.run (before g done (t.display ++ ' ' :: tail)) = .ok (t', p)) :
    ∃ rest, p = before g done rest ∧ (dropSpace rest).head? ≠ some '\x7b' := by
  have hflat : t.isIri ∨ t.isBlank ∨ t.isLiteral := hname.imp_right .inl
  by_cases hreadable : t.IsReadable maxDepth
  · obtain ⟨rest, rfl, hread⟩ := readsBack_readFlatTerm hvalid hflat hreadable g done tail htail
    rw [hread] at h
    refine ⟨rest, (Prod.mk.inj (Except.ok.inj h)).2.symm, fun hhead => hbrace ?_⟩
    obtain ⟨cs, hcs⟩ := List.head?_eq_some_iff.1 hhead
    exact ⟨cs, hcs.symm⟩
  · obtain ⟨rest, hcut, rfl⟩ := breaksOff_readFlatTerm hvalid hflat hreadable _ _ _ _ _ h
    refine ⟨rest, rfl, ?_⟩
    rw [hcut.dropSpace]
    cases hcut <;> simp

/-- A subject that could name a graph is read as that of a statement. -/
private theorem run_readGraphOrStatement_display :
    readGraphOrStatement.run (before g done (t.display ++ ' ' :: tail)) =
      readStatement.run (before g done (t.display ++ ' ' :: tail)) := by
  have hconstruct := startsConstruct_display hvalid (hname.imp_right .inl) (' ' :: tail)
  have hterm : (readTerm maxDepth).run (before g done (t.display ++ ' ' :: tail)) = _ :=
    run_readTerm_of_startsConstruct hconstruct maxDepth
  -- both readers begin with the same term, and fail if it cannot be read
  cases hread : readFlatTerm.run (before g done (t.display ++ ' ' :: tail)) with
  | error e =>
    rw [hread] at hterm
    rw [readGraphOrStatement, readLabelTerm, run_bind_of_error (run_bind_of_error hread), readStatement, readTriples,
      run_bind_of_error]
    rw [run_bind_of_ok run_upcoming]
    exact run_bind_of_error hterm
  | ok r =>
    obtain ⟨t', p⟩ := r
    obtain ⟨rest, rfl, hhead⟩ := head?_of_run_readFlatTerm hvalid hname htail hbrace hread
    rw [hread] at hterm
    have htriples := run_readTriples hterm (startsProperties_display t (' ' :: tail))
    rw [run_readGraphOrStatement hread, readStatement]
    by_cases hliteral : t'.isLiteral
    · rw [if_pos hliteral] at htriples ⊢
      rw [run_bind_of_error htriples]
    · rw [if_neg hliteral] at htriples ⊢
      rw [run_bind_congr htriples, beq_false_of_ne hhead]
      rfl

end

/-! ### The rest of a label -/

section

variable {c : Char} (hc : c ∈ ['.', ':'])

include hc

theorem startsToken_mark (cs : List Char) : StartsToken (c :: cs) := by
  simp only [List.mem_cons, List.not_mem_nil, or_false] at hc
  rcases hc with rfl | rfl <;> exact startsToken_cons.2 (by decide)

private theorem startsConstruct_mark (cs : List Char) : startsConstruct (c :: cs) = false := by
  simp only [List.mem_cons, List.not_mem_nil, or_false] at hc
  rcases hc with rfl | rfl <;> rfl

/-- What can be read there is a number behind a full stop, which is a literal. -/
private theorem isLiteral_of_run_readFlatTerm {t : Term} {p : Progress}
    (h : readFlatTerm.run (before g done (c :: cs)) = .ok (t, p)) :
    t.isLiteral ∧ ∃ rest, p = before g done rest := by
  simp only [List.mem_cons, List.not_mem_nil, or_false] at hc
  rcases hc with rfl | rfl
  · obtain ⟨l, ⟨rest, -, rfl⟩, rfl⟩ : ∃ l, (∃ rest, readNumber ('.' :: cs) = some (l, rest) ∧ before g done rest = p) ∧
        Term.literal l = t := by
      simpa [readFlatTerm, afterEmptyBrackets?, readSimpleTerm, run_token] using h
    exact ⟨rfl, rest, rfl⟩
  · have hread : readFlatTerm.run (before g done (':' :: cs)) = .error .malformed := rfl
    rw [hread] at h
    cases h

theorem run_readTriples_mark (r : Unit × Progress) : readTriples.run (before g done (c :: cs)) ≠ .ok r := by
  have hconstruct := startsConstruct_mark hc cs
  have hproperties : startsProperties (c :: cs) = false := by
    rw [startsProperties, hconstruct, Bool.and_false]
  intro hr
  obtain ⟨t, p, hterm⟩ := exists_of_run_readTriples hr
  have hread := hterm
  rw [run_readTerm_of_startsConstruct hconstruct] at hread
  obtain ⟨hliteral, rest, rfl⟩ := isLiteral_of_run_readFlatTerm hc hread
  rw [run_readTriples hterm hproperties, if_pos hliteral] at hr
  cases hr

private theorem run_readGraphOrStatement_mark (r : Unit × Progress) :
    readGraphOrStatement.run (before g done (c :: cs)) ≠ .ok r := by
  intro hr
  obtain ⟨t, p, hread⟩ := exists_of_run_readGraphOrStatement hr
  obtain ⟨hliteral, rest, rfl⟩ := isLiteral_of_run_readFlatTerm hc hread
  rw [run_readGraphOrStatement hread, if_pos hliteral] at hr
  cases hr

end

/-! ### Block readers -/

/-- A reader of blocks reads statements, and refuses the rest of a label. -/
structure ReadsStatements (readBlock : Reading Unit) : Prop where
  statement : ∀ {t : Term}, t.IsValid → t.IsNode → ∀ {tail}, StartsToken tail → ¬['\x7b'] <+: tail → ∀ g done,
    readBlock.run (before g done (t.display ++ ' ' :: tail)) =
      readStatement.run (before g done (t.display ++ ' ' :: tail))
  mark : ∀ {c : Char}, c ∈ ['.', ':'] → ∀ g done cs r, readBlock.run (before g done (c :: cs)) ≠ .ok r

theorem readsStatements_readTurtleBlock : ReadsStatements readTurtleBlock where
  statement _ ht _ _ _ g done := run_readTurtleBlock (startsBlock_display ht _)
  mark hc g done cs r hr := by
    rw [run_readTurtleBlock (startsBlock_mark hc cs)] at hr
    obtain ⟨_, _, htriples, -⟩ := run_bind_eq_ok.1 hr
    exact run_readTriples_mark hc _ htriples

theorem readsStatements_readTrigBlock : ReadsStatements readTrigBlock where
  statement {t} hvalid ht tail htail hbrace g done := by
    rw [run_readTrigBlock (startsBlock_display ht _)]
    split
    · rfl
    · rename_i hconstruct
      have hname : t.isIri ∨ t.isBlank := by
        cases t with
        | quoted s p o g => simp [Term.display_quoted, startsConstruct] at hconstruct
        | iri text => exact .inl rfl
        | blank label => exact .inr rfl
        | _ => exact ht.elim
      exact run_readGraphOrStatement_display hvalid hname htail hbrace
  mark hc g done cs r := by
    rw [run_readTrigBlock (startsBlock_mark hc cs), startsConstruct_mark hc cs]
    exact run_readGraphOrStatement_mark hc r

end RdfDataset.Document.Turtle
