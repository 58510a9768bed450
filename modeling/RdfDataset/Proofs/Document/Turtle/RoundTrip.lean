import RdfDataset.Document.Reader
import RdfDataset.Proofs.Document.Turtle.Group

/-!
# Writing and reading back groups

What has been written in Turtle or TriG is read back as the same quads in the same order, with their labels kept apart
from generated ones, or not at all.

* `Document.Turtle.exists_reportsBehind` follows the writer from quad to quad, by induction on the quads.
* `Document.Turtle.reports_writeGroups`: the text of a list of quads is read as these quads.
* `Format.read_write_groups`: what is written is read back exactly if all quads are readable.
-/

namespace RdfDataset

namespace Document.Turtle

open Progress (before)

section

variable {readBlock : Reading Unit} {indent : List Char} {format : Format} {quads : List Quad}
  (hblock : ReadsStatements readBlock) (hindent : indent = [] ∨ indent = ['\t']) (hvalid : ∀ q ∈ quads, q.IsValid)
  (hwritable : ∀ q ∈ quads, q.IsWritable format)
  (hgraphs : ∀ q ∈ quads, q.graph.isDefaultGraph ∨ readBlock = readTrigBlock)

include hblock hindent hvalid hwritable hgraphs

/-- Behind an object there is a space and the mark that says how the text goes on, and the other quads are read. -/
theorem exists_reportsBehind (last : Quad) :
    ∃ tail, writeAfter indent last quads = ' ' :: tail ∧ EndsObject tail ∧ ReportsBehind readBlock last tail quads := by
  induction quads generalizing last with
  | nil => exact ⟨_, by simp [writeAfter, closeGraph], by simp [EndsObject], reportsBehind_nil last⟩
  | cons q quads ih =>
    rw [List.forall_mem_cons] at hvalid hwritable hgraphs
    obtain ⟨tail, htext, htail, h⟩ := ih hvalid.2 hwritable.2 hgraphs.2 q
    -- as in the writer: the less the quad shares with the last one, the more of it is written
    by_cases hgraph : last.graph = q.graph
    · by_cases hsubject : last.subject = q.subject ∧ !q.subject.isQuoted
      · by_cases hpredicate : last.predicate = q.predicate
        · refine ⟨_, ?_, ?_, reportsBehind_object hblock hvalid.1 hwritable.1 htail h hsubject.1 hpredicate hgraph⟩
          · rw [writeAfter, if_pos hgraph, writeNext, if_pos hsubject, if_pos hpredicate, htext]
            simp
          · simp [EndsObject]
        · have hspace :
              '\n' :: (indent ++ ['\t']) = ['\n', '\t'] ∨ '\n' :: (indent ++ ['\t']) = ['\n', '\t', '\t'] := by
            rcases hindent with rfl | rfl <;> simp
          refine ⟨_, ?_, ?_, reportsBehind_predicate hblock hvalid.1 hwritable.1 htail h hsubject.1 hgraph hspace⟩
          · rw [writeAfter, if_pos hgraph, writeNext, if_pos hsubject, if_neg hpredicate, htext]
            simp
          · simp [EndsObject]
      · have hspace : '\n' :: indent = ['\n'] ∨ '\n' :: indent = ['\n', '\t'] := by
          rcases hindent with rfl | rfl <;> simp
        refine ⟨_, ?_, ?_, reportsBehind_statement hblock hvalid.1 hwritable.1 htail h hgraph hspace⟩
        · rw [writeAfter, if_pos hgraph, writeNext, if_neg hsubject, htext]
          simp
        · simp [EndsObject]
    · refine ⟨_, ?_, ?_, reportsBehind_graph hblock hvalid.1 hwritable.1 htail h hgraphs.1⟩
      · rw [writeAfter, if_neg hgraph, closeGraph, htext]
        simp
      · simp [EndsObject]

/-- The quads are read from their text, unless one of them cannot be read. -/
theorem reports_writeGroups :
    Reports quads (readBlocks readBlock ((writeGroups indent quads).length + 1))
      (before .defaultGraph [] (writeGroups indent quads)) := by
  cases quads with
  | nil => exact ⟨fun _ => ⟨_, run_readBlocks_end rfl, rfl⟩, by simp⟩
  | cons q quads =>
    rw [List.forall_mem_cons] at hvalid hwritable hgraphs
    obtain ⟨tail, htext, htail, h⟩ := exists_reportsBehind hblock hindent hvalid.2 hwritable.2 hgraphs.2 q
    rw [writeGroups, htext]
    refine reports_readBlocks hblock hvalid.1 hwritable.1 htail h hgraphs.1 ?_ ?_
    · exact dropSpace_of_startsToken (startsToken_openGraph q _)
    · simp only [List.length_append, List.length_cons]
      omega

theorem readDocument_writeGroups :
    ((∀ q ∈ quads, q.IsReadable) →
        readDocument readBlock none (writeGroups indent quads) = .ok (quads.map (Quad.relabel keepApart))) ∧
      ((∃ q ∈ quads, ¬q.IsReadable) → ∃ e, readDocument readBlock none (writeGroups indent quads) = .error e) := by
  obtain ⟨hread, hrefuse⟩ := reports_writeGroups hblock hindent hvalid hwritable hgraphs
  constructor
  · intro hreadable
    obtain ⟨p, hrun, hp⟩ := hread hreadable
    refine bind_eq_ok.2 ⟨_, hrun, pure_eq_ok.2 ?_⟩
    simp [hp, before]
  · intro hnot
    cases hdocument : readDocument readBlock none (writeGroups indent quads) with
    | error e => exact ⟨e, rfl⟩
    | ok quads' =>
      obtain ⟨r, hrun, -⟩ := bind_eq_ok.1 hdocument
      exact absurd hrun (hrefuse hnot r)

end

end Document.Turtle

namespace Format

open Document Document.Turtle

/-- What Turtle and TriG make of the text of some quads. -/
private theorem read_layout {format : Format} (hformat : format = .turtle ∨ format = .triG) {quads : List Quad}
    (hvalid : ∀ q ∈ quads, q.IsValid) (hwritable : ∀ q ∈ quads, q.IsWritable format) :
    ((∀ q ∈ quads, q.IsReadable) →
        format.read (String.ofList (format.layout quads)) none = .ok (quads.map (Quad.relabel keepApart))) ∧
      ((∃ q ∈ quads, ¬q.IsReadable) → ∃ e, format.read (String.ofList (format.layout quads)) none = .error e) := by
  rcases hformat with rfl | rfl
  · have hgraphs : ∀ q ∈ quads, q.graph.isDefaultGraph ∨ readTurtleBlock = readTrigBlock := fun q hq =>
      .inl ((hwritable q hq).graph.resolve_right fun h => Bool.false_ne_true h.1)
    have h := readDocument_writeGroups readsStatements_readTurtleBlock (.inl rfl) hvalid hwritable hgraphs
    simpa [read, layout] using h
  · have h := readDocument_writeGroups readsStatements_readTrigBlock (.inr rfl) hvalid hwritable fun _ _ => .inr rfl
    simpa [read, layout] using h

/-- Quads of valid terms that Turtle or TriG can express are written, however their graphs, subjects and predicates
follow one another.  Without a base the same quads in the same order are read from the text if all of them are
readable, except that a label of `riog`, eight digits and any number of `d` has got one more `d`, which makes no two
labels one.  Otherwise the text is refused. -/
theorem read_write_groups {format : Format} (hformat : format = .turtle ∨ format = .triG) {quads : List Quad}
    (hvalid : ∀ q ∈ quads, q.IsValid) (hwritable : ∀ q ∈ quads, q.IsWritable format) :
    Function.Injective keepApart ∧
      (∀ label, keepApart label = if ResemblesGenerated label then label.push 'd' else label) ∧
      ∃ text, format.write quads = .ok text ∧
        ((∀ q ∈ quads, q.IsReadable) → format.read text none = .ok (quads.map (Quad.relabel keepApart))) ∧
        ((∃ q ∈ quads, ¬q.IsReadable) → ∃ e, format.read text none = .error e) :=
  ⟨keepApart_injective, keepApart_eq, _, write_eq_ok.2 ⟨hwritable, rfl⟩, read_layout hformat hvalid hwritable⟩

/-- Quads that share a subject and a predicate, a subject, or nothing but a label, in two graphs.  The label resembles a
generated one. -/
theorem read_write_groups_shared :
    let quads (label : String) : List Quad :=
      [⟨.blank label, .iri "a:p", .blank "b.c", .defaultGraph⟩,
        ⟨.blank label, .iri "a:p", .literal (.tagged "\"\n" "en"), .defaultGraph⟩,
        ⟨.blank label, .iri "a:q", .iri "a:o", .defaultGraph⟩,
        ⟨.quoted (.blank label) (.iri "a:p") (.iri "a:o") .defaultGraph, .iri "a:p", .blank label, .blank "g"⟩]
    ∃ text, Format.triG.write (quads "riog00000001") = .ok text ∧
      Format.triG.read text none = .ok (quads "riog00000001d") := by
  intro quads
  have hp : (Term.iri "a:p").IsValid := Term.isValid_iri.2 (by decide)
  have hq : (Term.iri "a:q").IsValid := Term.isValid_iri.2 (by decide)
  have ho : (Term.iri "a:o").IsValid := Term.isValid_iri.2 (by decide)
  have hg : (Term.blank "g").IsValid := Term.isValid_blank.2 (by decide)
  have hs : (Term.blank "riog00000001").IsValid := Term.isValid_blank.2 (by decide)
  have hlabel : (Term.blank "b.c").IsValid := Term.isValid_blank.2 (by decide)
  have hliteral : (Term.literal (.tagged "\"\n" "en")).IsValid :=
    Term.isValid_literal.2 (show LanguageTag.read "en" = .ok "en" by decide)
  have hquoted := Term.isValid_quoted.2 ⟨hs, hp, ho, .defaultGraph⟩
  have hvalid : ∀ q ∈ quads "riog00000001", q.IsValid := by
    simp [quads, Quad.isValid_iff, hp, hq, ho, hg, hs, hlabel, hliteral, hquoted, Term.IsValid.defaultGraph]
  have hwritable : ∀ q ∈ quads "riog00000001", q.IsWritable .triG := by
    simp only [quads, List.forall_mem_cons, List.not_mem_nil, false_implies, implies_true, and_true]
    exact ⟨⟨trivial, rfl, .inl trivial, .inl rfl⟩, ⟨trivial, rfl, .inr rfl, .inl rfl⟩,
      ⟨trivial, rfl, .inl trivial, .inl rfl⟩,
      ⟨⟨trivial, rfl, .inl trivial, rfl⟩, rfl, .inl trivial, .inr ⟨rfl, .inr rfl⟩⟩⟩
  have hreadable : ∀ q ∈ quads "riog00000001", q.IsReadable := by decide
  obtain ⟨-, -, text, hwrite, hread, -⟩ := read_write_groups (.inr rfl) hvalid hwritable
  exact ⟨text, hwrite, hread hreadable⟩

/-- Valid labels with two full stops in a row or with a colon are written and refused. -/
theorem not_read_write_labels :
    let quad (label : String) : Quad := ⟨.blank label, .iri "a:p", .iri "a:o", .defaultGraph⟩
    ((quad "a..b").IsValid ∧ (quad "a..b").IsWritable .turtle ∧
        Format.turtle.write [quad "a..b"] = .ok "_:a..b <a:p> <a:o> .\n" ∧
        Format.turtle.read "_:a..b <a:p> <a:o> .\n" none = .error .malformed) ∧
      (quad "a:b").IsValid ∧ (quad "a:b").IsWritable .turtle ∧
        Format.turtle.write [quad "a:b"] = .ok "_:a:b <a:p> <a:o> .\n" ∧
        Format.turtle.read "_:a:b <a:p> <a:o> .\n" none = .error .malformed := by
  intro quad
  have hvalid {label : String} (h : checkBlank label = .ok ()) : (quad label).IsValid :=
    Quad.isValid_iff.2 ⟨Term.isValid_blank.2 h, Term.isValid_iri.2 (show checkIri "a:p" = .ok () by decide),
      Term.isValid_iri.2 (show checkIri "a:o" = .ok () by decide), .defaultGraph⟩
  have hwritable (label : String) : (quad label).IsWritable .turtle := ⟨trivial, rfl, .inl trivial, .inl rfl⟩
  exact ⟨⟨hvalid (by decide), hwritable _, by decide, by decide +kernel⟩,
    hvalid (by decide), hwritable _, by decide, by decide +kernel⟩

end Format

end RdfDataset
