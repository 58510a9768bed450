import RdfDataset.Document.Reader
import RdfDataset.Proofs.Document.Refusal

/-!
# Writing and reading back

What has been written in N-Triples or N-Quads is read back as the same quads in the same order, or not at all.

* `Document.IsOneLine`: a text without line ends; the text of a valid quad is one.
* `Document.readLines_writeLines`: readable quads are read from their lines, and a document with another quad is
  refused.
* `Format.read_write`: what is written is read back exactly if all quads are readable.
* `Format.write_read`: what has been read can be written and read back.
-/

namespace RdfDataset

namespace Document

/-! ### Lines -/

/-- The characters of a text stand on one line. -/
def IsOneLine (cs : List Char) : Prop :=
  ∀ c ∈ cs, isLineEnd c = false

@[simp]
theorem isOneLine_nil : IsOneLine [] := by
  simp [IsOneLine]

@[simp]
theorem isOneLine_cons {c : Char} {cs : List Char} : IsOneLine (c :: cs) ↔ isLineEnd c = false ∧ IsOneLine cs :=
  List.forall_mem_cons

@[simp]
theorem isOneLine_append {cs ds : List Char} : IsOneLine (cs ++ ds) ↔ IsOneLine cs ∧ IsOneLine ds :=
  List.forall_mem_append

theorem isOneLine_of_noDelimiter {cs : List Char} (h : NoDelimiter cs) : IsOneLine cs := by
  intro c hc
  have := h c hc
  simp only [delimiters, List.mem_cons, not_or] at this
  simp [isLineEnd, this]

/-- Line ends are escaped in literals. -/
theorem isOneLine_escapeLiteral (cs : List Char) : IsOneLine (escapeLiteral cs) := by
  fun_induction escapeLiteral cs with
  | case1 => simp
  | case2 cs ih => simp [isLineEnd, ih]
  | case3 cs ih => simp [isLineEnd, ih]
  | case4 cs ih => simp [isLineEnd, ih]
  | case5 cs ih => simp [isLineEnd, ih]
  | case6 c cs _ _ hnewline hreturn ih =>
    simp [isLineEnd, ih, show c ≠ '\n' from hnewline, show c ≠ '\r' from hreturn]

private theorem isOneLine_displayIri {text : String} (h : checkIri text = .ok ()) : IsOneLine (displayIri text) := by
  simp [displayIri, isLineEnd, isOneLine_of_noDelimiter (noDelimiter_of_checkIri h)]

/-- A valid term stands on one line. -/
theorem isOneLine_display {t : Term} (h : t.IsValid) : IsOneLine t.display := by
  induction t with
  | iri text => exact isOneLine_displayIri (Term.isValid_iri.1 h)
  | blank label =>
    simp [Term.display_blank, isLineEnd, isOneLine_of_noDelimiter (noDelimiter_of_checkBlank (Term.isValid_blank.1 h))]
  | var name =>
    simp [Term.display_var, isLineEnd, isOneLine_of_noDelimiter (noDelimiter_of_checkVariable (Term.isValid_var.1 h))]
  | defaultGraph => simp [Term.display_defaultGraph, isLineEnd]
  | literal l =>
    rw [Term.isValid_literal] at h
    cases l with
    | plain value => simp [Term.display_literal, Literal.display, isLineEnd, isOneLine_escapeLiteral]
    | tagged value tag =>
      simp [Term.display_literal, Literal.display, isLineEnd, isOneLine_escapeLiteral,
        isOneLine_of_noDelimiter (noDelimiter_of_readTag h)]
    | typed value datatype hne =>
      simp [Term.display_literal, Literal.display, isLineEnd, isOneLine_escapeLiteral, isOneLine_displayIri h]
  | quoted s p o g ihs ihp iho ihg =>
    obtain ⟨hs, hp, ho, hg⟩ := Term.isValid_quoted.1 h
    by_cases hgraph : g.isDefaultGraph <;>
      simp [Term.display_quoted, isLineEnd, hgraph, ihs hs, ihp hp, iho ho, ihg hg]

theorem isOneLine_display_quad {q : Quad} (h : q.IsValid) : IsOneLine q.display := by
  obtain ⟨hs, hp, ho, hg⟩ := Quad.isValid_iff.1 h
  by_cases hgraph : q.graph.isDefaultGraph <;>
    simp [Quad.display, isLineEnd, hgraph, isOneLine_display hs, isOneLine_display hp, isOneLine_display ho,
      isOneLine_display hg]

/-! ### Documents -/

/-- A document begins with its first line. -/
theorem splitOn_line {line : List Char} (h : IsOneLine line) (text : List Char) :
    Text.splitOn isLineEnd (line ++ '\n' :: text) = line :: Text.splitOn isLineEnd text := by
  induction line with
  | nil => simp [Text.splitOn, isLineEnd]
  | cons c line ih =>
    obtain ⟨hc, hline⟩ := isOneLine_cons.1 h
    simp [Text.splitOn, hc, ih hline]

/-- What is read of a document is what is read of its first line and of the rest. -/
theorem readLines_line {hasGraphs : Bool} {line : List Char} (h : IsOneLine line) (text : List Char) :
    readLines hasGraphs (line ++ '\n' :: text) =
      (convertLine hasGraphs line).bind fun first => (readLines hasGraphs text).map (first ++ ·) := by
  rw [readLines, splitOn_line h, List.mapM_cons, readLines]
  cases convertLine hasGraphs line <;> cases (Text.splitOn isLineEnd text).mapM (convertLine hasGraphs) <;> rfl

variable {format : Format}

/-- The line of a quad gives this quad or cannot be read. -/
theorem convertLine_display {q : Quad} (hvalid : q.IsValid) (hwritable : q.IsWritable format) :
    (q.IsReadable → convertLine format.hasGraphs q.display = .ok [q]) ∧
      (¬q.IsReadable → convertLine format.hasGraphs q.display = .error .malformed) := by
  constructor
  · intro hreadable
    simp [convertLine, readLine_display hwritable hvalid hreadable, hvalid.convert_report]
  · intro hreadable
    rw [convertLine, readLine_display_eq_none hwritable hvalid hreadable]

/-- Quads are read back from their lines, unless one of them cannot be read. -/
theorem readLines_writeLines {quads : List Quad} (hvalid : ∀ q ∈ quads, q.IsValid)
    (hwritable : ∀ q ∈ quads, q.IsWritable format) :
    ((∀ q ∈ quads, q.IsReadable) → readLines format.hasGraphs (writeLines quads) = .ok quads) ∧
      ((∃ q ∈ quads, ¬q.IsReadable) → readLines format.hasGraphs (writeLines quads) = .error .malformed) := by
  induction quads with
  | nil => exact ⟨fun _ => rfl, by simp⟩
  | cons q quads ih =>
    rw [List.forall_mem_cons] at hvalid hwritable
    obtain ⟨hread, hrefuse⟩ := ih hvalid.2 hwritable.2
    obtain ⟨hline, hlineRefused⟩ := convertLine_display hvalid.1 hwritable.1
    have htext : writeLines (q :: quads) = q.display ++ '\n' :: writeLines quads := by simp [writeLines]
    rw [htext, readLines_line (isOneLine_display_quad hvalid.1)]
    constructor
    · intro hreadable
      rw [List.forall_mem_cons] at hreadable
      rw [hline hreadable.1, hread hreadable.2]
      rfl
    · rintro ⟨q', hq', hnot⟩
      by_cases hq : q.IsReadable
      · -- the first line is read, so that the line at fault is among the others
        have hmem : q' ∈ quads := (List.mem_cons.1 hq').resolve_left fun heq => hnot (heq ▸ hq)
        rw [hline hq, hrefuse ⟨q', hmem, hnot⟩]
        rfl
      · rw [hlineRefused hq]
        rfl

end Document

namespace Format

/-- A base IRI makes no difference to a document of lines. -/
private theorem read_eq_readLines {format : Format} (hformat : format = .nTriples ∨ format = .nQuads) (text : String)
    {base : Option String} (hbase : ∀ iri ∈ base, checkIri iri = .ok ()) :
    format.read text base = Document.readLines format.hasGraphs text.toList := by
  have hread : ∃ r, base.mapM (fun base => (Iri.readAbsolute base.toList).mapError ReadError.invalidBase) = .ok r := by
    cases base with
    | none => exact ⟨none, rfl⟩
    | some iri =>
      have hcheck := hbase iri rfl
      simp only [checkIri, mapError_eq_ok] at hcheck
      obtain ⟨r, hr, -⟩ := Iri.exists_readAbsolute hcheck
      exact ⟨some r, by simp [Option.mapM, hr]⟩
  obtain ⟨r, hr⟩ := hread
  rcases hformat with rfl | rfl
  · rw [read, hr]
    rfl
  · rw [read, hr]
    rfl

/-- Quads that a format of lines can express are written on lines. -/
theorem write_eq_writeLines {format : Format} (hformat : format = .nTriples ∨ format = .nQuads)
    {quads : List Quad} (hwritable : ∀ q ∈ quads, q.IsWritable format) :
    format.write quads = .ok (String.ofList (Document.writeLines quads)) := by
  rw [write_eq_ok]
  refine ⟨hwritable, ?_⟩
  rcases hformat with rfl | rfl <;> rfl

/-- Quads of valid terms that N-Triples or N-Quads can express are written.  From the text the same quads in the same
order are read, with any base or none, if all of them are readable: no label of a blank node has a colon or a full stop
behind another one, and quoted triples stand in one another at most `Document.maxDepth` deep.  Otherwise the text is
refused as malformed. -/
theorem read_write {format : Format} (hformat : format = .nTriples ∨ format = .nQuads) {quads : List Quad}
    (hvalid : ∀ q ∈ quads, q.IsValid) (hwritable : ∀ q ∈ quads, q.IsWritable format) {base : Option String}
    (hbase : ∀ iri ∈ base, checkIri iri = .ok ()) :
    ∃ text, format.write quads = .ok text ∧
      ((∀ q ∈ quads, q.IsReadable) → format.read text base = .ok quads) ∧
      ((∃ q ∈ quads, ¬q.IsReadable) → format.read text base = .error .malformed) := by
  refine ⟨_, write_eq_writeLines hformat hwritable, ?_⟩
  rw [read_eq_readLines hformat _ hbase, String.toList_ofList]
  exact Document.readLines_writeLines hvalid hwritable

/-- A quad with a quoted triple, in which a label has a full stop and a literal needs escapes. -/
theorem read_write_quoted :
    let q : Quad :=
      ⟨.quoted (.blank "b.c") (.iri "a:p") (.literal (.tagged "\"\n" "en")) .defaultGraph, .iri "a:p", .iri "a:o",
        .blank "g"⟩
    ∃ text, Format.nQuads.write [q] = .ok text ∧ Format.nQuads.read text (some "a:b") = .ok [q] := by
  intro q
  have hpredicate : (Term.iri "a:p").IsValid := Term.isValid_iri.2 (by decide)
  have hobject : (Term.iri "a:o").IsValid := Term.isValid_iri.2 (by decide)
  have hgraph : (Term.blank "g").IsValid := Term.isValid_blank.2 (by decide)
  have hlabel : (Term.blank "b.c").IsValid := Term.isValid_blank.2 (by decide)
  have hliteral : (Term.literal (.tagged "\"\n" "en")).IsValid :=
    Term.isValid_literal.2 (show LanguageTag.read "en" = .ok "en" by decide)
  have hsubject := Term.isValid_quoted.2 ⟨hlabel, hpredicate, hliteral, .defaultGraph⟩
  have hvalid : q.IsValid := Quad.isValid_iff.2 ⟨hsubject, hpredicate, hobject, hgraph⟩
  have hwritable : q.IsWritable .nQuads := ⟨⟨trivial, rfl, .inr rfl, rfl⟩, rfl, .inl trivial, .inr ⟨rfl, .inr rfl⟩⟩
  have hreadable : q.IsReadable := by decide
  have hbase : ∀ iri ∈ some "a:b", checkIri iri = .ok () := by decide
  obtain ⟨text, hwrite, hread, -⟩ := read_write (.inr rfl) (List.forall_mem_singleton.2 hvalid)
    (List.forall_mem_singleton.2 hwritable) hbase
  exact ⟨text, hwrite, hread (List.forall_mem_singleton.2 hreadable)⟩

/-- A valid label with two full stops in a row is written and refused. -/
theorem not_read_write_dots :
    let q : Quad := ⟨.blank "a..b", .iri "a:p", .iri "a:o", .defaultGraph⟩
    q.IsValid ∧ q.IsWritable .nTriples ∧ Format.nTriples.write [q] = .ok "_:a..b <a:p> <a:o> .\n" ∧
      Format.nTriples.read "_:a..b <a:p> <a:o> .\n" none = .error .malformed := by
  intro q
  have hvalid : q.IsValid :=
    Quad.isValid_iff.2 ⟨Term.isValid_blank.2 (show checkBlank "a..b" = .ok () by decide),
      Term.isValid_iri.2 (show checkIri "a:p" = .ok () by decide),
      Term.isValid_iri.2 (show checkIri "a:o" = .ok () by decide), .defaultGraph⟩
  exact ⟨hvalid, ⟨trivial, rfl, .inl trivial, .inl rfl⟩, by decide, by decide⟩

/-- A document of lines that has been read can be written again, and is read back as it was. -/
theorem write_read {format : Format} (hformat : format = .nTriples ∨ format = .nQuads) {text : String}
    {base : Option String} (hbase : ∀ iri ∈ base, checkIri iri = .ok ()) {quads : List Quad}
    (h : format.read text base = .ok quads) :
    ∃ text', format.write quads = .ok text' ∧ format.read text' base = .ok quads := by
  rw [read_eq_readLines hformat text hbase] at h
  have hwritable := Document.isWritable_of_readLines h
  refine ⟨_, write_eq_writeLines hformat hwritable, ?_⟩
  rw [read_eq_readLines hformat _ hbase, String.toList_ofList]
  exact (Document.readLines_writeLines (Document.isValid_of_readLines h) hwritable).1
    (Document.isReadable_of_readLines h)

end Format

end RdfDataset
