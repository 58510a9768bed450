import RdfDataset.Document.Report
import RdfDataset.Proofs.Document.Token
import RdfDataset.Proofs.Term.Codec

/-!
# What is made of reports

The terms that are made of reported ones are valid, and valid terms are made of themselves.  A report whose language
tags have been read is therefore made a quad of as it stands, or refused.

* `Term.isValid_of_convert` and `Term.IsValid.convert`: validity is what building a term again gives and needs.
* `Term.IsLowered`: the language tags of a term are as they are kept.
* `Document.Report.IsLowered.eq_of_convert`: a quad that is made of such a report is the one reported.
-/

namespace RdfDataset

/-- All language tags of a term have been read. -/
def Term.IsLowered : Term → Prop
  | .literal l => l.IsLowered
  | .quoted s p o g => s.IsLowered ∧ p.IsLowered ∧ o.IsLowered ∧ g.IsLowered
  | _ => True

theorem Literal.isValid_of_convert {l l' : Literal} (h : l.convert = .ok l') : (Term.literal l').IsValid := by
  cases l with
  | plain value =>
    rw [← Except.ok.inj h]
    exact .plain value
  | tagged value tag => exact .tagged h
  | typed value datatype hne => exact .typed h

/-- A literal whose tag has been read stays as it is. -/
theorem Literal.IsLowered.eq_of_convert {l l' : Literal} (hl : l.IsLowered) (h : l.convert = .ok l') : l' = l := by
  cases l with
  | plain value => exact (Except.ok.inj h).symm
  | tagged value tag =>
    obtain ⟨lower, hread, rfl⟩ := tagged?_eq_ok.1 h
    rw [Except.ok.inj (hread.symm.trans hl)]
  | typed value datatype hne =>
    obtain ⟨-, rfl⟩ := typed?_eq_ok.1 h
    simp [ofDatatype, hne]

namespace Term

theorem convert_quoted_eq_ok {s p o g t : Term} :
    (Term.quoted s p o g).convert = .ok t ↔
      ∃ g' s' p' o', g.convert = .ok g' ∧ s.convert = .ok s' ∧ p.convert = .ok p' ∧ o.convert = .ok o' ∧
        .quoted s' p' o' g' = t := by
  simp [convert]

/-- Whatever is reported, the term that is made of it is valid. -/
theorem isValid_of_convert {t t' : Term} (h : t.convert = .ok t') : t'.IsValid := by
  induction t generalizing t' with
  | iri text => exact .iri h
  | blank label => exact .blank h
  | var name => exact .var h
  | defaultGraph =>
    rw [← Except.ok.inj h]
    exact .defaultGraph
  | literal l =>
    obtain ⟨l', hl, rfl⟩ := map_eq_ok.1 h
    exact Literal.isValid_of_convert hl
  | quoted s p o g ihs ihp iho ihg =>
    obtain ⟨g', s', p', o', hg, hs, hp, ho, rfl⟩ := convert_quoted_eq_ok.1 h
    exact .quoted (ihs hs) (ihp hp) (iho ho) (ihg hg)

/-- A term whose language tags have been read stays as it is. -/
theorem IsLowered.eq_of_convert {t t' : Term} (ht : t.IsLowered) (h : t.convert = .ok t') : t' = t := by
  induction t generalizing t' with
  | iri text => exact (iri?_eq_ok.1 h).2.symm
  | blank label => exact (blank?_eq_ok.1 h).2.symm
  | var name => exact (var?_eq_ok.1 h).2.symm
  | defaultGraph => exact (Except.ok.inj h).symm
  | literal l =>
    obtain ⟨l', hl, rfl⟩ := map_eq_ok.1 h
    rw [Literal.IsLowered.eq_of_convert ht hl]
  | quoted s p o g ihs ihp iho ihg =>
    obtain ⟨g', s', p', o', hg, hs, hp, ho, rfl⟩ := convert_quoted_eq_ok.1 h
    obtain ⟨hls, hlp, hlo, hlg⟩ := ht
    rw [ihs hls hs, ihp hlp hp, iho hlo ho, ihg hlg hg]

/-- A valid term is made of itself. -/
theorem IsValid.convert {t : Term} (ht : t.IsValid) : t.convert = .ok t := by
  induction t with
  | iri text => exact iri?_eq_ok.2 ⟨isValid_iri.1 ht, rfl⟩
  | blank label => exact blank?_eq_ok.2 ⟨isValid_blank.1 ht, rfl⟩
  | var name => exact var?_eq_ok.2 ⟨isValid_var.1 ht, rfl⟩
  | defaultGraph => rfl
  | literal l =>
    refine map_eq_ok.2 ⟨l, ?_, rfl⟩
    have hl := isValid_literal.1 ht
    cases l with
    | plain value => rfl
    | tagged value tag => exact Literal.tagged?_eq_ok.2 ⟨tag, hl, rfl⟩
    | typed value datatype hne => exact Literal.typed?_eq_ok.2 ⟨hl, by simp [Literal.ofDatatype, hne]⟩
  | quoted s p o g ihs ihp iho ihg =>
    obtain ⟨hs, hp, ho, hg⟩ := isValid_quoted.1 ht
    exact convert_quoted_eq_ok.2 ⟨g, s, p, o, ihg hg, ihs hs, ihp hp, iho ho, rfl⟩

end Term

/-- The report of a quad. -/
def Quad.report (q : Quad) : Document.Report :=
  ⟨q.subject, q.predicate, q.object, q.graph⟩

namespace Document.Report

theorem convert_eq_ok {r : Report} {q : Quad} :
    r.convert = .ok q ↔
      r.graph.convert = .ok q.graph ∧ r.subject.convert = .ok q.subject ∧ r.predicate.convert = .ok q.predicate ∧
        r.object.convert = .ok q.object := by
  obtain ⟨s, p, o, g⟩ := q
  simp only [convert, bind_eq_ok, pure_eq_ok, Quad.mk.injEq]
  constructor
  · rintro ⟨g, hg, s, hs, p, hp, o, ho, rfl, rfl, rfl, rfl⟩
    exact ⟨hg, hs, hp, ho⟩
  · rintro ⟨hg, hs, hp, ho⟩
    exact ⟨g, hg, s, hs, p, hp, o, ho, rfl, rfl, rfl, rfl⟩

/-- Whatever is reported, the quad that is made of it is valid. -/
theorem isValid_of_convert {r : Report} {q : Quad} (h : r.convert = .ok q) : q.IsValid := by
  obtain ⟨hg, hs, hp, ho⟩ := convert_eq_ok.1 h
  exact Quad.isValid_iff.2 ⟨Term.isValid_of_convert hs, Term.isValid_of_convert hp, Term.isValid_of_convert ho,
    Term.isValid_of_convert hg⟩

/-- The language tags of all reported terms have been read. -/
structure IsLowered (r : Report) : Prop where
  subject : r.subject.IsLowered
  predicate : r.predicate.IsLowered
  object : r.object.IsLowered
  graph : r.graph.IsLowered

/-- The quad that is made of such a report is the one reported. -/
theorem IsLowered.eq_of_convert {r : Report} (hr : r.IsLowered) {q : Quad} (h : r.convert = .ok q) : r = q.report := by
  obtain ⟨hg, hs, hp, ho⟩ := convert_eq_ok.1 h
  rw [Quad.report, hr.subject.eq_of_convert hs, hr.predicate.eq_of_convert hp, hr.object.eq_of_convert ho,
    hr.graph.eq_of_convert hg]

end Document.Report

/-- A valid quad is made of its own report. -/
theorem Quad.IsValid.convert_report {q : Quad} (hq : q.IsValid) : q.report.convert = .ok q := by
  obtain ⟨hs, hp, ho, hg⟩ := isValid_iff.1 hq
  exact Document.Report.convert_eq_ok.2 ⟨hg.convert, hs.convert, hp.convert, ho.convert⟩

end RdfDataset
