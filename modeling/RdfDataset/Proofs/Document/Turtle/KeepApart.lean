import RdfDataset.Document.Turtle.Progress
import RdfDataset.Proofs.Dataset.BlankNode
import RdfDataset.Proofs.Document.Line

/-!
# Labels that are kept apart

A label in a Turtle or TriG document that resembles a generated one is renamed.

* `Document.Turtle.ResemblesGenerated`: the labels that are renamed.  `keepApart_eq` says how.
* `Document.Turtle.keepApart_injective`: no two labels become one.
* `Term.relabel` and `Quad.relabel` rename all labels, also inside quoted triples; valid quads stay valid.
-/

namespace RdfDataset

namespace Document.Turtle

/-- A label that consists of `riog`, eight digits and any number of `d`. -/
def ResemblesGenerated (label : String) : Prop :=
  ∃ digits n, digits.length = 8 ∧ (∀ c ∈ digits, c.isDigit = true) ∧
    label.toList = ['r', 'i', 'o', 'g'] ++ digits ++ List.replicate n 'd'

theorem resemblesGenerated_iff {label : String} :
    resemblesGenerated label.toList = true ↔ ResemblesGenerated label := by
  simp only [resemblesGenerated, Bool.and_eq_true, decide_eq_true_eq, List.all_eq_true, beq_iff_eq,
    List.isPrefixOf_iff_prefix, ResemblesGenerated]
  constructor
  · rintro ⟨⟨⟨⟨number, hlabel⟩, hlength⟩, hdigits⟩, hmarks⟩
    rw [← hlabel] at hlength hdigits hmarks ⊢
    have hnumber : (generatedStart.toList ++ number).drop generatedStart.length = number := rfl
    rw [hnumber] at hlength hdigits hmarks
    refine ⟨number.take 8, (number.drop 8).length, by simp [hlength], hdigits, ?_⟩
    rw [← List.eq_replicate_of_mem hmarks]
    exact (congrArg (['r', 'i', 'o', 'g'] ++ ·) (List.take_append_drop 8 number)).symm
  · rintro ⟨digits, n, hlength, hdigits, hlabel⟩
    have hnumber : label.toList.drop generatedStart.length = digits ++ List.replicate n 'd' := by
      rw [hlabel]
      rfl
    rw [hnumber, List.take_append_of_le_length (by omega), List.take_of_length_le (by omega),
      List.drop_append_of_le_length (by omega), List.drop_of_length_le (by omega)]
    refine ⟨⟨⟨?_, by simp [hlength]⟩, hdigits⟩, fun c hc => List.eq_of_mem_replicate hc⟩
    rw [hlabel, List.append_assoc]
    exact List.prefix_append _ _

instance (label : String) : Decidable (ResemblesGenerated label) :=
  decidable_of_iff _ resemblesGenerated_iff

/-- One more `d` at the end makes no difference. -/
theorem ResemblesGenerated.push {label : String} (h : ResemblesGenerated label) :
    ResemblesGenerated (label.push 'd') := by
  obtain ⟨digits, n, hlength, hdigits, hlabel⟩ := h
  refine ⟨digits, n + 1, hlength, hdigits, ?_⟩
  rw [String.toList_push, hlabel, List.replicate_succ', List.append_assoc]

theorem keepApart_eq (label : String) :
    keepApart label = if ResemblesGenerated label then label.push 'd' else label := by
  simp only [keepApart, resemblesGenerated_iff]

/-- No two labels become one: a label with one more `d` would have got one more itself. -/
theorem keepApart_injective : Function.Injective keepApart := by
  intro label label' h
  simp only [keepApart_eq] at h
  split at h
  · rename_i hlabel
    split at h
    · have hlists : label.toList ++ ['d'] = label'.toList ++ ['d'] := by simpa using congrArg String.toList h
      exact String.toList_inj.1 (List.append_cancel_right hlists)
    · rename_i hlabel'
      exact absurd (h ▸ hlabel.push) hlabel'
  · rename_i hlabel
    split at h
    · rename_i hlabel'
      exact absurd (h.symm ▸ hlabel'.push) hlabel
    · exact h

/-- A renamed label is still a label. -/
theorem checkBlank_keepApart {label : String} (h : checkBlank label = .ok ()) :
    checkBlank (keepApart label) = .ok () := by
  rw [keepApart_eq]
  split
  · rw [checkBlank_eq_ok] at h ⊢
    rw [String.toList_push]
    exact isBlankLabel_append h (List.forall_mem_singleton.2 (by decide))
  · exact h

end Document.Turtle

/-! ### Terms and quads -/

/-- Renames all blank node labels of a term. -/
def Term.relabel (rename : String → String) : Term → Term
  | .blank label => .blank (rename label)
  | .quoted s p o g => .quoted (s.relabel rename) (p.relabel rename) (o.relabel rename) (g.relabel rename)
  | t => t

/-- Renames all blank node labels of a quad. -/
def Quad.relabel (rename : String → String) (q : Quad) : Quad :=
  ⟨q.subject.relabel rename, q.predicate.relabel rename, q.object.relabel rename, q.graph.relabel rename⟩

variable {rename : String → String}

theorem Term.relabel_of_isDefaultGraph {t : Term} (h : t.isDefaultGraph) : t.relabel rename = .defaultGraph := by
  rw [isDefaultGraph_iff.1 h]
  rfl

theorem Term.isValid_relabel (hrename : ∀ label, checkBlank label = .ok () → checkBlank (rename label) = .ok ())
    {t : Term} (h : t.IsValid) : (t.relabel rename).IsValid := by
  induction t with
  | blank label => exact isValid_blank.2 (hrename label (isValid_blank.1 h))
  | quoted s p o g ihs ihp iho ihg =>
    obtain ⟨hs, hp, ho, hg⟩ := isValid_quoted.1 h
    exact isValid_quoted.2 ⟨ihs hs, ihp hp, iho ho, ihg hg⟩
  | iri text => exact h
  | literal l => exact h
  | var name => exact h
  | defaultGraph => exact h

theorem Quad.isValid_relabel (hrename : ∀ label, checkBlank label = .ok () → checkBlank (rename label) = .ok ())
    {q : Quad} (h : q.IsValid) : (q.relabel rename).IsValid := by
  obtain ⟨hs, hp, ho, hg⟩ := isValid_iff.1 h
  exact isValid_iff.2 ⟨Term.isValid_relabel hrename hs, Term.isValid_relabel hrename hp,
    Term.isValid_relabel hrename ho, Term.isValid_relabel hrename hg⟩

end RdfDataset
