import RdfDataset.Proofs.Document.Reader
import RdfDataset.Proofs.Document.Turtle.Labels

/-!
# Anonymous nodes of documents

The nodes of a Turtle or TriG document that have no label in it are numbered, beginning with one in each document.

* `Document.Turtle.generatedLabel_injective`: different numbers give different labels.
* `Document.Turtle.generatedLabel_ne_keepApart`: no label that is written is one of the first hundred million generated
  labels.
* `Format.countAnonymous`: how many anonymous nodes a document has.
* `Format.labelledBy_of_read`: all other blank nodes of a document have a label that is written there.
-/

namespace RdfDataset

namespace Document.Turtle

/-! ### Generated labels -/

/-- The digits of a generated label. -/
def generatedDigits (n : Nat) : List Char :=
  List.replicate (8 - (Nat.toDigits 10 n).length) '0' ++ Nat.toDigits 10 n

theorem toList_generatedLabel (n : Nat) : (generatedLabel n).toList = ['r', 'i', 'o', 'g'] ++ generatedDigits n := by
  simp [generatedLabel, generatedStart, generatedDigits]

theorem isDigit_of_mem_generatedDigits {n : Nat} {c : Char} (h : c ∈ generatedDigits n) : c.isDigit = true := by
  rcases List.mem_append.1 h with h | h
  · rw [List.eq_of_mem_replicate h]
    rfl
  · exact Nat.isDigit_of_mem_toDigits (by decide) (by decide) h

theorem generatedLabel_injective : Function.Injective generatedLabel := by
  intro m n h
  have hlabels := congrArg String.toList h
  rw [toList_generatedLabel, toList_generatedLabel] at hlabels
  -- zeros in front do not change the number that is read from the digits
  have hread : ∀ n, Nat.ofDigitChars 10 (generatedDigits n) 0 = n := by
    intro n
    rw [generatedDigits, Nat.ofDigitChars_append, Nat.ofDigitChars_replicate_zero, Nat.mul_zero,
      Nat.ofDigitChars_toDigits (by decide) (by decide)]
  rw [← hread m, List.append_cancel_left hlabels, hread n]

/-- Written labels are kept apart from the generated ones that have no more than eight digits. -/
theorem generatedLabel_ne_keepApart {n : Nat} (h : n < 10 ^ 8) (written : String) :
    generatedLabel n ≠ keepApart written := by
  have hresembles : ResemblesGenerated (generatedLabel n) := by
    have hle := (Nat.length_toDigits_le_iff (by decide) (by decide)).2 h
    refine ⟨generatedDigits n, 0, ?_, fun c hc => isDigit_of_mem_generatedDigits hc, ?_⟩
    · rw [generatedDigits, List.length_append, List.length_replicate]
      omega
    · rw [toList_generatedLabel, List.replicate_zero, List.append_nil]
  intro heq
  rw [keepApart_eq] at heq
  split at heq
  · -- a generated label has no `d`
    have hmem : 'd' ∈ (generatedLabel n).toList := by
      rw [heq, String.toList_push]
      exact List.mem_append_right _ (List.mem_singleton_self _)
    rw [toList_generatedLabel] at hmem
    rcases List.mem_append.1 hmem with hstart | hdigits
    · exact absurd hstart (by decide)
    · exact absurd (isDigit_of_mem_generatedDigits hdigits) (by decide)
  · rename_i hnot
    exact hnot (heq ▸ hresembles)

/-! ### Anonymous nodes -/

/-- How many nodes of a document are labelled while it is read. -/
def countAnonymous (readBlock : Reading Unit) (base : Option Iri.Reference) (text : List Char) : Nat :=
  match (readBlocks readBlock (text.length + 1)).run { rest := text, base } with
  | .ok (_, p) => p.labelled
  | .error _ => 0

/-- All blank nodes of a document are anonymous or have a label that is written there. -/
theorem labelledBy_of_readDocument {readBlock : Reading Unit} (hblock : ∀ n, MovesOn n readBlock)
    {base : Option Iri.Reference} {text : List Char} {quads : List Quad}
    (h : readDocument readBlock base text = .ok quads) :
    ∀ q ∈ quads, q.LabelledBy (countAnonymous readBlock base text) := by
  obtain ⟨⟨_, p⟩, hrun, hquads⟩ := bind_eq_ok.1 h
  rw [← pure_eq_ok.1 hquads, countAnonymous, hrun]
  obtain ⟨hp, -⟩ := Moves.readBlocks hblock _ _ _ _ _ rfl (Nat.zero_le 0) (.start text base) hrun
  exact fun q hq => hp.quads q (List.mem_reverse.1 hq)

end Document.Turtle

namespace Format

open Document.Turtle

/-- How many nodes of a document have no label in it and get one when it is read, which are none in documents of
lines. -/
def countAnonymous (format : Format) (text : String) (base : Option String) : Nat :=
  match base.mapM (fun iri => Iri.readAbsolute iri.toList), format with
  | .ok base, .turtle => Document.Turtle.countAnonymous readTurtleBlock base text.toList
  | .ok base, .triG => Document.Turtle.countAnonymous readTrigBlock base text.toList
  | _, _ => 0

/-- The blank nodes of a Turtle or TriG document are its anonymous nodes, which are numbered, and those with a label
that is written there. -/
theorem labelledBy_of_read {format : Format} (hformat : format = .turtle ∨ format = .triG) {text : String}
    {base : Option String} {quads : List Quad} (h : format.read text base = .ok quads) :
    ∀ q ∈ quads, q.LabelledBy (format.countAnonymous text base) := by
  obtain ⟨reference, hbase, h⟩ := bind_eq_ok.1 h
  unfold Format.countAnonymous
  rw [readBase_eq_ok.1 hbase]
  rcases hformat with rfl | rfl
  · exact labelledBy_of_readDocument (fun _ => Moves.readTurtleBlock) h
  · exact labelledBy_of_readDocument (fun _ => Moves.readTrigBlock) h

end Format

end RdfDataset
