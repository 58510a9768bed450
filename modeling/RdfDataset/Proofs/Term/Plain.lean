import Mathlib
import RdfDataset.Proofs.Iri.Read
import RdfDataset.Term.Basic

/-!
# Plain texts

The id of a quoted quad is structured by spaces, quotation marks and angle brackets.  A text without these characters
is plain, and all accepted names are: they hold no delimiter at all.

* `noDelimiter_of_checkIri`, `noDelimiter_of_checkBlank`, `noDelimiter_of_checkVariable` and `noDelimiter_of_readTag`
  state this for IRIs, blank node labels, variable names and language tags; `NoDelimiter.isPlain` makes them plain.
* `head_isAlpha_of_checkIri`: an IRI begins with a letter.
* `LanguageTag.isTagChar_of_check`: a tag consists of letters, digits and hyphens.
* `LanguageTag.read_read`: a tag that has been read is read as itself.
-/

namespace RdfDataset

/-- Not one of the characters that structure the id of a quoted quad. -/
def IsPlain (c : Char) : Prop :=
  c ≠ ' ' ∧ c ≠ '"' ∧ c ≠ '<' ∧ c ≠ '>'

instance (c : Char) : Decidable (IsPlain c) :=
  inferInstanceAs (Decidable (_ ∧ _))

/-- The characters that structure ids are delimiters. -/
theorem NoDelimiter.isPlain {cs : List Char} (h : NoDelimiter cs) : ∀ c ∈ cs, IsPlain c := by
  intro c hc
  have := h c hc
  simp only [delimiters, List.mem_cons, not_or] at this
  exact ⟨this.1, this.2.1, this.2.2.1, this.2.2.2.1⟩

/-- The text of an IRI holds no delimiter. -/
theorem noDelimiter_of_checkIri {text : String} (h : checkIri text = .ok ()) : NoDelimiter text.toList := by
  simp only [checkIri, mapError_eq_ok] at h
  exact (Iri.noDelimiter_and_isAlpha_of_check h).1

/-- The text of an IRI is plain. -/
theorem isPlain_of_checkIri {text : String} (h : checkIri text = .ok ()) : ∀ c ∈ text.toList, IsPlain c :=
  (noDelimiter_of_checkIri h).isPlain

/-- The text of an IRI begins with a letter. -/
theorem head_isAlpha_of_checkIri {text : String} (h : checkIri text = .ok ()) :
    ∃ c ∈ text.toList.head?, c.isAlpha = true := by
  simp only [checkIri, mapError_eq_ok] at h
  exact (Iri.noDelimiter_and_isAlpha_of_check h).2

/-! ### Labels and names -/

/-- A blank node label holds no delimiter. -/
theorem noDelimiter_of_checkBlank {label : String} (h : checkBlank label = .ok ()) : NoDelimiter label.toList := by
  unfold checkBlank at h
  split at h
  · rename_i hlabel
    revert hlabel
    cases label.toList with
    | nil => simp [Text.isBlankLabel]
    | cons c cs =>
      simp only [Text.isBlankLabel, Bool.and_eq_true, List.all_eq_true, noDelimiter_cons]
      rintro ⟨⟨hc, hcs⟩, -⟩
      exact ⟨notMem_delimiters (p := fun c => Text.isNameStart c || c.isDigit || c == ':') (by decide) hc,
        noDelimiter_of_all (p := fun d => Text.isNameChar d || d == ':' || d == '.') (by decide) hcs⟩
  · cases h

/-- A variable name holds no delimiter. -/
theorem noDelimiter_of_checkVariable {name : String} (h : checkVariable name = .ok ()) : NoDelimiter name.toList := by
  unfold checkVariable at h
  split at h
  · rename_i hname
    revert hname
    cases name.toList with
    | nil => simp [Text.isVariableName]
    | cons c cs =>
      simp only [Text.isVariableName, Bool.and_eq_true, List.all_eq_true, noDelimiter_cons]
      rintro ⟨hc, hcs⟩
      exact ⟨notMem_delimiters (p := fun c => Text.isNameStart c || c.isDigit || c == ':') (by decide) hc,
        noDelimiter_of_all (p := fun d => Text.isNameStart d || d.isDigit || Text.isNameMark d) (by decide) hcs⟩
  · cases h

/-- A blank node label is plain. -/
theorem isPlain_of_checkBlank {label : String} (h : checkBlank label = .ok ()) : ∀ c ∈ label.toList, IsPlain c :=
  (noDelimiter_of_checkBlank h).isPlain

/-- A variable name is plain. -/
theorem isPlain_of_checkVariable {name : String} (h : checkVariable name = .ok ()) : ∀ c ∈ name.toList, IsPlain c :=
  (noDelimiter_of_checkVariable h).isPlain

/-! ### Language tags -/

namespace LanguageTag

/-- The characters of language tags. -/
def isTagChar (c : Char) : Bool :=
  c.isAlphanum || c == '-'

private theorem isTagChar_of_alphanumeric {subtag : List Char} (h : subtag.all Char.isAlphanum = true) :
    ∀ c ∈ subtag, isTagChar c = true := by
  intro c hc
  simp [isTagChar, List.all_eq_true.1 h c hc]

private theorem alphanumeric_of_next {stage stage' : Stage} {subtag : List Char}
    (h : stage.next subtag = .ok stage') : subtag.all Char.isAlphanum = true := by
  have halpha : subtag.all Char.isAlpha = true → subtag.all Char.isAlphanum = true := by
    simp only [List.all_eq_true, Char.isAlphanum, Bool.or_eq_true]
    exact fun h c hc => Or.inl (h c hc)
  have hdigit : subtag.all Char.isDigit = true → subtag.all Char.isAlphanum = true := by
    simp only [List.all_eq_true, Char.isAlphanum, Bool.or_eq_true]
    exact fun h c hc => Or.inr (h c hc)
  simp only [Stage.next, isVariant, bind_eq_ok] at h
  obtain ⟨_, -, h⟩ := h
  by_contra hn
  -- no stage accepts a subtag that holds anything else
  simp only [eq_false_of_ne_true hn, eq_false_of_ne_true (mt halpha hn), eq_false_of_ne_true (mt hdigit hn),
    Bool.and_false, Bool.or_false, Bool.false_and, Bool.not_false, Bool.or_true, Bool.false_eq_true, ↓reduceIte] at h
  cases stage <;> simp at h

private theorem isTagChar_of_splitOn {cs : List Char}
    (h : ∀ piece ∈ Text.splitOn (· == '-') cs, ∀ c ∈ piece, isTagChar c = true) : ∀ c ∈ cs, isTagChar c = true := by
  induction cs with
  | nil => simp
  | cons d cs ih =>
    rw [List.forall_mem_cons]
    simp only [Text.splitOn] at h
    split at h
    · rename_i hd
      have hd : d = '-' := by simpa using hd
      exact ⟨hd ▸ by decide, ih fun piece hp => h piece (List.mem_cons_of_mem _ hp)⟩
    · split at h
      · rename_i heq
        exact ⟨h [d] (by simp) d (by simp), ih (by simp [heq])⟩
      · rename_i piece pieces heq
        refine ⟨h (d :: piece) (by simp) d (by simp), ih fun piece' hp c hc => ?_⟩
        rw [heq, List.mem_cons] at hp
        rcases hp with rfl | hp
        · exact h (d :: piece') (by simp) c (List.mem_cons_of_mem _ hc)
        · exact h piece' (List.mem_cons_of_mem _ hp) c hc

private theorem alphanumeric_of_foldlM {subtags : List (List Char)} {stage stage' : Stage}
    (h : subtags.foldlM Stage.next stage = .ok stage') : ∀ subtag ∈ subtags, subtag.all Char.isAlphanum = true := by
  induction subtags generalizing stage with
  | nil => simp
  | cons subtag subtags ih =>
    rw [List.foldlM_cons, bind_eq_ok] at h
    obtain ⟨next, hnext, h⟩ := h
    rw [List.forall_mem_cons]
    exact ⟨alphanumeric_of_next hnext, ih h⟩

private theorem alphanumeric_of_checkPrivateUse {subtags : List (List Char)} (h : checkPrivateUse subtags = .ok ()) :
    ∀ subtag ∈ subtags, subtag.all Char.isAlphanum = true := by
  unfold checkPrivateUse at h
  induction subtags with
  | nil => simp
  | cons subtag subtags ih =>
    simp only [List.forM, bind_eq_ok] at h
    obtain ⟨_, hsubtag, h⟩ := h
    rw [List.forall_mem_cons]
    refine ⟨?_, ih h⟩
    by_contra hn
    simp only [eq_false_of_ne_true hn] at hsubtag
    simp at hsubtag

/-- A tag that is accepted consists of letters, digits and hyphens. -/
theorem isTagChar_of_check {tag : List Char} (h : check tag = .ok ()) : ∀ c ∈ tag, isTagChar c = true := by
  unfold check at h
  split at h
  · rename_i hold
    have hall : grandfathered.all (fun old => old.toList.all isTagChar) = true := by
      decide +kernel
    have htag := List.all_eq_true.1 hall _ (List.contains_iff_mem.1 hold)
    rw [String.toList_ofList, List.all_eq_true] at htag
    exact htag
  · split at h
    · cases h
    · have halnum := alphanumeric_of_checkPrivateUse h
      have hrest := isTagChar_of_splitOn fun piece hp => isTagChar_of_alphanumeric (halnum piece hp)
      rw [List.forall_mem_cons, List.forall_mem_cons]
      exact ⟨by decide, by decide, hrest⟩
    · simp only [checkSubtags, bind_eq_ok] at h
      obtain ⟨stage, hstage, -⟩ := h
      have halnum := alphanumeric_of_foldlM hstage
      exact isTagChar_of_splitOn fun piece hp => isTagChar_of_alphanumeric (halnum piece hp)

/-- Reading a tag gives it in lower case, if it is accepted so. -/
theorem read_eq_ok {tag lower : String} (h : read tag = .ok lower) :
    lower.toList = tag.toList.map Char.toLower ∧ check lower.toList = .ok () := by
  simp only [read, bind_eq_ok, pure_eq_ok] at h
  obtain ⟨_, hcheck, rfl⟩ := h
  simpa using hcheck

/-- A tag that has been read is read as itself. -/
theorem read_read {tag lower : String} (h : read tag = .ok lower) : read lower = .ok lower := by
  obtain ⟨heq, hcheck⟩ := read_eq_ok h
  have hlower : lower.toList.map Char.toLower = lower.toList := by simp [heq]
  simp [read, hlower, hcheck]

end LanguageTag

/-- A tag that has been read holds no delimiter. -/
theorem noDelimiter_of_readTag {tag lower : String} (h : LanguageTag.read tag = .ok lower) : NoDelimiter lower.toList :=
  noDelimiter_of_all (p := LanguageTag.isTagChar) (by decide) (LanguageTag.isTagChar_of_check (LanguageTag.read_eq_ok h).2)

/-- A tag that has been read is plain. -/
theorem isPlain_of_readTag {tag lower : String} (h : LanguageTag.read tag = .ok lower) :
    ∀ c ∈ lower.toList, IsPlain c :=
  (noDelimiter_of_readTag h).isPlain

end RdfDataset
