import RdfDataset.Proofs.Result
import RdfDataset.Proofs.Term.Codec

/-!
# Canonical ids

Reading an id accepts more texts than the ids of terms: tags in upper case, the datatype of strings, quotation marks
that are not doubled, components that are empty.  Whatever text it accepts, it gives a valid term, so that the id of
this term is read back.  Replacing an accepted text with the id of its term is therefore done at once.

* `CutsFit`: reading never cuts a character in two.
* `Term.isValid_of_ofIdChars?`: the terms that are read are valid, whatever the text.
* `Term.canonicalId?` replaces a text with the id of its term; `Term.ofId?_canonical` puts everything together.
-/

namespace RdfDataset

/-! ### Cutting -/

/-- Reading an id cuts it at the last quotation mark of a literal and around the components of a quoted quad; all these
offsets lie between characters, and in order. -/
structure CutsFit (cs : List Char) : Prop where
  literal : ∀ tail stop, cs = '"' :: tail → Text.lastOffset? '"' cs = some stop → 0 < stop →
    (Text.slice? 1 stop cs).isSome ∧ (Text.slice? (stop + 1) (Text.utf8Length cs) cs).isSome
  components : ∀ slices, componentSlices cs = some slices → ∀ slice ∈ slices, (Text.slice? slice.1 slice.2 cs).isSome

/-- Another quotation mark than the first is found by looking behind the first. -/
private theorem exists_splitLast_of_lastOffset? {tail : List Char} {stop : Nat}
    (h : Text.lastOffset? '"' ('"' :: tail) = some stop) (hpos : 0 < stop) :
    ∃ value suffix, Text.splitLast '"' tail = some (value, suffix) ∧ stop = 1 + Text.utf8Length value := by
  cases hsplit : Text.splitLast '"' tail with
  | none =>
    rw [Text.lastOffset?, Text.splitLast, hsplit] at h
    obtain rfl : 0 = stop := Option.some.inj h
    exact absurd hpos (Nat.lt_irrefl 0)
  | some parts =>
    obtain ⟨value, suffix⟩ := parts
    rw [(slice?_of_splitLast hsplit).1] at h
    exact ⟨value, suffix, rfl, (Option.some.inj h).symm⟩

/-- Whatever the text, it is only cut between characters. -/
theorem cutsFit (cs : List Char) : CutsFit cs where
  literal := by
    intro tail stop hcs hlast hpos
    subst hcs
    obtain ⟨value, suffix, hsplit, rfl⟩ := exists_splitLast_of_lastOffset? hlast hpos
    obtain ⟨-, hvalue, hsuffix⟩ := slice?_of_splitLast hsplit
    exact ⟨Option.isSome_of_eq_some hvalue, Option.isSome_of_eq_some hsuffix⟩
  components := by
    intro slices hslices
    obtain ⟨components, hcomponents⟩ := exists_slice?_of_componentSlices hslices
    intro slice hslice
    have hmem : Text.slice? slice.1 slice.2 cs ∈ components.map some := by
      rw [← map_eq_of_mapM_eq_some hcomponents]
      exact List.mem_map_of_mem hslice
    obtain ⟨component, -, hcomponent⟩ := List.mem_map.1 hmem
    exact Option.isSome_of_eq_some hcomponent.symm

/-! ### Reading -/

/-- The literals that are read are valid. -/
theorem Literal.isValid_of_ofIdChars? {nested : Bool} {tail : List Char} {l : Literal}
    (h : Literal.ofIdChars? nested ('"' :: tail) = .ok l) : (Term.literal l).IsValid := by
  rw [Literal.ofIdChars?_cons] at h
  split at h
  · cases h
  · dsimp only at h
    split at h
    · obtain rfl := Except.ok.inj h
      exact .plain _
    · exact .tagged h
    · exact .typed h
    · cases h

/-- A quoted quad of valid components is valid. -/
private theorem isValid_of_ofComponents? {terms : List Term} {t : Term} (hterms : ∀ u ∈ terms, u.IsValid)
    (h : Term.ofComponents? terms = some t) : t.IsValid := by
  unfold Term.ofComponents? at h
  split at h
  · obtain rfl := Option.some.inj h
    exact .quoted (hterms _ (by simp)) (hterms _ (by simp)) (hterms _ (by simp)) .defaultGraph
  · obtain rfl := Option.some.inj h
    exact .quoted (hterms _ (by simp)) (hterms _ (by simp)) (hterms _ (by simp)) (hterms _ (by simp))
  · cases h

/-- The terms that are read are valid, standing alone or inside a quoted quad. -/
theorem Term.isValid_of_ofIdChars? {nested : Bool} {id : List Char} {t : Term}
    (h : Term.ofIdChars? nested id = .ok t) : t.IsValid := by
  fun_induction Term.ofIdChars? nested id generalizing t with
  | case1 nested =>
    obtain rfl := Except.ok.inj h
    exact .defaultGraph
  | case2 nested label => exact .blank h
  | case3 nested name => exact .var h
  | case4 nested value =>
    obtain ⟨l, hl, rfl⟩ := map_eq_ok.1 h
    exact Literal.isValid_of_ofIdChars? hl
  | case5 => exact .iri h
  | case6 => cases h
  | case7 nested id _ _ _ _ inside _ components _ ih =>
    obtain ⟨terms, hterms, h⟩ := bind_eq_ok.1 h
    have hvalid : ∀ u ∈ terms, u.IsValid := by
      intro u hu
      obtain ⟨⟨component, hmem⟩, -, hcomponent⟩ := exists_of_mem_mapM hterms hu
      exact ih component hmem hcomponent
    split at h
    · rename_i t' hquad
      obtain rfl := pure_eq_ok.1 h
      exact isValid_of_ofComponents? hvalid hquad
    · exact absurd h throw_ne_ok

/-- The id of the term of an id. -/
def Term.canonicalId? (id : String) : Except TermError String :=
  (Term.ofId? id).map Term.id

/-- Whatever text is read as an id, the text is only cut between characters, the term is valid and it is read back from
its own id, so that nothing is left to replace in this one. -/
theorem Term.ofId?_canonical (x : String) :
    (∀ cs, CutsFit cs) ∧ (∀ t, Term.ofId? x = .ok t → t.IsValid ∧ Term.ofId? t.id = .ok t) ∧
      ∀ y, Term.canonicalId? x = .ok y → Term.canonicalId? y = .ok y := by
  have hread : ∀ t, Term.ofId? x = .ok t → t.IsValid ∧ Term.ofId? t.id = .ok t := by
    intro t h
    have ht : t.IsValid := Term.isValid_of_ofIdChars? h
    exact ⟨ht, ht.ofId?_id⟩
  refine ⟨cutsFit, hread, ?_⟩
  intro y hy
  obtain ⟨t, ht, rfl⟩ := map_eq_ok.1 hy
  rw [Term.canonicalId?, (hread t ht).2]
  rfl

/-- A graph that is written though it is empty, empty components, a quotation mark that is not doubled, a tag in upper
case and the datatype of strings. -/
theorem Term.ofId?_canonical_liberal :
    Term.canonicalId? "<<<<_:a  \"x\"@EN-gb >> _:p \"a\"b\"^^http://www.w3.org/2001/XMLSchema#string>>" =
        .ok "<<<<_:a  \"x\"@en-gb>> _:p \"a\"\"b\">>" ∧
      Term.canonicalId? "<<<<_:a  \"x\"@en-gb>> _:p \"a\"\"b\">>" =
        .ok "<<<<_:a  \"x\"@en-gb>> _:p \"a\"\"b\">>" := by
  have h : Term.canonicalId? "<<<<_:a  \"x\"@EN-gb >> _:p \"a\"b\"^^http://www.w3.org/2001/XMLSchema#string>>" =
      .ok "<<<<_:a  \"x\"@en-gb>> _:p \"a\"\"b\">>" := by decide +kernel
  exact ⟨h, (Term.ofId?_canonical _).2.2 _ h⟩

end RdfDataset
