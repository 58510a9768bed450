import RdfDataset.Document.Turtle.Block
import RdfDataset.Proofs.Document.Token

/-!
# What tokens leave

A token reader takes what it reads from the beginning of a text and leaves the rest of it.

* `Document.LeavesSuffix`: what a reader leaves is the end of the text.  There is one lemma for each token reader of
  Turtle and TriG.
* `Document.Turtle.dropWithComments_suffix` and its companions do the same for what is dropped and for keywords.
-/

namespace RdfDataset

theorem Text.splitFirst_suffix {sep : Char} {cs before rest : List Char}
    (h : Text.splitFirst sep cs = some (before, rest)) : rest <:+ cs := by
  induction cs generalizing before with
  | nil => cases h
  | cons c cs ih =>
    rw [splitFirst] at h
    split at h
    · obtain ⟨-, rfl⟩ := Prod.mk.inj (Option.some.inj h)
      exact List.suffix_cons c _
    · obtain ⟨⟨before', rest'⟩, hsplit, heq⟩ := Option.map_eq_some_iff.1 h
      obtain ⟨-, rfl⟩ := Prod.mk.inj heq
      exact (ih hsplit).trans (List.suffix_cons c cs)

namespace Document

variable {α β : Type}

/-- What a reader leaves is the end of the text. -/
def LeavesSuffix (read : List Char → Option (α × List Char)) : Prop :=
  ∀ cs a rest, read cs = some (a, rest) → rest <:+ cs

/-- A reader that goes on to make something of what another one has read. -/
theorem LeavesSuffix.map {read : List Char → Option (α × List Char)} (h : LeavesSuffix read) (f : α → β) :
    LeavesSuffix fun cs => (read cs).map fun (a, rest) => (f a, rest) := by
  intro cs b rest hmap
  obtain ⟨⟨a, rest'⟩, hread, heq⟩ := Option.map_eq_some_iff.1 hmap
  obtain ⟨-, rfl⟩ := Prod.mk.inj heq
  exact h cs a rest' hread

/-! ### Tokens of all formats -/

theorem leavesSuffix_readReference (base : Option Iri.Reference) : LeavesSuffix (readReference base) := by
  intro cs iri rest h
  unfold readReference at h
  split at h
  · rename_i cs
    obtain ⟨⟨raw, rest'⟩, hsplit, h⟩ := Option.bind_eq_some_iff.1 h
    obtain ⟨text, -, h⟩ := Option.bind_eq_some_iff.1 h
    obtain ⟨iri', -, h⟩ := Option.bind_eq_some_iff.1 h
    obtain ⟨-, rfl⟩ := Prod.mk.inj (Option.some.inj h)
    exact (Text.splitFirst_suffix hsplit).trans (List.suffix_cons '<' cs)
  · cases h

theorem leavesSuffix_readIri (base : Option Iri.Reference) : LeavesSuffix (readIri base) :=
  (leavesSuffix_readReference base).map fun iri => String.ofList iri.text

theorem spanName_suffix (cs : List Char) : (spanName cs).2 <:+ cs := by
  induction cs with
  | nil => exact List.suffix_rfl
  | cons c cs ih =>
    rw [spanName]
    split
    · exact ih.trans (List.suffix_cons c cs)
    · exact List.suffix_rfl

theorem leavesSuffix_readLabel : LeavesSuffix readLabel := by
  intro cs label rest h
  unfold readLabel at h
  split at h
  · cases h
  · rename_i c cs
    split at h
    · obtain ⟨-, rfl⟩ := Prod.mk.inj (Option.some.inj h)
      exact (spanName_suffix cs).trans (List.suffix_cons c cs)
    · cases h

theorem leavesSuffix_readTag : LeavesSuffix readTag := by
  intro cs tag rest h
  obtain ⟨tag', -, h⟩ := Option.bind_eq_some_iff.1 h
  obtain ⟨-, rfl⟩ := Prod.mk.inj (Option.some.inj h)
  exact List.drop_suffix _ cs

theorem leavesSuffix_splitString (quote : Char) : LeavesSuffix (splitString quote) := by
  intro cs raw rest h
  fun_induction splitString quote cs generalizing raw with
  | case1 => cases h
  | case2 c cs ih =>
    obtain ⟨⟨raw', rest'⟩, hsplit, heq⟩ := Option.map_eq_some_iff.1 h
    obtain ⟨-, rfl⟩ := Prod.mk.inj heq
    exact (ih raw' hsplit).trans ((List.suffix_cons c cs).trans (List.suffix_cons '\\' _))
  | case3 c cs =>
    obtain ⟨-, rfl⟩ := Prod.mk.inj (Option.some.inj h)
    exact List.suffix_cons _ _
  | case4 => cases h
  | case5 c cs =>
    rename_i ih
    obtain ⟨⟨raw', rest'⟩, hsplit, heq⟩ := Option.map_eq_some_iff.1 h
    obtain ⟨-, rfl⟩ := Prod.mk.inj heq
    exact (ih raw' hsplit).trans (List.suffix_cons _ _)

theorem leavesSuffix_splitLongString (quote : Char) : LeavesSuffix (splitLongString quote) := by
  intro cs raw rest h
  fun_induction splitLongString quote cs generalizing raw with
  | case1 => cases h
  | case2 c cs ih =>
    obtain ⟨⟨raw', rest'⟩, hsplit, heq⟩ := Option.map_eq_some_iff.1 h
    obtain ⟨-, rfl⟩ := Prod.mk.inj heq
    exact (ih raw' hsplit).trans ((List.suffix_cons c cs).trans (List.suffix_cons '\\' _))
  | case3 c cs =>
    obtain ⟨-, rfl⟩ := Prod.mk.inj (Option.some.inj h)
    exact (List.drop_suffix 2 cs).trans (List.suffix_cons c cs)
  | case4 c cs =>
    rename_i ih
    obtain ⟨⟨raw', rest'⟩, hsplit, heq⟩ := Option.map_eq_some_iff.1 h
    obtain ⟨-, rfl⟩ := Prod.mk.inj heq
    exact (ih raw' hsplit).trans (List.suffix_cons _ _)

/-- A string is read up to its end and then unescaped. -/
theorem leavesSuffix_unescaped {split : List Char → Option (List Char × List Char)} (h : LeavesSuffix split) :
    LeavesSuffix fun cs => do
      let (raw, rest) ← split cs
      let value ← Text.unescape Text.stringEscape raw
      return (String.ofList value, rest) := by
  intro cs value rest hread
  obtain ⟨⟨raw, rest'⟩, hsplit, hread⟩ := Option.bind_eq_some_iff.1 hread
  obtain ⟨text, -, hread⟩ := Option.bind_eq_some_iff.1 hread
  obtain ⟨-, rfl⟩ := Prod.mk.inj (Option.some.inj hread)
  exact h cs raw rest' hsplit

theorem leavesSuffix_readString (quote : Char) : LeavesSuffix (readString quote) :=
  leavesSuffix_unescaped (leavesSuffix_splitString quote)

theorem leavesSuffix_readLongString (quote : Char) : LeavesSuffix (readLongString quote) :=
  leavesSuffix_unescaped (leavesSuffix_splitLongString quote)

theorem leavesSuffix_readLiteralEnd {skip : List Char → List Char} (hskip : ∀ cs, skip cs <:+ cs)
    {readDatatype : List Char → Option (String × List Char)} (hdatatype : LeavesSuffix readDatatype) (value : String) :
    LeavesSuffix (readLiteralEnd skip readDatatype value) := by
  intro cs l rest h
  have hspace := hskip cs
  unfold readLiteralEnd at h
  split at h
  · rename_i cs' heq
    rw [heq] at hspace
    have htag := leavesSuffix_readTag.map (Literal.tagged value) cs' l rest h
    exact htag.trans ((List.suffix_cons '@' cs').trans hspace)
  · rename_i cs' heq
    rw [heq] at hspace
    have htype := hdatatype.map (Literal.ofDatatype value) (skip cs') l rest h
    have hmark : cs' <:+ '^' :: '^' :: cs' := (List.suffix_cons '^' cs').trans (List.suffix_cons '^' _)
    exact htype.trans ((hskip cs').trans (hmark.trans hspace))
  · obtain ⟨-, rfl⟩ := Prod.mk.inj (Option.some.inj h)
    exact hspace

namespace Turtle

/-! ### What is dropped -/

theorem dropWithComments_suffix (skipped : Char → Bool) (inComment : Bool) (cs : List Char) :
    dropWithComments skipped inComment cs <:+ cs := by
  induction cs generalizing inComment with
  | nil => exact List.suffix_rfl
  | cons c cs ih =>
    rw [dropWithComments]
    split
    · exact (ih _).trans (List.suffix_cons c cs)
    · split
      · exact (ih _).trans (List.suffix_cons c cs)
      · split
        · exact (ih _).trans (List.suffix_cons c cs)
        · exact List.suffix_rfl

theorem dropSpace_suffix (cs : List Char) : dropSpace cs <:+ cs :=
  dropWithComments_suffix _ _ cs

theorem dropSemicolons_suffix (cs : List Char) : dropSemicolons cs <:+ cs :=
  dropWithComments_suffix _ _ cs

theorem afterEmptyBrackets?_suffix {cs rest : List Char} (h : afterEmptyBrackets? cs = some rest) : rest <:+ cs := by
  unfold afterEmptyBrackets? at h
  split at h
  · rename_i cs
    split at h
    · rename_i rest' heq
      obtain rfl := Option.some.inj h
      have hspace : cs.dropWhile isSpace <:+ cs := List.dropWhile_suffix _
      rw [heq] at hspace
      exact (List.suffix_cons ']' rest').trans (hspace.trans (List.suffix_cons '[' cs))
    · cases h
  · cases h

/-! ### Tokens of Turtle and TriG -/

theorem leavesSuffix_readPrefixName : LeavesSuffix readPrefixName := by
  intro cs name rest h
  unfold readPrefixName at h
  split at h
  · cases h
  · obtain ⟨-, rfl⟩ := Prod.mk.inj (Option.some.inj h)
    exact List.suffix_cons ':' _
  · rename_i c cs _
    split at h
    · have hspan := spanName_suffix cs
      split at h
      · rename_i name' rest' heq
        obtain ⟨-, rfl⟩ := Prod.mk.inj (Option.some.inj h)
        rw [heq] at hspan
        exact (List.suffix_cons ':' rest').trans (hspan.trans (List.suffix_cons c cs))
      · cases h
    · cases h

theorem leavesSuffix_spanLocal : LeavesSuffix spanLocal := by
  intro cs name rest h
  fun_induction spanLocal cs generalizing name with
  | case1 =>
    obtain ⟨-, rfl⟩ := Prod.mk.inj (Option.some.inj h)
    exact List.suffix_rfl
  | case2 d l cs _ ih =>
    obtain ⟨⟨name', rest'⟩, hspan, heq⟩ := Option.map_eq_some_iff.1 h
    obtain ⟨-, rfl⟩ := Prod.mk.inj heq
    have hmarks : cs <:+ '%' :: d :: l :: cs := List.suffix_append ['%', d, l] cs
    exact (ih name' hspan).trans hmarks
  | case3 => cases h
  | case4 c cs _ ih =>
    obtain ⟨⟨name', rest'⟩, hspan, heq⟩ := Option.map_eq_some_iff.1 h
    obtain ⟨-, rfl⟩ := Prod.mk.inj heq
    have hmarks : cs <:+ '\\' :: c :: cs := List.suffix_append ['\\', c] cs
    exact (ih name' hspan).trans hmarks
  | case5 => cases h
  | case6 => cases h
  | case7 c cs =>
    rename_i ih
    obtain ⟨⟨name', rest'⟩, hspan, heq⟩ := Option.map_eq_some_iff.1 h
    obtain ⟨-, rfl⟩ := Prod.mk.inj heq
    exact (ih name' hspan).trans (List.suffix_cons _ _)
  | case8 =>
    obtain ⟨-, rfl⟩ := Prod.mk.inj (Option.some.inj h)
    exact List.suffix_rfl

theorem leavesSuffix_readLocal : LeavesSuffix readLocal := by
  intro cs name rest h
  unfold readLocal at h
  split at h
  · obtain ⟨-, rfl⟩ := Prod.mk.inj (Option.some.inj h)
    exact List.suffix_rfl
  · split at h
    · exact leavesSuffix_spanLocal _ _ _ h
    · obtain ⟨-, rfl⟩ := Prod.mk.inj (Option.some.inj h)
      exact List.suffix_rfl

theorem leavesSuffix_readPrefixed (prefixes : PrefixMap) : LeavesSuffix (readPrefixed prefixes) := by
  intro cs iri rest h
  obtain ⟨⟨name, behind⟩, hname, h⟩ := Option.bind_eq_some_iff.1 h
  obtain ⟨base, -, h⟩ := Option.bind_eq_some_iff.1 h
  obtain ⟨⟨localPart, rest'⟩, hlocal, h⟩ := Option.bind_eq_some_iff.1 h
  obtain ⟨-, rfl⟩ := Prod.mk.inj (Option.some.inj h)
  exact (leavesSuffix_readLocal _ _ _ hlocal).trans (leavesSuffix_readPrefixName _ _ _ hname)

theorem leavesSuffix_readBoolean : LeavesSuffix readBoolean := by
  intro cs l rest h
  obtain ⟨word, -, heq⟩ := Option.map_eq_some_iff.1 h
  obtain ⟨-, rfl⟩ := Prod.mk.inj heq
  exact List.drop_suffix _ cs

theorem spanDigits_suffix (cs : List Char) : (spanDigits cs).2 <:+ cs := by
  rw [spanDigits, List.span_eq_takeWhile_dropWhile]
  exact List.dropWhile_suffix _

theorem spanSign_suffix (cs : List Char) : (spanSign cs).2 <:+ cs := by
  unfold spanSign
  split
  · exact List.suffix_cons _ _
  · exact List.suffix_cons _ _
  · exact List.suffix_rfl

theorem spanFraction_suffix (cs : List Char) : (spanFraction cs).2 <:+ cs := by
  unfold spanFraction
  split
  · rename_i c cs
    split
    · exact (spanDigits_suffix (c :: cs)).trans (List.suffix_cons '.' _)
    · exact List.suffix_rfl
  · exact List.suffix_rfl

theorem leavesSuffix_readNumber : LeavesSuffix readNumber := by
  intro cs l rest h
  have hsign := spanSign_suffix cs
  have hwhole := spanDigits_suffix (spanSign cs).2
  have hmantissa := (spanFraction_suffix (spanDigits (spanSign cs).2).2).trans (hwhole.trans hsign)
  unfold readNumber at h
  dsimp only at h
  split at h
  · cases h
  · split at h
    · rename_i c behind heq
      rw [heq] at hmantissa
      split at h
      · split at h
        · cases h
        · obtain ⟨-, rfl⟩ := Prod.mk.inj (Option.some.inj h)
          have hexponent := (spanDigits_suffix (spanSign behind).2).trans (spanSign_suffix behind)
          exact hexponent.trans ((List.suffix_cons c behind).trans hmantissa)
      · obtain ⟨-, rfl⟩ := Prod.mk.inj (Option.some.inj h)
        exact hmantissa
    · obtain ⟨-, rfl⟩ := Prod.mk.inj (Option.some.inj h)
      exact List.nil_suffix

theorem leavesSuffix_readQuotation : LeavesSuffix readQuotation := by
  intro cs value rest h
  unfold readQuotation at h
  split at h
  · exact (leavesSuffix_readLongString _ _ _ _ h).trans (List.suffix_append ['"', '"', '"'] _)
  · exact (leavesSuffix_readLongString _ _ _ _ h).trans (List.suffix_append ['\'', '\'', '\''] _)
  · exact (leavesSuffix_readString _ _ _ _ h).trans (List.suffix_cons '"' _)
  · exact (leavesSuffix_readString _ _ _ _ h).trans (List.suffix_cons '\'' _)
  · cases h

/-! ### Keywords -/

/-- A keyword is read with all its letters. -/
theorem afterKeyword?_suffix {keyword : String} {cs rest : List Char} (h : afterKeyword? keyword cs = some rest) :
    rest <:+ cs ∧ rest.length + keyword.length = cs.length := by
  unfold afterKeyword? at h
  dsimp only at h
  split at h
  · rename_i hkeyword
    obtain rfl := Option.some.inj h
    refine ⟨List.drop_suffix _ cs, ?_⟩
    rw [Bool.and_eq_true, beq_iff_eq] at hkeyword
    have hlength := congrArg List.length hkeyword.1
    rw [List.length_map, List.length_take, String.length_toList] at hlength
    rw [List.length_drop]
    omega
  · cases h

/-- So is the keyword of a directive. -/
theorem readDirective_suffix {cs rest : List Char} {directive : Directive}
    (h : readDirective cs = some (directive, rest)) : rest <:+ cs ∧ rest.length < cs.length := by
  have hmark : ∀ {mark : String} {n : Nat}, mark.toList.isPrefixOf cs = true → 0 < n → n ≤ mark.toList.length →
      cs.drop n <:+ cs ∧ (cs.drop n).length < cs.length := by
    intro mark n hmark hpos hle
    have hlength := (List.isPrefixOf_iff_prefix.1 hmark).length_le
    refine ⟨List.drop_suffix n cs, ?_⟩
    rw [List.length_drop]
    omega
  unfold readDirective at h
  split at h
  · rename_i hprefix
    obtain ⟨-, rfl⟩ := Prod.mk.inj (Option.some.inj h)
    exact hmark hprefix (by decide) (by decide)
  · split at h
    · rename_i hbase
      obtain ⟨-, rfl⟩ := Prod.mk.inj (Option.some.inj h)
      exact hmark hbase (by decide) (by decide)
    · split at h
      · rename_i rest' hkeyword
        obtain ⟨-, rfl⟩ := Prod.mk.inj (Option.some.inj h)
        obtain ⟨hsuffix, hlength⟩ := afterKeyword?_suffix hkeyword
        have hletters : "PREFIX".length = 6 := rfl
        exact ⟨hsuffix, by omega⟩
      · obtain ⟨rest', hkeyword, heq⟩ := Option.map_eq_some_iff.1 h
        obtain ⟨-, rfl⟩ := Prod.mk.inj heq
        obtain ⟨hsuffix, hlength⟩ := afterKeyword?_suffix hkeyword
        have hletters : "BASE".length = 4 := rfl
        exact ⟨hsuffix, by omega⟩

end Turtle

end Document

end RdfDataset
