import RdfDataset.Document.Token
import RdfDataset.Proofs.Term.Plain
import RdfDataset.Term.Display

/-!
# Tokens

What the token readers read, and that they read back what has been displayed: a reader that is given the text of a
token and more behind it returns the token and what is behind it.

* `Document.Reads`: all that a reader reads satisfies a condition.
* `Document.IsReadableLabel`: the labels that can be read.  `reads_readLabel` and `readLabel_append` show that a valid
  label is read back exactly if it is one of them.
* `readIri_displayIri`, `readTag_append` and `readString_escapeLiteral` read back the other tokens.
-/

namespace RdfDataset

/-- The language tag of a literal has been read. -/
def Literal.IsLowered : Literal → Prop
  | .tagged _ tag => LanguageTag.read tag = .ok tag
  | _ => True

theorem Literal.isLowered_ofDatatype (value datatype : String) : (Literal.ofDatatype value datatype).IsLowered := by
  unfold Literal.ofDatatype
  split <;> trivial

namespace Text

/-- A separator behind a text without one is the first. -/
theorem splitFirst_append {sep : Char} {cs : List Char} (h : sep ∉ cs) (rest : List Char) :
    splitFirst sep (cs ++ sep :: rest) = some (cs, rest) := by
  induction cs with
  | nil => simp [splitFirst]
  | cons c cs ih =>
    rw [List.mem_cons, not_or] at h
    simp [splitFirst, Ne.symm h.1, ih h.2]

private theorem unescape_cons (short : Char → Option Char) {c : Char} (hc : c ≠ '\\') (cs : List Char) :
    unescape short (c :: cs) = (unescape short cs).map (c :: ·) := by
  rw [unescape, if_neg hc]
  all_goals simp [hc]

/-- A text without backslashes has no escape sequences. -/
theorem unescape_of_notMem (short : Char → Option Char) {cs : List Char} (h : '\\' ∉ cs) :
    unescape short cs = some cs := by
  induction cs with
  | nil => rfl
  | cons c cs ih =>
    rw [List.mem_cons, not_or] at h
    rw [unescape_cons short (Ne.symm h.1), ih h.2, Option.map_some]

/-- The escape sequences of a literal stand for its value. -/
theorem unescape_escapeLiteral (cs : List Char) : unescape stringEscape (escapeLiteral cs) = some cs := by
  fun_induction escapeLiteral cs with
  | case1 => rfl
  | case2 cs ih => simp [unescape, stringEscape, ih]
  | case3 cs ih => simp [unescape, stringEscape, ih]
  | case4 cs ih => simp [unescape, stringEscape, ih]
  | case5 cs ih => simp [unescape, stringEscape, ih]
  | case6 c cs _ hbackslash _ _ ih => rw [unescape_cons stringEscape hbackslash, ih, Option.map_some]

end Text

namespace Document

/-- All that a reader reads satisfies a condition. -/
def Reads {α : Type} (read : List Char → Option (α × List Char)) (P : α → Prop) : Prop :=
  ∀ cs a rest, read cs = some (a, rest) → P a

/-! ### Labels -/

/-- A label that can be read: it has no colons, and no full stop follows another. -/
def IsReadableLabel (label : String) : Prop :=
  ':' ∉ label.toList ∧ ¬['.', '.'] <:+: label.toList

instance (label : String) : Decidable (IsReadableLabel label) :=
  inferInstanceAs (Decidable (_ ∧ _))

/-- The first character of a name is the first of the text that it stands in. -/
private theorem head?_spanName {cs : List Char} {c : Char} (h : (spanName cs).1.head? = some c) : cs.head? = some c := by
  cases cs with
  | nil => cases h
  | cons d cs =>
    simp only [spanName] at h
    split at h
    · exact h
    · cases h

private theorem not_isNameChar_colon : Text.isNameChar ':' = false := by
  decide

private theorem not_isNameChar_stop : Text.isNameChar '.' = false := by
  decide

private theorem not_continuesName_stop (cs : List Char) : continuesName ('.' :: cs) = false := by
  simp only [continuesName]
  decide

private theorem getLast?_ne_of_cons {c d : Char} {cs : List Char} (h : (c :: cs).getLast? ≠ some d) :
    cs.getLast? ≠ some d := by
  cases cs with
  | nil => simp
  | cons e es => simpa using h

/-- The first character of a label is no full stop and no colon, so that the others decide. -/
private theorem isReadableLabel_cons {c : Char} {cs : List Char} (hc : (Text.isNameStart c || c.isDigit) = true) :
    IsReadableLabel (String.ofList (c :: cs)) ↔ ':' ∉ cs ∧ ¬['.', '.'] <:+: cs := by
  have hcolon : ':' ≠ c := by
    rintro rfl
    exact absurd hc (by decide)
  have hstop : ¬['.', '.'] <+: c :: cs := by
    rintro ⟨name, hname⟩
    obtain ⟨rfl, -⟩ := List.cons.inj hname
    exact absurd hc (by decide)
  simp [IsReadableLabel, List.infix_cons_iff, hcolon, hstop]

/-- No colon stands in a name, and of two characters that follow one another at most one is a full stop. -/
private theorem notMem_spanName (cs : List Char) :
    ':' ∉ (spanName cs).1 ∧ ¬['.', '.'] <:+: (spanName cs).1 := by
  induction cs with
  | nil => simp [spanName]
  | cons c cs ih =>
    simp only [spanName]
    split
    · rename_i hc
      refine ⟨?_, ?_⟩
      · have hne : ':' ≠ c := by
          rintro rfl
          exact absurd hc (by simp [not_isNameChar_colon])
        exact List.not_mem_cons_of_ne_of_not_mem hne ih.1
      · rw [List.infix_cons_iff, not_or]
        refine ⟨?_, ih.2⟩
        rintro ⟨name, hname⟩
        obtain rfl := (List.cons.inj hname).1
        -- behind a full stop the name goes on only with a name character
        have hhead : cs.head? = some '.' := by
          apply head?_spanName
          rw [← List.cons.inj hname |>.2]
          rfl
        obtain ⟨cs', rfl⟩ := List.head?_eq_some_iff.1 hhead
        exact absurd hc (by simp [not_continuesName_stop, not_isNameChar_stop])
    · simp

/-- A label that is read is readable. -/
theorem reads_readLabel : Reads readLabel IsReadableLabel := by
  intro cs label rest h
  unfold readLabel at h
  split at h
  · cases h
  · rename_i c cs
    split at h
    · rename_i hc
      rw [← (Prod.mk.inj (Option.some.inj h)).1, isReadableLabel_cons hc]
      exact notMem_spanName cs
    · cases h

/-- All characters belong to a name if they could and no full stop stands before another one or at the end. -/
private theorem spanName_append {cs : List Char} (hcs : ∀ c ∈ cs, (Text.isNameChar c || c == '.') = true)
    (hdots : ¬['.', '.'] <:+: cs) (hlast : cs.getLast? ≠ some '.') (rest : List Char) :
    spanName (cs ++ ' ' :: rest) = (cs, ' ' :: rest) := by
  induction cs with
  | nil => simp [spanName, show (Text.isNameChar ' ') = false by decide]
  | cons c cs ih =>
    rw [List.forall_mem_cons] at hcs
    rw [List.infix_cons_iff, not_or] at hdots
    have hname : (Text.isNameChar c || (c == '.' && continuesName (cs ++ ' ' :: rest))) = true := by
      rcases Bool.or_eq_true_iff.1 hcs.1 with hc | hc
      · simp [hc]
      · obtain rfl := beq_iff_eq.1 hc
        cases cs with
        | nil => simp at hlast
        | cons d ds =>
          have hd : d ≠ '.' := by
            rintro rfl
            exact hdots.1 ⟨ds, rfl⟩
          have := hcs.2 d List.mem_cons_self
          simp only [Bool.or_eq_true, beq_iff_eq, hd, or_false] at this
          simp [continuesName, this]
    rw [List.cons_append, spanName, if_pos hname, ih hcs.2 hdots.2 (getLast?_ne_of_cons hlast)]

/-- The first character of a valid label, the others, and that they do not end with a full stop. -/
private theorem exists_of_checkBlank {label : String} (h : checkBlank label = .ok ()) :
    ∃ c cs, label = String.ofList (c :: cs) ∧ (Text.isNameStart c || c.isDigit || c == ':') = true ∧
      (∀ d ∈ cs, (Text.isNameChar d || d == ':' || d == '.') = true) ∧ cs.getLast? ≠ some '.' := by
  obtain ⟨cs, rfl⟩ : ∃ cs, label = String.ofList cs := ⟨label.toList, by simp⟩
  rw [checkBlank, String.toList_ofList] at h
  split at h
  · rename_i hlabel
    cases cs with
    | nil => cases hlabel
    | cons c cs =>
      simp only [Text.isBlankLabel, Bool.and_eq_true, List.all_eq_true, bne_iff_ne] at hlabel
      obtain ⟨⟨hc, hcs⟩, hlast⟩ := hlabel
      exact ⟨c, cs, rfl, hc, hcs, getLast?_ne_of_cons hlast⟩
  · cases h

/-- A valid label is read back in front of a space if it is readable. -/
theorem readLabel_append {label : String} (hcheck : checkBlank label = .ok ()) (h : IsReadableLabel label)
    (rest : List Char) : readLabel (label.toList ++ ' ' :: rest) = some (label, ' ' :: rest) := by
  obtain ⟨c, cs, rfl, hc, hcs, hlast⟩ := exists_of_checkBlank hcheck
  have hne : c ≠ ':' := by
    rintro rfl
    exact h.1 (by simp)
  have hstart : (Text.isNameStart c || c.isDigit) = true := by
    simpa [hne] using hc
  obtain ⟨hcolon, hdots⟩ := (isReadableLabel_cons hstart).1 h
  have hnames : ∀ d ∈ cs, (Text.isNameChar d || d == '.') = true := by
    intro d hd
    have hne : d ≠ ':' := by
      rintro rfl
      exact hcolon hd
    simpa [hne] using hcs d hd
  rw [String.toList_ofList, List.cons_append, readLabel, if_pos hstart, spanName_append hnames hdots hlast]

/-- What is left where the reader of a label stops inside it. -/
inductive CutsLabel : List Char → Prop
  | colon (cs : List Char) : CutsLabel (':' :: cs)
  | stop {c : Char} (hc : c ∈ ['.', ':']) (cs : List Char) : CutsLabel ('.' :: c :: cs)

/-- A name ends before a colon, and before a full stop with another one or a colon behind it. -/
private theorem cutsLabel_spanName {cs : List Char}
    (hcs : ∀ c ∈ cs, (Text.isNameChar c || c == ':' || c == '.') = true) (hlast : cs.getLast? ≠ some '.')
    (h : ':' ∈ cs ∨ ['.', '.'] <:+: cs) (rest : List Char) : CutsLabel (spanName (cs ++ ' ' :: rest)).2 := by
  induction cs with
  | nil => simp at h
  | cons c cs ih =>
    rw [List.forall_mem_cons] at hcs
    rw [List.mem_cons, List.infix_cons_iff] at h
    simp only [List.cons_append, spanName]
    split
    · rename_i hc
      refine ih hcs.2 (getLast?_ne_of_cons hlast) ?_
      rcases h with (rfl | h) | ⟨name, hname⟩ | h
      · exact absurd hc (by simp [not_isNameChar_colon])
      · exact .inl h
      · -- the name does not go on from one full stop to another
        obtain ⟨rfl, hrest⟩ := List.cons.inj hname
        rw [← hrest] at hc
        exact absurd hc (by simp [not_continuesName_stop, not_isNameChar_stop])
      · exact .inr h
    · rename_i hc
      simp only [Bool.or_eq_true, Bool.and_eq_true, beq_iff_eq, not_or, not_and] at hc
      have hkind := hcs.1
      simp only [hc.1, Bool.false_or, Bool.or_eq_true, beq_iff_eq] at hkind
      rcases hkind with rfl | rfl
      · exact .colon _
      · cases cs with
        | nil => simp at hlast
        | cons d ds =>
          have hd := hcs.2 d List.mem_cons_self
          have hstop := hc.2 rfl
          simp only [List.cons_append, continuesName, Bool.or_eq_true, not_or] at hstop
          simp only [Bool.eq_false_iff.2 hstop.1, Bool.false_or, Bool.or_eq_true, beq_iff_eq] at hd
          exact .stop (by simp [hd.symm]) _

/-- A valid label is not read as a whole if it is not readable. -/
theorem cutsLabel_of_readLabel {label : String} (hcheck : checkBlank label = .ok ()) (h : ¬IsReadableLabel label)
    {tail : List Char} {name : String} {rest : List Char}
    (hread : readLabel (label.toList ++ ' ' :: tail) = some (name, rest)) : CutsLabel rest := by
  obtain ⟨c, cs, rfl, -, hcs, hlast⟩ := exists_of_checkBlank hcheck
  rw [String.toList_ofList, List.cons_append, readLabel] at hread
  split at hread
  · rename_i hstart
    rw [← (Prod.mk.inj (Option.some.inj hread)).2]
    rw [isReadableLabel_cons hstart, not_and_or, not_not, not_not] at h
    exact cutsLabel_spanName hcs hlast h tail
  · cases hread

/-! ### IRIs and language tags -/

/-- An IRI in angle brackets is read back. -/
theorem readIri_displayIri {text : String} (h : checkIri text = .ok ()) (rest : List Char) :
    readIri none (displayIri text ++ rest) = some (text, rest) := by
  have hclean := noDelimiter_of_checkIri h
  have hclose : '>' ∉ text.toList := fun hc => hclean _ hc (by decide)
  have hbackslash : '\\' ∉ text.toList := fun hc => hclean _ hc (by decide)
  simp only [checkIri, mapError_eq_ok] at h
  obtain ⟨r, hread, htext⟩ := Iri.exists_readAbsolute h
  have hsplit := Text.splitFirst_append hclose rest
  simp [readIri, displayIri, readReference, hsplit, Text.unescape_of_notMem _ hbackslash, Iri.readWithBase, hread,
    Except.toOption, htext]

theorem reads_readTag : Reads readTag fun tag => LanguageTag.read tag = .ok tag := by
  intro cs tag rest h
  simp only [readTag, Option.bind_eq_bind, Option.bind_eq_some_iff, pure, Option.some.injEq, Prod.mk.injEq] at h
  obtain ⟨lower, hlower, rfl, -⟩ := h
  cases hread : LanguageTag.read (String.ofList (cs.takeWhile fun c => c.isAlphanum || c == '-')) with
  | error e =>
    rw [hread] at hlower
    cases hlower
  | ok tag =>
    rw [hread] at hlower
    rw [← Option.some.inj hlower]
    exact LanguageTag.read_read hread

/-- A tag that has been read is read back in front of a space. -/
theorem readTag_append {tag : String} (h : LanguageTag.read tag = .ok tag) (rest : List Char) :
    readTag (tag.toList ++ ' ' :: rest) = some (tag, ' ' :: rest) := by
  have htag := LanguageTag.isTagChar_of_check (LanguageTag.read_eq_ok h).2
  have hspan : (tag.toList ++ ' ' :: rest).takeWhile (fun c => c.isAlphanum || c == '-') = tag.toList := by
    rw [List.takeWhile_append_of_pos (p := fun c => c.isAlphanum || c == '-') htag,
      List.takeWhile_cons_of_neg (by decide), List.append_nil]
  simp [readTag, hspan, h, Except.toOption]

/-! ### Literals -/

/-- The tag behind a literal is as it is kept. -/
theorem reads_readLiteralEnd (skip : List Char → List Char) (readDatatype : List Char → Option (String × List Char))
    (value : String) : Reads (readLiteralEnd skip readDatatype value) Literal.IsLowered := by
  intro cs l rest h
  unfold readLiteralEnd at h
  split at h
  · obtain ⟨⟨tag, rest'⟩, htag, heq⟩ := Option.map_eq_some_iff.1 h
    rw [← (Prod.mk.inj heq).1]
    exact reads_readTag _ _ _ htag
  · obtain ⟨⟨datatype, rest'⟩, -, heq⟩ := Option.map_eq_some_iff.1 h
    rw [← (Prod.mk.inj heq).1]
    exact Literal.isLowered_ofDatatype value datatype
  · rw [← (Prod.mk.inj (Option.some.inj h)).1]
    trivial

/-- No quotation mark inside the escaped value of a literal closes it. -/
private theorem splitString_escapeLiteral (cs rest : List Char) :
    splitString '"' (escapeLiteral cs ++ '"' :: rest) = some (escapeLiteral cs, rest) := by
  fun_induction escapeLiteral cs with
  | case1 => simp [splitString]
  | case2 cs ih => simp [splitString, ih]
  | case3 cs ih => simp [splitString, ih]
  | case4 cs ih => simp [splitString, ih]
  | case5 cs ih => simp [splitString, ih]
  | case6 c cs hquote hbackslash hnewline hreturn ih =>
    have hline : isLineEnd c = false := by simp [isLineEnd, show c ≠ '\n' from hnewline, show c ≠ '\r' from hreturn]
    rw [List.cons_append, splitString, if_neg hquote, if_neg (by simp [hline]), ih, Option.map_some]
    simp [show c ≠ '\\' from hbackslash]

/-- The value of a literal is read back. -/
theorem readString_escapeLiteral (value : String) (rest : List Char) :
    readString '"' (escapeLiteral value.toList ++ '"' :: rest) = some (value, rest) := by
  simp [readString, splitString_escapeLiteral, Text.unescape_escapeLiteral]

end Document

end RdfDataset
