import RdfDataset.Proofs.Term.Codec

/-!
# The components of a quoted quad

A text is cut at the spaces that lie outside literals and nested quads.  What comes out are its components, all of them
and nothing else, as long as every literal and every nested quad ends and none ends that has not begun.

* `Text.IsPart`: a part of a text between two offsets of its bytes; `Text.slice?_eq_some_iff`: this is what is cut out.
* `splitAtSpaces_append_space` and `splitAtSpaces_of_cons`: components are put together and taken apart at a space.
* `splitComponents_eq_some_iff`: the components are texts that are not cut themselves and give the text again.
* `Turn` is one turn of the scanner, `Blocked` where it gives up; `sliceAtSpaces_eq_none_iff`: there is no result just
  when turns lead there.
* `splitComponents_exact` puts this together.
-/

namespace RdfDataset

/-! ### Parts of a text -/

namespace Text

@[simp]
theorem length_bytes (cs : List Char) : (bytes cs).length = utf8Length cs := by
  induction cs with
  | nil => rfl
  | cons c cs ih =>
    rw [bytes, List.flatMap_cons, List.length_append, String.length_utf8EncodeChar, utf8Length_cons]
    exact congrArg (c.utf8Size + ·) ih

/-- A part of a text, made of whole characters, whose bytes stand between two offsets. -/
def IsPart (cs : List Char) (offsets : Nat × Nat) (part : List Char) : Prop :=
  ∃ before after, before ++ part ++ after = cs ∧ (bytes before).length = offsets.1 ∧
    (bytes (before ++ part)).length = offsets.2

private theorem dropBytes?_eq_some {n : Nat} {cs rest : List Char} (h : dropBytes? n cs = some rest) :
    ∃ before, before ++ rest = cs ∧ utf8Length before = n := by
  fun_induction dropBytes? n cs with
  | case1 cs => exact ⟨[], Option.some.inj h ▸ rfl, rfl⟩
  | case2 => cases h
  | case3 n c cs hle ih =>
    obtain ⟨before, rfl, hlength⟩ := ih h
    refine ⟨c :: before, rfl, ?_⟩
    rw [utf8Length_cons, hlength]
    omega
  | case4 => cases h

private theorem takeBytes?_eq_some {n : Nat} {cs part : List Char} (h : takeBytes? n cs = some part) :
    ∃ after, part ++ after = cs ∧ utf8Length part = n := by
  fun_induction takeBytes? n cs generalizing part with
  | case1 cs =>
    obtain rfl := Option.some.inj h
    exact ⟨cs, rfl, rfl⟩
  | case2 => cases h
  | case3 n c cs hle ih =>
    obtain ⟨rest, hrest, rfl⟩ := Option.map_eq_some_iff.1 h
    obtain ⟨after, rfl, hlength⟩ := ih hrest
    refine ⟨after, rfl, ?_⟩
    rw [utf8Length_cons, hlength]
    omega
  | case4 => cases h

/-- What is cut out between two offsets is the part that stands there. -/
theorem slice?_eq_some_iff {cs part : List Char} {start stop : Nat} :
    slice? start stop cs = some part ↔ IsPart cs (start, stop) part := by
  constructor
  · intro h
    unfold slice? at h
    split at h
    · rename_i hle
      obtain ⟨rest, hdrop, htake⟩ := Option.bind_eq_some_iff.1 h
      obtain ⟨before, rfl, hbefore⟩ := dropBytes?_eq_some hdrop
      obtain ⟨after, rfl, hpart⟩ := takeBytes?_eq_some htake
      refine ⟨before, after, List.append_assoc .., ?_, ?_⟩
      · rw [length_bytes, hbefore]
      · rw [length_bytes, utf8Length_append, hbefore, hpart, Nat.add_sub_cancel' hle]
    · cases h
  · rintro ⟨before, after, hcs, hstart, hstop⟩
    rw [length_bytes] at hstart hstop
    rw [List.append_assoc] at hcs
    rw [utf8Length_append, hstart] at hstop
    exact slice?_append before after hcs hstart hstop

end Text

/-- The components are the parts of the text between the offsets that the scanner has found. -/
theorem exists_isPart_of_splitComponents {inside : List Char} {parts : List (List Char)}
    (h : splitComponents inside = some parts) :
    ∃ slices, componentSlices inside = some slices ∧ List.Forall₂ (Text.IsPart inside) slices parts := by
  obtain ⟨slices, hslices, hparts⟩ := Option.bind_eq_some_iff.1 h
  have hall := map_eq_of_mapM_eq_some hparts
  rw [← List.forall₂_eq_eq_eq, List.forall₂_map_left_iff, List.forall₂_map_right_iff] at hall
  exact ⟨slices, hslices, hall.imp fun _ _ => Text.slice?_eq_some_iff.1⟩

theorem splitComponents_eq_none_iff {inside : List Char} :
    splitComponents inside = none ↔ componentSlices inside = none := by
  constructor
  · intro h
    by_contra hslices
    obtain ⟨slices, hslices⟩ := Option.ne_none_iff_exists'.1 hslices
    obtain ⟨parts, hparts⟩ := exists_slice?_of_componentSlices hslices
    rw [splitComponents, hslices] at h
    exact Option.some_ne_none parts (hparts.symm.trans h)
  · intro h
    rw [splitComponents, h]
    rfl

/-! ### Components one by one -/

/-- A space behind a text is not taken for another character of it. -/
private theorem not_cons_append_space {c d : Char} {cs : List Char} (hd : d ≠ ' ')
    (h : ∀ cs', c = d → cs = d :: cs' → False) (rest : List Char) :
    ∀ cs', c = d → cs ++ ' ' :: rest = d :: cs' → False := by
  intro cs' hc hcs
  cases cs with
  | nil => exact hd (List.cons.inj hcs).1.symm
  | cons e cs => exact h cs hc (by rw [(List.cons.inj hcs).1])

private theorem not_cons_of_append {c d : Char} {cs rest : List Char}
    (h : ∀ cs', c = d → cs ++ rest = d :: cs' → False) : ∀ cs', c = d → cs = d :: cs' → False := by
  rintro cs' hc rfl
  exact h (cs' ++ rest) hc rfl

/-- A character that is passed comes before the first piece, whatever follows. -/
private theorem map_append_consFirst (c : Char) {pieces : List (List Char)} (h : pieces ≠ [])
    (others : Option (List (List Char))) :
    (others.map (pieces ++ ·)).map (consFirst c) = others.map (consFirst c pieces ++ ·) := by
  cases pieces with
  | nil => exact absurd rfl h
  | cons piece pieces => exact Option.map_map ..

private theorem map_append_consFirst_consFirst (c d : Char) {pieces : List (List Char)} (h : pieces ≠ [])
    (others : Option (List (List Char))) :
    (others.map (pieces ++ ·)).map (consFirst c ∘ consFirst d) =
      others.map ((consFirst c ∘ consFirst d) pieces ++ ·) := by
  rw [← Option.map_map, map_append_consFirst d h, map_append_consFirst c (consFirst_ne_nil d pieces)]
  rfl

/-- A text that is cut is cut in the same way in front of a space, behind which another component begins. -/
theorem splitAtSpaces_append_space {pos : Position} {cs : List Char} {pieces : List (List Char)}
    (h : splitAtSpaces pos cs = some pieces) (rest : List Char) :
    splitAtSpaces pos (cs ++ ' ' :: rest) = (splitAtSpaces (.outside 0 true) rest).map (pieces ++ ·) := by
  fun_induction splitAtSpaces pos cs generalizing pieces with
  | case1 start =>
    obtain rfl := Option.some.inj h
    exact splitAtSpaces.eq_9 start rest
  | case2 | case7 => cases h
  | case3 | case6 | case8 =>
    rename_i ih
    obtain ⟨pieces', hpieces, rfl⟩ := Option.map_eq_some_iff.1 h
    rw [List.cons_append, List.cons_append, splitAtSpaces, ih hpieces,
      map_append_consFirst_consFirst _ _ (join_of_splitAtSpaces hpieces).1]
  | case4 depth c cs hnot ih =>
    obtain ⟨pieces', hpieces, rfl⟩ := Option.map_eq_some_iff.1 h
    rw [List.cons_append, splitAtSpaces.eq_4 _ _ _ (not_cons_append_space (by decide) hnot rest), ih hpieces,
      map_append_consFirst _ (join_of_splitAtSpaces hpieces).1]
  | case5 depth cs ih =>
    obtain ⟨pieces', hpieces, rfl⟩ := Option.map_eq_some_iff.1 h
    rw [List.cons_append, splitAtSpaces.eq_5, ih hpieces, map_append_consFirst _ (join_of_splitAtSpaces hpieces).1]
  | case9 start cs ih =>
    obtain ⟨pieces', hpieces, rfl⟩ := Option.map_eq_some_iff.1 h
    rw [List.cons_append, splitAtSpaces.eq_9, ih hpieces, Option.map_map]
    rfl
  | case10 depth start c cs hquote hopen hclose hspace ih =>
    obtain ⟨pieces', hpieces, rfl⟩ := Option.map_eq_some_iff.1 h
    rw [List.cons_append, splitAtSpaces.eq_10 _ _ _ _ hquote (not_cons_append_space (by decide) hopen rest)
      (not_cons_append_space (by decide) hclose rest) hspace, ih hpieces,
      map_append_consFirst _ (join_of_splitAtSpaces hpieces).1]

/-- Taking back what a turn has put before the first piece. -/
private theorem exists_of_consFirst_eq {c : Char} {pieces others : List (List Char)} {piece : List Char}
    (h : pieces ≠ []) (heq : consFirst c pieces = piece :: others) :
    ∃ first, pieces = first :: others ∧ c :: first = piece := by
  cases pieces with
  | nil => exact absurd rfl h
  | cons first pieces =>
    obtain ⟨rfl, rfl⟩ := List.cons.inj heq
    exact ⟨first, rfl, rfl⟩

section Cons

variable {pos : Position} {cs piece : List Char} {others : List (List Char)}

private theorem exists_of_map_consFirst {c : Char}
    (h : (splitAtSpaces pos cs).map (consFirst c) = some (piece :: others)) :
    ∃ first, splitAtSpaces pos cs = some (first :: others) ∧ c :: first = piece := by
  obtain ⟨pieces, hpieces, hcons⟩ := Option.map_eq_some_iff.1 h
  obtain ⟨first, rfl, hpiece⟩ := exists_of_consFirst_eq (join_of_splitAtSpaces hpieces).1 hcons
  exact ⟨first, hpieces, hpiece⟩

private theorem exists_of_map_consFirst_consFirst {c d : Char}
    (h : (splitAtSpaces pos cs).map (consFirst c ∘ consFirst d) = some (piece :: others)) :
    ∃ first, splitAtSpaces pos cs = some (first :: others) ∧ c :: d :: first = piece := by
  obtain ⟨pieces, hpieces, hcons⟩ := Option.map_eq_some_iff.1 h
  obtain ⟨second, hsecond, rfl⟩ := exists_of_consFirst_eq (consFirst_ne_nil d pieces) hcons
  obtain ⟨first, rfl, rfl⟩ := exists_of_consFirst_eq (join_of_splitAtSpaces hpieces).1 hsecond
  exact ⟨first, hpieces, rfl⟩

/-- The first piece stands at the beginning of the text. -/
private theorem exists_append_of_splitAtSpaces (h : splitAtSpaces pos cs = some (piece :: others)) :
    ∃ rest, cs = piece ++ rest := by
  obtain ⟨-, rfl⟩ := join_of_splitAtSpaces h
  exact exists_intercalate_cons piece others

/-- The first piece alone is not cut, and the others are cut in the same way without it. -/
theorem splitAtSpaces_of_cons (h : splitAtSpaces pos cs = some (piece :: others)) :
    splitAtSpaces pos piece = some [piece] ∧
      (others ≠ [] → splitAtSpaces (.outside 0 true) ([' '].intercalate others) = some others) := by
  fun_induction splitAtSpaces pos cs generalizing piece with
  | case1 start =>
    obtain ⟨rfl, rfl⟩ := List.cons.inj (Option.some.inj h)
    exact ⟨rfl, fun hne => absurd rfl hne⟩
  | case2 | case7 => cases h
  | case3 | case6 | case8 =>
    rename_i ih
    obtain ⟨first, hcs, rfl⟩ := exists_of_map_consFirst_consFirst h
    obtain ⟨hfirst, hothers⟩ := ih hcs
    exact ⟨by rw [splitAtSpaces, hfirst]; rfl, hothers⟩
  | case4 depth c cs hnot ih =>
    obtain ⟨first, hcs, rfl⟩ := exists_of_map_consFirst h
    obtain ⟨hfirst, hothers⟩ := ih hcs
    obtain ⟨rest, rfl⟩ := exists_append_of_splitAtSpaces hcs
    refine ⟨?_, hothers⟩
    rw [splitAtSpaces.eq_4 _ _ _ (not_cons_of_append hnot), hfirst]
    rfl
  | case5 depth cs ih =>
    obtain ⟨first, hcs, rfl⟩ := exists_of_map_consFirst h
    obtain ⟨hfirst, hothers⟩ := ih hcs
    exact ⟨by rw [splitAtSpaces.eq_5, hfirst]; rfl, hothers⟩
  | case9 start cs ih =>
    obtain ⟨pieces, hpieces, hcons⟩ := Option.map_eq_some_iff.1 h
    obtain ⟨rfl, rfl⟩ := List.cons.inj hcons
    refine ⟨splitAtSpaces.eq_1 start, fun _ => ?_⟩
    rw [(join_of_splitAtSpaces hpieces).2, hpieces]
  | case10 depth start c cs hquote hopen hclose hspace ih =>
    obtain ⟨first, hcs, rfl⟩ := exists_of_map_consFirst h
    obtain ⟨hfirst, hothers⟩ := ih hcs
    obtain ⟨rest, rfl⟩ := exists_append_of_splitAtSpaces hcs
    refine ⟨?_, hothers⟩
    rw [splitAtSpaces.eq_10 _ _ _ _ hquote (not_cons_of_append hopen) (not_cons_of_append hclose) hspace, hfirst]
    rfl

end Cons

/-- The components of a text are the only texts that give it with spaces between them and are not cut themselves. -/
theorem splitComponents_eq_some_iff {inside : List Char} {parts : List (List Char)} :
    splitComponents inside = some parts ↔
      parts ≠ [] ∧ [' '].intercalate parts = inside ∧ ∀ part ∈ parts, splitComponents part = some [part] := by
  simp only [splitComponents_eq]
  constructor
  · intro h
    obtain ⟨hne, hjoin⟩ := join_of_splitAtSpaces h
    refine ⟨hne, hjoin, ?_⟩
    clear hne hjoin
    induction parts generalizing inside with
    | nil => simp
    | cons part others ih =>
      obtain ⟨hpart, hothers⟩ := splitAtSpaces_of_cons h
      rw [List.forall_mem_cons]
      refine ⟨hpart, fun other hother => ?_⟩
      exact ih (hothers (List.ne_nil_of_mem hother)) other hother
  · rintro ⟨hne, rfl, hparts⟩
    induction parts with
    | nil => exact absurd rfl hne
    | cons part others ih =>
      obtain ⟨hpart, hothers⟩ := List.forall_mem_cons.1 hparts
      cases others with
      | nil => simpa using hpart
      | cons other others =>
        rw [List.intercalate_cons_cons, List.append_assoc, List.singleton_append,
          splitAtSpaces_append_space hpart, ih (List.cons_ne_nil other others) hothers]
        rfl

/-- Cutting the ids of some valid terms with single spaces between them gives these ids. -/
theorem splitComponents_intercalate {terms : List Term} (hne : terms ≠ []) (h : ∀ t ∈ terms, t.IsValid) :
    splitComponents ([' '].intercalate (terms.map (Term.idChars true))) = some (terms.map (Term.idChars true)) := by
  refine splitComponents_eq_some_iff.2 ⟨mt List.map_eq_nil_iff.1 hne, rfl, List.forall_mem_map.2 fun t ht => ?_⟩
  have hwhole := @splitComponents_join t [] (by simpa using h t ht)
  simpa using hwhole

/-! ### Giving up -/

/-- One turn of the scanner: from a position and the marks that are left to the next position and the marks that are
left then. -/
inductive Turn : Position × List Mark → Position × List Mark → Prop
  | doubledQuote {depth : Nat} {rest : List Mark} :
    Turn (.inLiteral depth, .quote :: .quote :: rest) (.inLiteral depth, rest)
  | closingQuote {depth : Nat} {rest : List Mark} (hnext : rest.head? ≠ some .quote) :
    Turn (.inLiteral depth, .quote :: rest) (.outside depth false, rest)
  | value {depth : Nat} {mark : Mark} {rest : List Mark} (hquote : mark ≠ .quote) :
    Turn (.inLiteral depth, mark :: rest) (.inLiteral depth, rest)
  | openingQuote {depth : Nat} {rest : List Mark} :
    Turn (.outside depth true, .quote :: rest) (.inLiteral depth, rest)
  | openingBrackets {depth : Nat} {start : Bool} {rest : List Mark} :
    Turn (.outside depth start, .opening :: .opening :: rest) (.outside (depth + 1) true, rest)
  | closingBrackets {depth : Nat} {start : Bool} {rest : List Mark} :
    Turn (.outside (depth + 1) start, .closing :: .closing :: rest) (.outside depth false, rest)
  | space {depth : Nat} {start : Bool} {rest : List Mark} :
    Turn (.outside depth start, .space :: rest) (.outside depth true, rest)
  | other {depth : Nat} {start : Bool} {mark : Mark} {rest : List Mark} (hspace : mark ≠ .space)
    (hquote : mark = .quote → start = false) (hopen : mark = .opening → rest.head? ≠ some .opening)
    (hclose : mark = .closing → rest.head? ≠ some .closing) :
    Turn (.outside depth start, mark :: rest) (.outside depth false, rest)

/-- Where the scanner gives up: at the end of the text inside a literal or inside a nested quad, and in front of two
closing brackets that lie outside of both. -/
inductive Blocked : Position × List Mark → Prop
  | inLiteral {depth : Nat} : Blocked (.inLiteral depth, [])
  | inQuad {depth : Nat} {start : Bool} : Blocked (.outside (depth + 1) start, [])
  | unopened {start : Bool} {rest : List Mark} : Blocked (.outside 0 start, .closing :: .closing :: rest)

theorem Blocked.sliceAtSpaces_eq_none {s : Position × List Mark} (hs : Blocked s) (start offset : Nat) :
    sliceAtSpaces s.1 start offset s.2 = none := by
  cases hs with
  | inLiteral => rfl
  | inQuad => rfl
  | unopened => rw [sliceAtSpaces]

/-- Without a result after a turn there is none before it. -/
theorem Turn.sliceAtSpaces_eq_none {s t : Position × List Mark} (h : Turn s t)
    (ht : ∀ start offset, sliceAtSpaces t.1 start offset t.2 = none) (start offset : Nat) :
    sliceAtSpaces s.1 start offset s.2 = none := by
  have hnone : ∀ {mark mark' : Mark} {rest marks : List Mark}, (mark = mark' → rest.head? ≠ some mark') →
      mark = mark' → rest = mark' :: marks → False := by
    rintro mark mark' rest marks h rfl rfl
    exact h rfl rfl
  cases h with
  | doubledQuote => exact ht start (offset + 2)
  | closingQuote hnext =>
    rw [sliceAtSpaces.eq_4 _ _ _ _ _ fun _ => hnone fun _ => hnext]
    exact ht start (offset + 1)
  | value hquote =>
    rw [sliceAtSpaces_inLiteral _ _ _ _ hquote]
    exact ht start (offset + 1)
  | openingQuote =>
    rw [sliceAtSpaces.eq_5]
    exact ht start (offset + 1)
  | openingBrackets =>
    rw [sliceAtSpaces.eq_6]
    exact ht start (offset + 2)
  | closingBrackets =>
    rw [sliceAtSpaces.eq_8]
    exact ht start (offset + 2)
  | @space depth begins rest =>
    cases depth with
    | zero =>
      rw [sliceAtSpaces.eq_9, ht (offset + 1) (offset + 1)]
      rfl
    | succ depth =>
      rw [sliceAtSpaces.eq_10] <;> try simp
      exact ht start (offset + 1)
  | @other depth begins mark rest hspace hquote hopen hclose =>
    rw [sliceAtSpaces.eq_10, decide_eq_false hspace]
    · exact ht start (offset + 1)
    · rintro rfl rfl
      exact absurd (hquote rfl) (by decide)
    · exact fun _ => hnone hopen
    · exact fun _ => hnone hclose
    · exact fun _ => hspace

/-- Nor is there one before any number of turns. -/
theorem Blocked.sliceAtSpaces_eq_none_of_turns {s t : Position × List Mark} (ht : Blocked t)
    (h : Relation.ReflTransGen Turn s t) : ∀ start offset, sliceAtSpaces s.1 start offset s.2 = none := by
  induction h using Relation.ReflTransGen.head_induction_on with
  | refl => exact ht.sliceAtSpaces_eq_none
  | head hturn _ ih => exact hturn.sliceAtSpaces_eq_none ih

/-- There is no result just when the scanner gets to where it gives up. -/
theorem sliceAtSpaces_eq_none_iff {pos : Position} {start offset : Nat} {marks : List Mark} :
    sliceAtSpaces pos start offset marks = none ↔ ∃ s, Relation.ReflTransGen Turn (pos, marks) s ∧ Blocked s := by
  constructor
  · intro h
    have hturn : ∀ {s t : Position × List Mark}, Turn s t → (∃ u, Relation.ReflTransGen Turn t u ∧ Blocked u) →
        ∃ u, Relation.ReflTransGen Turn s u ∧ Blocked u :=
      fun hst ⟨u, htu, hu⟩ => ⟨u, .head hst htu, hu⟩
    have hhead : ∀ {mark : Mark} {marks : List Mark}, (∀ rest, marks = mark :: rest → False) →
        marks.head? ≠ some mark := by
      intro mark marks hne hhead
      obtain ⟨rest, hrest⟩ := List.head?_eq_some_iff.1 hhead
      exact hne rest hrest
    fun_induction sliceAtSpaces pos start offset marks with
    | case1 => cases h
    | case2 start offset pos hpos =>
      refine ⟨_, .refl, ?_⟩
      cases pos with
      | inLiteral depth => exact .inLiteral
      | outside depth begins =>
        cases depth with
        | zero => exact absurd rfl (hpos begins)
        | succ depth => exact .inQuad
    | case3 depth start offset marks ih => exact hturn .doubledQuote (ih h)
    | case4 depth start offset mark marks hnext ih =>
      by_cases hquote : mark = .quote
      · subst hquote
        exact hturn (.closingQuote (hhead fun rest => hnext rest rfl)) (ih h)
      · rw [if_neg hquote] at ih h
        exact hturn (.value hquote) (ih h)
    | case5 depth start offset marks ih => exact hturn .openingQuote (ih h)
    | case6 depth begins start offset marks ih => exact hturn .openingBrackets (ih h)
    | case7 => exact ⟨_, .refl, .unopened⟩
    | case8 begins start offset marks depth ih => exact hturn .closingBrackets (ih h)
    | case9 begins start offset marks ih => exact hturn .space (ih (Option.map_eq_none_iff.1 h))
    | case10 depth begins start offset mark marks hquote hopen hclose hspace ih =>
      by_cases hmark : mark = .space
      · subst hmark
        exact hturn .space (ih h)
      · rw [decide_eq_false hmark] at ih h
        refine hturn (.other hmark ?_ ?_ ?_) (ih h)
        · rintro rfl
          exact Bool.eq_false_iff.2 fun hbegins => hquote hbegins rfl
        · rintro rfl
          exact hhead fun rest => hopen rest rfl
        · rintro rfl
          exact hhead fun rest => hclose rest rfl
  · rintro ⟨s, hturns, hs⟩
    exact hs.sliceAtSpaces_eq_none_of_turns hturns start offset

/-! ### All texts -/

/-- Cutting the ids of one or more valid terms with single spaces between them gives these ids.  And whatever a text is,
its components are the only texts that give it with single spaces between them and are not cut themselves, each of them
a part of it made of whole characters; there are none just when the scanner comes to the end of the text inside a
literal or a nested quad, or outside of both to brackets that close a quad. -/
theorem splitComponents_exact :
    (∀ terms : List Term, terms ≠ [] → (∀ t ∈ terms, t.IsValid) →
      splitComponents ([' '].intercalate (terms.map (Term.idChars true))) = some (terms.map (Term.idChars true))) ∧
    ∀ inside : List Char,
      (∀ parts, splitComponents inside = some parts ↔
        parts ≠ [] ∧ [' '].intercalate parts = inside ∧ ∀ part ∈ parts, splitComponents part = some [part]) ∧
      (∀ parts, splitComponents inside = some parts →
        ∃ slices, componentSlices inside = some slices ∧ List.Forall₂ (Text.IsPart inside) slices parts) ∧
      (splitComponents inside = none ↔ componentSlices inside = none) ∧
      (componentSlices inside = none ↔
        ∃ s, Relation.ReflTransGen Turn (.outside 0 true, marks inside) s ∧ Blocked s) := by
  refine ⟨fun terms => splitComponents_intercalate, fun inside => ⟨fun parts => splitComponents_eq_some_iff, ?_,
    splitComponents_eq_none_iff, sliceAtSpaces_eq_none_iff⟩⟩
  exact fun parts => exists_isPart_of_splitComponents

/-- The default graph, a quoted quad and a literal, with spaces, brackets and quotation marks in the values; and
brackets that close a quad where none is open. -/
theorem splitComponents_exact_nested :
    splitComponents " <<?x \"\"\"<<a\"\" b>> \" _:n.1>> \" \"\"\"@en-gb".toList =
        some (["", "<<?x \"\"\"<<a\"\" b>> \" _:n.1>>", "\" \"\"\"@en-gb"].map String.toList) ∧
      splitComponents "?x >>".toList = none := by
  have hquoted : (Term.quoted (.var "x") (.literal (.plain "\"<<a\" b>> ")) (.blank "n.1") .defaultGraph).IsValid :=
    .quoted (Term.isValid_var.2 (by decide)) (.plain _) (Term.isValid_blank.2 (by decide)) .defaultGraph
  have htag : Literal.tagged? " \"" "en-GB" = .ok (.tagged " \"" "en-gb") := by decide
  have hvalid : ∀ t ∈ [Term.defaultGraph, _, _], t.IsValid :=
    List.forall_mem_cons.2 ⟨.defaultGraph, List.forall_mem_cons.2 ⟨hquoted, List.forall_mem_singleton.2 (.tagged htag)⟩⟩
  constructor
  · exact splitComponents_exact.1 _ (by simp) hvalid
  · -- a question mark, a letter and a space
    have hturns : Relation.ReflTransGen Turn (.outside 0 true, [.other, .other, .space, .closing, .closing])
        (.outside 0 true, [.closing, .closing]) :=
      .head (.other (by decide) (by decide) (by decide) (by decide))
        (.head (.other (by decide) (by decide) (by decide) (by decide)) (.single .space))
    obtain ⟨-, -, hnone, hslices⟩ := splitComponents_exact.2 "?x >>".toList
    exact hnone.2 (hslices.2 ⟨_, hturns, .unopened⟩)

end RdfDataset
