import RdfDataset.Proofs.Term.Plain
import RdfDataset.Term.Id

/-!
# Cutting ids character by character

The scanner of ids goes over bytes and cuts at byte offsets.  The bytes of the marks it looks for are no parts of other
characters, so that it does the same as a scanner of characters, and it never cuts a character in two.

* `marks_cons`: the marks that the bytes of a character are.
* `splitAtSpaces` cuts a text of characters; `sliceAtSpaces_marks`: the scanner of bytes finds the same components.
* `splitComponents_eq` puts this together, and `exists_slice?_of_componentSlices` says that all slices can be cut.
* `Literal.ofIdChars?_cons`: neither does cutting the id of a literal fail.
-/

namespace RdfDataset

namespace Text

/-! ### Offsets -/

theorem foldl_utf8Size (n : Nat) (cs : List Char) :
    cs.foldl (fun length c => length + c.utf8Size) n = n + utf8Length cs := by
  unfold utf8Length
  induction cs generalizing n with
  | nil => rfl
  | cons c cs ih =>
    rw [List.foldl_cons, List.foldl_cons, ih (n + c.utf8Size), ih (0 + c.utf8Size)]
    omega

@[simp]
theorem utf8Length_nil : utf8Length [] = 0 :=
  rfl

@[simp]
theorem utf8Length_cons (c : Char) (cs : List Char) : utf8Length (c :: cs) = c.utf8Size + utf8Length cs := by
  rw [utf8Length, List.foldl_cons, foldl_utf8Size, Nat.zero_add]

@[simp]
theorem utf8Length_append (cs ds : List Char) : utf8Length (cs ++ ds) = utf8Length cs + utf8Length ds := by
  induction cs with
  | nil => simp
  | cons c cs ih =>
    rw [List.cons_append, utf8Length_cons, utf8Length_cons, ih]
    omega

/-- A text can be cut behind some characters of it. -/
theorem dropBytes?_append (cs rest : List Char) : dropBytes? (utf8Length cs) (cs ++ rest) = some rest := by
  induction cs with
  | nil =>
    cases rest <;> rfl
  | cons c cs ih =>
    have hpos := c.utf8Size_pos
    obtain ⟨n, hn⟩ := Nat.exists_eq_succ_of_ne_zero (n := utf8Length (c :: cs)) (by rw [utf8Length_cons]; omega)
    have hsize : c.utf8Size + utf8Length cs = n + 1 := by rw [← utf8Length_cons, hn]
    rw [hn, List.cons_append, dropBytes?, if_pos (by omega), ← hsize, Nat.add_sub_cancel_left, ih]

theorem takeBytes?_append (cs rest : List Char) : takeBytes? (utf8Length cs) (cs ++ rest) = some cs := by
  induction cs with
  | nil =>
    cases rest <;> rfl
  | cons c cs ih =>
    have hpos := c.utf8Size_pos
    obtain ⟨n, hn⟩ := Nat.exists_eq_succ_of_ne_zero (n := utf8Length (c :: cs)) (by rw [utf8Length_cons]; omega)
    have hsize : c.utf8Size + utf8Length cs = n + 1 := by rw [← utf8Length_cons, hn]
    rw [hn, List.cons_append, takeBytes?, if_pos (by omega), ← hsize, Nat.add_sub_cancel_left, ih, Option.map_some]

/-- The part between two places of a text. -/
theorem slice?_append (before : List Char) {part : List Char} (after : List Char) {cs : List Char} {start stop : Nat}
    (hcs : before ++ (part ++ after) = cs) (hstart : utf8Length before = start)
    (hstop : start + utf8Length part = stop) : slice? start stop cs = some part := by
  subst hcs hstart hstop
  rw [slice?, if_pos (Nat.le_add_right _ _), dropBytes?_append, Option.bind_some, Nat.add_sub_cancel_left,
    takeBytes?_append]

theorem splitLast_eq_some {sep : Char} {cs before after : List Char} (h : splitLast sep cs = some (before, after)) :
    cs = before ++ sep :: after := by
  fun_induction splitLast sep cs generalizing before after with
  | case1 => cases h
  | case2 c cs before' after' hsplit ih =>
    obtain ⟨rfl, rfl⟩ := Prod.mk.inj (Option.some.inj h)
    rw [ih hsplit, List.cons_append]
  | case3 cs _ _ =>
    obtain ⟨rfl, rfl⟩ := Prod.mk.inj (Option.some.inj h)
    rfl
  | case4 => cases h

end Text

/-! ### Marks -/

/-- The marks that the bytes of a character are. -/
def markChar (c : Char) : List Mark :=
  (String.utf8EncodeChar c).map Mark.ofByte

theorem marks_cons (c : Char) (cs : List Char) : marks (c :: cs) = markChar c ++ marks cs := by
  rw [marks, Text.bytes, List.flatMap_cons, List.map_append]
  rfl

theorem ofByte_eq_other {byte : UInt8} (h : 128 ≤ byte.toNat) : Mark.ofByte byte = .other := by
  have hne : ∀ c : Char, c.toUInt8.toNat < 128 → byte ≠ c.toUInt8 := by
    rintro c hc rfl
    omega
  rw [Mark.ofByte, if_neg (hne _ (by decide)), if_neg (hne _ (by decide)), if_neg (hne _ (by decide)),
    if_neg (hne _ (by decide))]

/-- A character of several bytes has none that is below 128. -/
theorem le_of_mem_utf8EncodeChar {c : Char} (hc : c.utf8Size ≠ 1) {byte : UInt8} (h : byte ∈ String.utf8EncodeChar c) :
    128 ≤ byte.toNat := by
  have hlarge : ¬c.val.toNat ≤ 127 := by
    intro hle
    exact hc (Char.utf8Size_eq_one_iff.2 (UInt32.le_iff_toNat_le.2 hle))
  unfold String.utf8EncodeChar at h
  rw [if_neg hlarge] at h
  split at h
  · simp only [List.mem_cons, List.not_mem_nil, or_false] at h
    rcases h with rfl | rfl <;> simp only [UInt8.toNat_ofNat'] <;> omega
  · split at h
    · simp only [List.mem_cons, List.not_mem_nil, or_false] at h
      rcases h with rfl | rfl | rfl <;> simp only [UInt8.toNat_ofNat'] <;> omega
    · simp only [List.mem_cons, List.not_mem_nil, or_false] at h
      rcases h with rfl | rfl | rfl | rfl <;> simp only [UInt8.toNat_ofNat'] <;> omega

/-- The bytes of a character that is no mark are none. -/
theorem markChar_of_isPlain {c : Char} (hc : IsPlain c) : markChar c = List.replicate c.utf8Size .other := by
  rw [List.eq_replicate_iff, markChar, List.length_map, String.length_utf8EncodeChar, List.forall_mem_map]
  refine ⟨rfl, fun byte hbyte => ?_⟩
  by_cases hsize : c.utf8Size = 1
  · rw [String.utf8EncodeChar_eq_singleton hsize, List.mem_singleton] at hbyte
    subst hbyte
    have hsmall : c.val.toNat ≤ 127 := UInt32.le_iff_toNat_le.1 (Char.utf8Size_eq_one_iff.1 hsize)
    have hne : ∀ d : Char, d.val.toNat ≤ 127 → c ≠ d → c.val.toUInt8 ≠ d.toUInt8 := by
      intro d hd hcd heq
      have hnat : c.val.toUInt8.toNat = d.val.toUInt8.toNat := congrArg UInt8.toNat heq
      rw [UInt32.toNat_toUInt8, UInt32.toNat_toUInt8] at hnat
      refine hcd (Char.ext (UInt32.toNat_inj.1 ?_))
      omega
    obtain ⟨hspace, hquote, hopen, hclose⟩ := hc
    rw [Mark.ofByte, if_neg (hne _ (by decide) hquote), if_neg (hne _ (by decide) hopen),
      if_neg (hne _ (by decide) hclose), if_neg (hne _ (by decide) hspace)]
  · exact ofByte_eq_other (le_of_mem_utf8EncodeChar hsize hbyte)

theorem markChar_cases (c : Char) :
    (c = '"' ∧ markChar c = [.quote]) ∨ (c = '<' ∧ markChar c = [.opening]) ∨ (c = '>' ∧ markChar c = [.closing]) ∨
      (c = ' ' ∧ markChar c = [.space]) ∨ (IsPlain c ∧ markChar c = List.replicate c.utf8Size .other) := by
  by_cases hquote : c = '"'
  · exact .inl ⟨hquote, by subst hquote; decide⟩
  by_cases hopen : c = '<'
  · exact .inr (.inl ⟨hopen, by subst hopen; decide⟩)
  by_cases hclose : c = '>'
  · exact .inr (.inr (.inl ⟨hclose, by subst hclose; decide⟩))
  by_cases hspace : c = ' '
  · exact .inr (.inr (.inr (.inl ⟨hspace, by subst hspace; decide⟩)))
  · have hplain : IsPlain c := ⟨hspace, hquote, hopen, hclose⟩
    exact .inr (.inr (.inr (.inr ⟨hplain, markChar_of_isPlain hplain⟩)))

theorem marks_of_isPlain {c : Char} (hc : IsPlain c) (cs : List Char) :
    marks (c :: cs) = List.replicate c.utf8Size .other ++ marks cs := by
  rw [marks_cons, markChar_of_isPlain hc]

/-- The character whose byte is a mark. -/
def Mark.char : Mark → Char
  | .quote => '"'
  | .opening => '<'
  | .closing => '>'
  | .space | .other => ' '

/-- Where the bytes begin with a mark, the text does. -/
theorem exists_of_marks_eq_cons {cs : List Char} {mark : Mark} (hmark : mark ≠ .other) {rest : List Mark}
    (h : marks cs = mark :: rest) : ∃ cs', cs = mark.char :: cs' := by
  cases cs with
  | nil => cases h
  | cons c cs =>
    rw [marks_cons] at h
    have hmarked : ∀ m : Mark, c = m.char → markChar c = [m] → ∃ cs', c :: cs = mark.char :: cs' := by
      intro m hchar hc
      rw [hc] at h
      rw [hchar, (List.cons.inj h).1]
      exact ⟨cs, rfl⟩
    rcases markChar_cases c with ⟨hchar, hc⟩ | ⟨hchar, hc⟩ | ⟨hchar, hc⟩ | ⟨hchar, hc⟩ | ⟨-, hc⟩
    · exact hmarked .quote hchar hc
    · exact hmarked .opening hchar hc
    · exact hmarked .closing hchar hc
    · exact hmarked .space hchar hc
    · obtain ⟨n, hn⟩ := Nat.exists_eq_succ_of_ne_zero c.utf8Size_pos.ne'
      rw [hc, hn, List.replicate_succ] at h
      exact absurd (List.cons.inj h).1.symm hmark

theorem marks_quote (cs : List Char) : marks ('"' :: cs) = .quote :: marks cs :=
  rfl

theorem marks_opening (cs : List Char) : marks ('<' :: cs) = .opening :: marks cs :=
  rfl

theorem marks_closing (cs : List Char) : marks ('>' :: cs) = .closing :: marks cs :=
  rfl

theorem marks_space (cs : List Char) : marks (' ' :: cs) = .space :: marks cs :=
  rfl

/-! ### Two scanners -/

/-- Puts a character before the first of some pieces. -/
def consFirst (c : Char) : List (List Char) → List (List Char)
  | [] => [[c]]
  | piece :: pieces => (c :: piece) :: pieces

/-- Cuts at the spaces that lie outside literals and nested quads.  There is no result when a literal or a nested
quad does not end, and when one ends that has not begun. -/
def splitAtSpaces : Position → List Char → Option (List (List Char))
  | .outside 0 _, [] => some [[]]
  | _, [] => none
  | .inLiteral depth, '"' :: '"' :: cs =>
    (splitAtSpaces (.inLiteral depth) cs).map (consFirst '"' ∘ consFirst '"')
  | .inLiteral depth, c :: cs =>
    (splitAtSpaces (if c = '"' then .outside depth false else .inLiteral depth) cs).map (consFirst c)
  | .outside depth true, '"' :: cs => (splitAtSpaces (.inLiteral depth) cs).map (consFirst '"')
  | .outside depth _, '<' :: '<' :: cs =>
    (splitAtSpaces (.outside (depth + 1) true) cs).map (consFirst '<' ∘ consFirst '<')
  | .outside depth _, '>' :: '>' :: cs =>
    match depth with
    | 0 => none
    | depth + 1 => (splitAtSpaces (.outside depth false) cs).map (consFirst '>' ∘ consFirst '>')
  | .outside 0 _, ' ' :: cs => (splitAtSpaces (.outside 0 true) cs).map ([] :: ·)
  | .outside depth _, c :: cs => (splitAtSpaces (.outside depth (c = ' ')) cs).map (consFirst c)

theorem consFirst_ne_nil (c : Char) (pieces : List (List Char)) : consFirst c pieces ≠ [] := by
  cases pieces <;> simp [consFirst]

/-- The pieces with spaces between them are the text that was cut, and there is one at least. -/
theorem join_of_splitAtSpaces {pos : Position} {cs : List Char} {pieces : List (List Char)}
    (h : splitAtSpaces pos cs = some pieces) : pieces ≠ [] ∧ [' '].intercalate pieces = cs := by
  have hcons : ∀ {c : Char} {rest : List (List Char)} {cs : List Char}, rest ≠ [] ∧ [' '].intercalate rest = cs →
      consFirst c rest ≠ [] ∧ [' '].intercalate (consFirst c rest) = c :: cs := by
    intro c rest cs h
    obtain ⟨hne, rfl⟩ := h
    refine ⟨consFirst_ne_nil c rest, ?_⟩
    cases rest with
    | nil => exact absurd rfl hne
    | cons piece pieces =>
      cases pieces with
      | nil => simp [consFirst]
      | cons piece' pieces => simp [consFirst, List.intercalate_cons_cons]
  fun_induction splitAtSpaces pos cs generalizing pieces with
  | case1 =>
    obtain rfl := Option.some.inj h
    simp
  | case2 => cases h
  | case3 | case6 | case8 =>
    rename_i ih
    obtain ⟨rest, hrest, rfl⟩ := Option.map_eq_some_iff.1 h
    exact hcons (hcons (ih hrest))
  | case4 | case5 | case10 =>
    rename_i ih
    obtain ⟨rest, hrest, rfl⟩ := Option.map_eq_some_iff.1 h
    exact hcons (ih hrest)
  | case7 => cases h
  | case9 start cs ih =>
    obtain ⟨rest, hrest, rfl⟩ := Option.map_eq_some_iff.1 h
    obtain ⟨hne, rfl⟩ := ih hrest
    exact ⟨by simp, by rw [List.intercalate_cons_of_ne_nil hne]; rfl⟩

/-- Where some pieces begin and end, when the first has begun at `start` and goes on at `offset`. -/
def slicesOf : (start offset : Nat) → List (List Char) → List (Nat × Nat)
  | _, _, [] => []
  | start, offset, piece :: pieces =>
    let stop := offset + Text.utf8Length piece
    (start, stop) :: slicesOf (stop + 1) (stop + 1) pieces

/-- A character of the first piece has been passed. -/
theorem map_slicesOf_consFirst {split : Option (List (List Char))} (hsplit : ∀ pieces ∈ split, pieces ≠ []) (c : Char)
    (start offset : Nat) :
    (split.map (consFirst c)).map (slicesOf start offset) = split.map (slicesOf start (offset + c.utf8Size)) := by
  cases split with
  | none => rfl
  | some pieces =>
    cases pieces with
    | nil => exact absurd rfl (hsplit [] rfl)
    | cons piece pieces => simp only [Option.map_some, consFirst, slicesOf, Text.utf8Length_cons, Nat.add_assoc]

/-- Two characters of the first piece have been passed. -/
theorem map_slicesOf_consFirst_consFirst {split : Option (List (List Char))} (hsplit : ∀ pieces ∈ split, pieces ≠ [])
    (c d : Char) (start offset : Nat) :
    (split.map (consFirst c ∘ consFirst d)).map (slicesOf start offset) =
      split.map (slicesOf start (offset + c.utf8Size + d.utf8Size)) := by
  rw [← Option.map_map, map_slicesOf_consFirst ?_, map_slicesOf_consFirst hsplit]
  intro pieces h
  obtain ⟨rest, -, rfl⟩ := Option.map_eq_some_iff.1 h
  exact consFirst_ne_nil d rest

section Scan

variable (depth start offset : Nat) (rest : List Mark)

theorem sliceAtSpaces_inLiteral {mark : Mark} (hmark : mark ≠ .quote) :
    sliceAtSpaces (.inLiteral depth) start offset (mark :: rest) =
      sliceAtSpaces (.inLiteral depth) start (offset + 1) rest := by
  rw [sliceAtSpaces, if_neg hmark]
  exact fun _ h => absurd h hmark

theorem sliceAtSpaces_inLiteral_others (n : Nat) :
    sliceAtSpaces (.inLiteral depth) start offset (List.replicate n .other ++ rest) =
      sliceAtSpaces (.inLiteral depth) start (offset + n) rest := by
  induction n generalizing offset with
  | zero => rfl
  | succ n ih =>
    rw [List.replicate_succ, List.cons_append, sliceAtSpaces_inLiteral _ _ _ _ (by decide), ih, Nat.add_right_comm]
    rfl

theorem sliceAtSpaces_outside_others (begins : Bool) (n : Nat) :
    sliceAtSpaces (.outside depth begins) start offset (List.replicate (n + 1) .other ++ rest) =
      sliceAtSpaces (.outside depth false) start (offset + (n + 1)) rest := by
  induction n generalizing begins offset with
  | zero => rw [List.replicate_one, List.singleton_append, sliceAtSpaces.eq_10] <;> simp
  | succ n ih =>
    rw [List.replicate_succ, List.cons_append, sliceAtSpaces.eq_10] <;> try simp
    rw [ih, Nat.add_right_comm]
    rfl

end Scan

/-- The scanner of bytes cuts where the scanner of characters does. -/
theorem sliceAtSpaces_marks (pos : Position) (cs : List Char) (start offset : Nat) :
    sliceAtSpaces pos start offset (marks cs) = (splitAtSpaces pos cs).map (slicesOf start offset) := by
  have hpieces : ∀ pos cs, ∀ pieces ∈ splitAtSpaces pos cs, pieces ≠ [] :=
    fun _ _ _ h => (join_of_splitAtSpaces h).1
  fun_induction splitAtSpaces pos cs generalizing start offset with
  | case1 => simp [marks, Text.bytes, sliceAtSpaces, slicesOf]
  | case2 pos hpos =>
    have hnil : marks [] = [] := rfl
    rw [hnil, sliceAtSpaces.eq_2, Option.map_none]
    exact hpos
  | case3 depth cs ih =>
    rw [marks_quote, marks_quote, sliceAtSpaces.eq_3, ih, map_slicesOf_consFirst_consFirst (hpieces _ _)]
    rfl
  | case4 depth c cs hnot ih =>
    rw [map_slicesOf_consFirst (hpieces _ _), ← ih]
    rcases markChar_cases c with ⟨rfl, -⟩ | ⟨rfl, -⟩ | ⟨rfl, -⟩ | ⟨rfl, -⟩ | ⟨hc, -⟩
    · rw [marks_quote, sliceAtSpaces.eq_4]
      · rfl
      · intro rest _ hrest
        obtain ⟨cs', rfl⟩ := exists_of_marks_eq_cons (by decide) hrest
        exact hnot cs' rfl rfl
    · exact sliceAtSpaces_inLiteral _ _ _ _ (by decide)
    · exact sliceAtSpaces_inLiteral _ _ _ _ (by decide)
    · exact sliceAtSpaces_inLiteral _ _ _ _ (by decide)
    · rw [marks_of_isPlain hc, sliceAtSpaces_inLiteral_others, if_neg hc.2.1]
  | case5 depth cs ih =>
    rw [marks_quote, sliceAtSpaces.eq_5, ih, map_slicesOf_consFirst (hpieces _ _)]
    rfl
  | case6 depth begins cs ih =>
    rw [marks_opening, marks_opening, sliceAtSpaces.eq_6, ih, map_slicesOf_consFirst_consFirst (hpieces _ _)]
    rfl
  | case7 begins cs => rw [marks_closing, marks_closing, sliceAtSpaces.eq_7, Option.map_none]
  | case8 begins cs depth ih =>
    rw [marks_closing, marks_closing, sliceAtSpaces.eq_8, ih, map_slicesOf_consFirst_consFirst (hpieces _ _)]
    rfl
  | case9 begins cs ih =>
    rw [marks_space, sliceAtSpaces.eq_9, ih, Option.map_map, Option.map_map]
    rfl
  | case10 depth begins c cs hquote hopen hclose hspace ih =>
    rw [map_slicesOf_consFirst (hpieces _ _), ← ih]
    rcases markChar_cases c with ⟨rfl, -⟩ | ⟨rfl, -⟩ | ⟨rfl, -⟩ | ⟨rfl, -⟩ | ⟨hc, -⟩
    · rw [marks_quote, sliceAtSpaces.eq_10]
      · rfl
      · exact fun hbegins _ => hquote hbegins rfl
      all_goals simp
    · rw [marks_opening, sliceAtSpaces.eq_10]
      · rfl
      · simp
      · intro rest _ hrest
        obtain ⟨cs', rfl⟩ := exists_of_marks_eq_cons (by decide) hrest
        exact hopen cs' rfl rfl
      all_goals simp
    · rw [marks_closing, sliceAtSpaces.eq_10]
      · rfl
      · simp
      · simp
      · intro rest _ hrest
        obtain ⟨cs', rfl⟩ := exists_of_marks_eq_cons (by decide) hrest
        exact hclose cs' rfl rfl
      · simp
    · rw [marks_space, sliceAtSpaces.eq_10]
      · rfl
      · simp
      · simp
      · simp
      · exact fun hdepth _ => hspace hdepth rfl
    · obtain ⟨n, hn⟩ := Nat.exists_eq_succ_of_ne_zero c.utf8Size_pos.ne'
      rw [marks_of_isPlain hc, hn, sliceAtSpaces_outside_others, decide_eq_false hc.1]

/-! ### Slices -/

/-- Where all values exist, they are the values one by one. -/
theorem map_eq_of_mapM_eq_some {α β : Type} {f : α → Option β} {as : List α} {bs : List β} (h : as.mapM f = some bs) :
    as.map f = bs.map some := by
  induction as generalizing bs with
  | nil =>
    obtain rfl := Option.some.inj h
    rfl
  | cons a as ih =>
    rw [List.mapM_cons] at h
    obtain ⟨b, hb, h⟩ := Option.bind_eq_some_iff.1 h
    obtain ⟨others, hothers, h⟩ := Option.bind_eq_some_iff.1 h
    obtain rfl := Option.some.inj h
    rw [List.map_cons, List.map_cons, hb, ih hothers]

/-- A text begins with the first of the pieces that it is put together from. -/
theorem exists_intercalate_cons (piece : List Char) (pieces : List (List Char)) :
    ∃ after, [' '].intercalate (piece :: pieces) = piece ++ after := by
  cases pieces with
  | nil => exact ⟨[], by simp⟩
  | cons piece' pieces => exact ⟨_, by rw [List.intercalate_cons_cons, List.append_assoc]⟩

/-- The slices of some pieces with spaces between them are these pieces. -/
theorem mapM_slice?_slicesOf (before : List Char) {cs : List Char} {pieces : List (List Char)}
    (hcs : before ++ [' '].intercalate pieces = cs) {start : Nat} (hstart : Text.utf8Length before = start) :
    (slicesOf start start pieces).mapM (fun (start, stop) => Text.slice? start stop cs) = some pieces := by
  induction pieces generalizing before start with
  | nil => rfl
  | cons piece pieces ih =>
    obtain ⟨after, hafter⟩ := exists_intercalate_cons piece pieces
    have hfirst : Text.slice? start (start + Text.utf8Length piece) cs = some piece :=
      Text.slice?_append before after (hafter ▸ hcs) hstart rfl
    have hothers : (slicesOf (start + Text.utf8Length piece + 1) (start + Text.utf8Length piece + 1) pieces).mapM
        (fun (start, stop) => Text.slice? start stop cs) = some pieces := by
      cases pieces with
      | nil => rfl
      | cons piece' pieces =>
        -- the next piece begins behind the space
        refine ih (before ++ piece ++ [' ']) ?_ ?_
        · rw [← hcs, List.intercalate_cons_cons]
          simp
        · have hspace : Text.utf8Length [' '] = 1 := rfl
          rw [Text.utf8Length_append, Text.utf8Length_append, hstart, hspace]
    rw [slicesOf, List.mapM_cons, hothers]
    change (Text.slice? start _ cs).bind _ = _
    rw [hfirst]
    rfl

/-- The components are those that a scanner of characters finds. -/
theorem splitComponents_eq (inside : List Char) : splitComponents inside = splitAtSpaces (.outside 0 true) inside := by
  rw [splitComponents, componentSlices, sliceAtSpaces_marks]
  cases hsplit : splitAtSpaces (.outside 0 true) inside with
  | none => rfl
  | some pieces => exact mapM_slice?_slicesOf [] (join_of_splitAtSpaces hsplit).2 rfl

/-- Where the components have been found, the text can be cut. -/
theorem exists_slice?_of_componentSlices {inside : List Char} {slices : List (Nat × Nat)}
    (h : componentSlices inside = some slices) :
    ∃ components, slices.mapM (fun (start, stop) => Text.slice? start stop inside) = some components := by
  rw [componentSlices, sliceAtSpaces_marks] at h
  obtain ⟨pieces, hsplit, rfl⟩ := Option.map_eq_some_iff.1 h
  exact ⟨pieces, mapM_slice?_slicesOf [] (join_of_splitAtSpaces hsplit).2 rfl⟩

/-! ### Literals -/

/-- The id of a literal can be cut in front of its last quotation mark and behind it. -/
theorem slice?_of_splitLast {tail value suffix : List Char}
    (h : Text.splitLast '"' tail = some (value, suffix)) :
    Text.lastOffset? '"' ('"' :: tail) = some (1 + Text.utf8Length value) ∧
      Text.slice? 1 (1 + Text.utf8Length value) ('"' :: tail) = some value ∧
      Text.slice? (1 + Text.utf8Length value + 1) (Text.utf8Length ('"' :: tail)) ('"' :: tail) = some suffix := by
  have htail := Text.splitLast_eq_some h
  have hquote : '"'.utf8Size = 1 := rfl
  refine ⟨?_, ?_, ?_⟩
  · rw [Text.lastOffset?, Text.splitLast, h, Option.map_some]
    dsimp only
    rw [Text.utf8Length_cons, hquote]
  · exact Text.slice?_append ['"'] ('"' :: suffix) (by rw [htail]; rfl) rfl rfl
  · refine Text.slice?_append ('"' :: (value ++ ['"'])) [] (by simp [htail]) ?_ ?_
    · simp [hquote, Nat.add_assoc]
    · simp [htail, hquote]
      omega

/-- A literal is read from what stands in front of its last quotation mark and behind it. -/
theorem Literal.ofIdChars?_cons (nested : Bool) (tail : List Char) :
    Literal.ofIdChars? nested ('"' :: tail) =
      match Text.splitLast '"' tail with
      | none => .error (.id (String.ofList ('"' :: tail)))
      | some (value, suffix) =>
        let value := String.ofList (if nested then undoubleQuotes value else value)
        match suffix with
        | [] => .ok (.plain value)
        | '@' :: tag => Literal.tagged? value (String.ofList tag)
        | '^' :: '^' :: datatype => Literal.typed? value (String.ofList datatype)
        | _ => .error (.id (String.ofList ('"' :: tail))) := by
  cases hsplit : Text.splitLast '"' tail with
  | none =>
    have hlast : (Text.lastOffset? '"' ('"' :: tail)).filter (0 < ·) = none := by
      rw [Text.lastOffset?, Text.splitLast, hsplit]
      rfl
    rw [ofIdChars?, hlast]
    rfl
  | some parts =>
    obtain ⟨value, suffix⟩ := parts
    obtain ⟨hlast, hvalue, hsuffix⟩ := slice?_of_splitLast hsplit
    have hfilter : (Text.lastOffset? '"' ('"' :: tail)).filter (0 < ·) = some (1 + Text.utf8Length value) := by
      rw [hlast, Option.filter_some_pos]
      simp
    rw [ofIdChars?, hfilter]
    dsimp only
    rw [hvalue]
    dsimp only
    rw [hsuffix]
    rfl

end RdfDataset
