import RdfDataset.Text.Split

/-!
# Cutting text at byte offsets

Offsets count the bytes of a text in UTF-8.  A text can only be cut where a character begins, and at its end.

* `slice? start stop cs` is the part of `cs` between two offsets, if it can be cut there.
* `lastOffset? c cs` is the offset of the last `c`.
-/

namespace RdfDataset.Text

/-- The bytes of a text in UTF-8. -/
def bytes (cs : List Char) : List UInt8 :=
  cs.flatMap String.utf8EncodeChar

/-- The text behind its first bytes, if these are all bytes of some characters. -/
def dropBytes? : Nat → List Char → Option (List Char)
  | 0, cs => some cs
  | _ + 1, [] => none
  | n + 1, c :: cs => if c.utf8Size ≤ n + 1 then dropBytes? (n + 1 - c.utf8Size) cs else none

/-- The first bytes of a text as a text, if these are all bytes of some characters. -/
def takeBytes? : Nat → List Char → Option (List Char)
  | 0, _ => some []
  | _ + 1, [] => none
  | n + 1, c :: cs => if c.utf8Size ≤ n + 1 then (takeBytes? (n + 1 - c.utf8Size) cs).map (c :: ·) else none

/-- The part of a text between two offsets, if it can be cut at both and they are in order. -/
def slice? (start stop : Nat) (cs : List Char) : Option (List Char) :=
  if start ≤ stop then (dropBytes? start cs).bind (takeBytes? (stop - start)) else none

/-- The offset of the last `sep`, if there is one. -/
def lastOffset? (sep : Char) (cs : List Char) : Option Nat :=
  (splitLast sep cs).map fun (before, _) => utf8Length before

private theorem length_le_of_dropBytes? {n : Nat} {cs rest : List Char} (h : dropBytes? n cs = some rest) :
    rest.length ≤ cs.length := by
  fun_induction dropBytes? n cs with
  | case1 cs => simp_all
  | case2 => cases h
  | case3 n c cs _ ih => exact Nat.le_succ_of_le (ih h)
  | case4 => cases h

private theorem length_le_of_takeBytes? {n : Nat} {cs part : List Char} (h : takeBytes? n cs = some part) :
    part.length ≤ cs.length := by
  fun_induction takeBytes? n cs generalizing part with
  | case1 =>
    obtain rfl := Option.some.inj h
    simp
  | case2 => cases h
  | case3 n c cs _ ih =>
    obtain ⟨rest, hrest, rfl⟩ := Option.map_eq_some_iff.1 h
    exact Nat.succ_le_succ (ih hrest)
  | case4 => cases h

/-- A part of a text is not longer than the text. -/
theorem length_le_of_slice? {start stop : Nat} {cs part : List Char} (h : slice? start stop cs = some part) :
    part.length ≤ cs.length := by
  unfold slice? at h
  split at h
  · obtain ⟨rest, hrest, hpart⟩ := Option.bind_eq_some_iff.1 h
    exact Nat.le_trans (length_le_of_takeBytes? hpart) (length_le_of_dropBytes? hrest)
  · cases h

end RdfDataset.Text
