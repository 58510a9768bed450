import RdfDataset.Document.Turtle.Block
import RdfDataset.Proofs.Document.Refusal

/-!
# Runs of reading steps

What the steps of the readers of Turtle and TriG do in front of a text that sets no base and binds no prefixes.

* `Document.Turtle.Progress.before`: the progress there.  There is one lemma for each elementary step, about the results
  that it can have.
* `Document.Turtle.StartsToken`: a text that begins neither with white space nor with a comment, nor with something that
  belongs to a literal in front of it.  `dropSpace_of_startsToken` keeps it as it is.
-/

namespace RdfDataset.Document.Turtle

/-! ### White space -/

@[simp]
theorem dropSpace_space (cs : List Char) : dropSpace (' ' :: cs) = dropSpace cs := by
  simp [dropSpace, dropWithComments, isSpace]

@[simp]
theorem dropSpace_tab (cs : List Char) : dropSpace ('\t' :: cs) = dropSpace cs := by
  simp [dropSpace, dropWithComments, isSpace]

@[simp]
theorem dropSpace_newline (cs : List Char) : dropSpace ('\n' :: cs) = dropSpace cs := by
  simp [dropSpace, dropWithComments, isSpace, isLineEnd]

@[simp]
theorem dropSpace_nil : dropSpace [] = [] :=
  rfl

/-- A text that begins neither with white space nor with a comment, and not with what can follow the value of a
literal. -/
def StartsToken : List Char → Prop
  | [] => False
  | c :: _ => c ∉ [' ', '\t', '\n', '\r', '#', '@', '^']

@[simp]
theorem startsToken_cons {c : Char} {cs : List Char} :
    StartsToken (c :: cs) ↔ c ∉ [' ', '\t', '\n', '\r', '#', '@', '^'] :=
  Iff.rfl

@[simp]
theorem startsToken_display (t : Term) (cs : List Char) : StartsToken (t.display ++ cs) := by
  obtain ⟨c, hc, ds, hds⟩ := exists_display_eq_cons t
  rw [hds, List.cons_append, startsToken_cons]
  simp only [List.mem_cons, not_or] at hc ⊢
  tauto

theorem dropSpace_of_startsToken {cs : List Char} (h : StartsToken cs) : dropSpace cs = cs := by
  cases cs with
  | nil => rfl
  | cons c cs =>
    simp only [startsToken_cons, List.mem_cons, not_or] at h
    simp [dropSpace, dropWithComments, isSpace, isLineEnd, h]

@[simp]
theorem dropSpace_display (t : Term) (cs : List Char) : dropSpace (t.display ++ cs) = t.display ++ cs :=
  dropSpace_of_startsToken (startsToken_display t cs)

/-! ### Elementary steps -/

/-- The progress in front of a text, with the statements so far and the current graph, where no base has been set and no
prefix has been bound. -/
def Progress.before (graph : Term) (quads : List Quad) (rest : List Char) : Progress :=
  { rest, graph, quads }

open Progress (before)

variable {α β : Type} {g : Term} {quads : List Quad} {cs : List Char}

@[simp]
theorem before_rest : (before g quads cs).rest = cs :=
  rfl

@[simp]
theorem before_base : (before g quads cs).base = none :=
  rfl

@[simp]
theorem before_prefixes : (before g quads cs).prefixes = {} :=
  rfl

theorem run_bind_eq_ok {m : Reading α} {f : α → Reading β} {p : Progress} {r : β × Progress} :
    (m >>= f).run p = .ok r ↔ ∃ a p', m.run p = .ok (a, p') ∧ (f a).run p' = .ok r := by
  rw [StateT.run_bind, bind_eq_ok]
  exact Prod.exists

/-- Behind a step that gives a value the next one is run. -/
theorem run_bind_of_ok {m : Reading α} {f : α → Reading β} {p p' : Progress} {a : α} (h : m.run p = .ok (a, p')) :
    (m >>= f).run p = (f a).run p' := by
  rw [StateT.run_bind, h]
  rfl

theorem run_bind_of_error {m : Reading α} {f : α → Reading β} {p : Progress} {e : ReadError} (h : m.run p = .error e) :
    (m >>= f).run p = .error e := by
  rw [StateT.run_bind, h]
  rfl

theorem run_bind_congr {m m' : Reading α} {f : α → Reading β} {p p' : Progress} (h : m.run p = m'.run p') :
    (m >>= f).run p = (m' >>= f).run p' := by
  rw [StateT.run_bind, StateT.run_bind, h]

@[simp]
theorem run_get : (get : Reading Progress).run (before g quads cs) = .ok (before g quads cs, before g quads cs) :=
  rfl

@[simp]
theorem run_upcoming : upcoming.run (before g quads cs) = .ok (cs, before g quads cs) :=
  rfl

@[simp]
theorem run_proceed (rest : List Char) :
    (proceed rest).run (before g quads cs) = .ok ((), before g quads rest) :=
  rfl

@[simp]
theorem run_skip : skip.run (before g quads cs) = .ok ((), before g quads (dropSpace cs)) :=
  rfl

@[simp]
theorem run_malformed {p : Progress} : (malformed : Reading α).run p = .error .malformed :=
  rfl

/-- Behind a check that has failed nothing is read. -/
@[simp]
theorem run_check {c : Prop} [Decidable c] {f : α → Reading β} {m : Reading β} {p : Progress}
    {r : β × Progress} :
    (if c then malformed >>= f else m).run p = .ok r ↔ ¬c ∧ m.run p = .ok r := by
  by_cases h : c <;> simp [h]

theorem run_token {read : List Char → Option (α × List Char)} {r : α × Progress} :
    (token read).run (before g quads cs) = .ok r ↔
      ∃ a rest, read cs = some (a, rest) ∧ (a, before g quads rest) = r := by
  cases h : read cs with
  | none => simp [token, h]
  | some pair =>
    obtain ⟨a, rest⟩ := pair
    simp [token, h]

@[simp]
theorem run_accept {mark : String} {r : Bool × Progress} :
    (accept mark).run (before g quads cs) = .ok r ↔
      if mark.toList <+: cs then (true, before g quads (cs.drop mark.toList.length)) = r
      else (false, before g quads cs) = r := by
  by_cases h : mark.toList <+: cs <;> simp [accept, h, String.length_toList]

@[simp]
theorem run_expect {mark : String} {r : Unit × Progress} :
    (expect mark).run (before g quads cs) = .ok r ↔
      mark.toList <+: cs ∧ ((), before g quads (cs.drop mark.toList.length)) = r := by
  by_cases h : mark.toList <+: cs <;> simp [expect, h]

@[simp]
theorem run_emit {s p o : Term} {r : Unit × Progress} :
    (emit s p o).run (before g quads cs) = .ok r ↔
      ∃ q, Report.convert ⟨s, p, o, g⟩ = .ok q ∧ ((), before g (q :: quads) cs) = r := by
  cases h : Report.convert ⟨s, p, o, g⟩ with
  | error e => simp [emit, before, h]
  | ok q => simp [emit, before, h]

end RdfDataset.Document.Turtle

/-! ### Inside a label -/

namespace RdfDataset.Document.CutsLabel

open Turtle
open Turtle.Progress (before)

variable {g : Term} {quads : List Quad} {cs : List Char}

theorem dropSpace (h : CutsLabel cs) : Turtle.dropSpace cs = cs := by
  cases h with
  | colon cs => exact dropSpace_of_startsToken (startsToken_cons.2 (by decide))
  | stop _ cs => exact dropSpace_of_startsToken (startsToken_cons.2 (by decide))

/-- No punctuation mark stands there but a full stop. -/
theorem not_prefix (h : CutsLabel cs) {c : Char} (hc : c ∉ [':', '.']) (ds : List Char) : ¬(c :: ds) <+: cs := by
  simp only [List.mem_cons, not_or] at hc
  cases h with
  | colon cs => simp [hc.1]
  | stop _ cs => simp [hc.2.1]

/-- No predicate begins there. -/
theorem run_readVerb (h : CutsLabel cs) : readVerb.run (before g quads cs) = .error .malformed := by
  cases h with
  | colon cs => rfl
  | stop _ cs => rfl

end RdfDataset.Document.CutsLabel
