import RdfDataset.Document.Reader
import RdfDataset.Proofs.Dataset.Enumerate
import RdfDataset.Proofs.Dataset.Replay
import RdfDataset.Proofs.Dataset.Sound
import RdfDataset.Proofs.GraphIndex.Scan
import RdfDataset.Reasoning.Rdfs

/-!
# Sequences of calls

Any calls, with any terms, rules and texts, let a dataset evolve.

* `Call` is one call on a dataset, with `Call.run`; calls that fail are calls too.
* `Call.evolves` is one call, `Dataset.evolves_calls` any number of them.
* `Dataset.size_calls`: at any time the size that is remembered is the number of quads.
* `Dataset.enumeratesPositions_calls`: at any time the terms in each position are those of the quads that are found.
-/

namespace RdfDataset

/-- A call on a dataset. -/
inductive Call
  | update (u : Update)
  | size
  | isEmpty
  | extractLists (options : ExtractOptions)
  | load (format : Format) (text : String) (base : Option String)
  | loadFile (path : String) (text base : Option String)
  | reason (rules : List Rule)
  | reasonIn (rules : List Rule) (graph : Term)
  | reasonRdfs (rules : List RdfsRule)
  deriving DecidableEq, Repr

variable [Arrangement]

/-- What becomes of a dataset. -/
def Call.run (d : Dataset) : Call → Dataset
  | update u => (u.run d).2
  | size => d.size.2
  | isEmpty => d.isEmpty.2
  | extractLists options => (d.extractLists options).2
  | load format text base => (d.load format text base).2
  | loadFile path text base => (d.loadFile path text base).2
  | reason rules => (d.reason rules).2
  | reasonIn rules graph => (d.reasonIn rules graph).2
  | reasonRdfs rules => (d.reasonRdfs rules).2

namespace Dataset

theorem Sound.update {d : Dataset} (hd : d.Sound) (u : Update) : d.Evolves (u.run d).2 := by
  cases u <;> dsimp only [Update.run]
  case insert q => exact hd.insert q
  case insertMany quads => exact hd.insertMany quads
  case extend quads => exact hd.insertMany quads
  case erase q => exact hd.erase q
  case eraseMany quads => exact hd.eraseMany quads
  case eraseMatching pattern => exact hd.eraseMatching pattern
  case eraseGraph graph => exact hd.eraseMatching _
  case freshBlank suggestion => exact hd.freshBlank suggestion
  case resetBlankCounter => exact hd.resetBlankCounter

theorem Sound.load {d : Dataset} (hd : d.Sound) (format : Format) (text : String) (base : Option String) :
    d.Evolves (d.load format text base).2 := by
  obtain ⟨e, -, h⟩ | ⟨quads, -, h⟩ := d.load_cases format text base
  · rw [h]
    exact hd.refl
  · rw [h]
    exact hd.insertMany quads

theorem Sound.loadFile {d : Dataset} (hd : d.Sound) (path : String) (text base : Option String) :
    d.Evolves (d.loadFile path text base).2 := by
  obtain ⟨e, -, h⟩ | ⟨format, document, -, -, h⟩ := d.loadFile_cases path text base
  · rw [h]
    exact hd.refl
  · rw [h]
    exact hd.load format document base

end Dataset

/-- Every call lets a sound dataset evolve. -/
theorem Call.evolves {d : Dataset} (hd : d.Sound) (c : Call) : d.Evolves (c.run d) := by
  cases c with
  | update u => exact hd.update u
  | size => exact hd.size
  | isEmpty => exact hd.size
  | extractLists options => exact hd.extractLists options
  | load format text base => exact hd.load format text base
  | loadFile path text base => exact hd.loadFile path text base
  | reason rules => exact (hd.reasonOver rules _).1
  | reasonIn rules graph => exact (hd.reasonOver rules _).1
  | reasonRdfs rules => exact (hd.reasonOver _ _).1

namespace Dataset

/-- So do any calls one after the other. -/
theorem evolves_calls {d : Dataset} (hd : d.Sound) (calls : List Call) : d.Evolves (calls.foldl Call.run d) := by
  induction calls generalizing d with
  | nil => exact hd.refl
  | cons c calls ih =>
    have hfirst := c.evolves hd
    exact hfirst.trans (ih hfirst.sound)

/-- What comes about from an empty dataset by any calls is sound. -/
theorem sound_calls (settings : Settings) (calls : List Call) : (calls.foldl Call.run { settings }).Sound :=
  (evolves_calls (.empty settings) calls).sound

theorem quads_call_insertMany {quads : List Quad} (hquads : ∀ q ∈ quads, q.IsValid) :
    ([Call.update (.insertMany quads)].foldl Call.run {}).quads = quads.toFinset :=
  quads_ofList hquads

/-- After any calls, whether they succeed or fail, the size that is remembered is the number of quads if there is any.
So the size is always this number, which is what counting and listing all quads give. -/
theorem size_calls (settings : Settings) (calls : List Call) :
    let d := calls.foldl Call.run { settings }
    (d.knownSize = none ∨ d.knownSize = some d.quadNumbers.card) ∧
      (∀ graph t, (graph, t) ∈ d.quadNumbers ↔ (d.index graph).contains t = true) ∧
      d.size.1 = d.quadNumbers.card ∧ (d.isEmpty.1 = true ↔ ∀ graph t, (d.index graph).contains t = false) ∧
      d.count {} = d.quadNumbers.card ∧ d.toList.length = d.quadNumbers.card := by
  intro d
  have hd : d.Sound := (evolves_calls (.empty settings) calls).sound
  refine ⟨?_, fun _ _ => hd.mem_quadNumbers, hd.size_eq, ?_, Sound.count_empty d, hd.length_toList⟩
  · cases hknown : d.knownSize with
    | none => exact .inl rfl
    | some n => exact .inr (congrArg some (hd.knownSize n hknown))
  · have hempty : d.isEmpty.1 = (d.size.1 == 0) := rfl
    rw [hempty, hd.size_eq, beq_iff_eq, Finset.card_eq_zero, Finset.eq_empty_iff_forall_notMem, Prod.forall]
    simp only [hd.mem_quadNumbers, Bool.not_eq_true]

/-- After any calls, with and without pruning, the subjects, predicates, objects and graphs that are enumerated are
those of the quads that a query finds, each once.  In each graph the same holds of its index, and of any index that has come
about by adding and taking out triples, pruning or not: its enumerations are the projections of its lookups. -/
theorem enumeratesPositions_calls (settings : Settings) (calls : List Call) (cs : List IndexChange) :
    let d := calls.foldl Call.run { settings }
    d.EnumeratesPositions ∧ (∀ graph, (d.index graph).EnumeratesPositions) ∧
      (runSteps IndexChange.run {} cs).2.EnumeratesPositions := by
  intro d
  have hd : d.Consistent := (sound_calls settings calls).consistent
  refine ⟨hd.enumeratesPositions, fun graph => (hd.coherent graph).enumeratesPositions, ?_⟩
  exact (GraphIndex.coherent_runSteps cs).1.enumeratesPositions

end Dataset

end RdfDataset
