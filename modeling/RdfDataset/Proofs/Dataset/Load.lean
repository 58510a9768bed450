import RdfDataset.Proofs.Dataset.BlankNode
import RdfDataset.Proofs.Dataset.Call
import RdfDataset.Proofs.Dataset.Reachable
import RdfDataset.Proofs.Document.Turtle.Stop
import RdfDataset.Proofs.Reasoning.Derived

/-!
# Loading documents

A document is loaded as a whole or not at all.

* `Format.Fails`: how a document cannot be read, wherever its first bad statement stands.  `Format.read_eq_error` shows
  that there is no other way.
* `Dataset.Gains`: a dataset has got some quads, and how many of them are new; `Dataset.AddsAtomically`: all of those that
  have been read, or none.
* `Dataset.Reachable.load_atomic`: documents and files are loaded as a whole, or the dataset stays as it is.
-/

namespace RdfDataset

/-! ### Documents that cannot be read -/

/-- There is a line that cannot be read behind some lines with statements that can. -/
def Document.LineStops (hasGraphs : Bool) (text : List Char) (before : List Quad) (e : ReadError) : Prop :=
  ∃ lines line after read, Text.splitOn isLineEnd text = lines ++ line :: after ∧
    lines.mapM (convertLine hasGraphs) = .ok read ∧ read.flatten = before ∧ convertLine hasGraphs line = .error e

theorem Document.readLines_eq_error {hasGraphs : Bool} {text : List Char} {e : ReadError} :
    readLines hasGraphs text = .error e ↔ ∃ before, LineStops hasGraphs text before e := by
  rw [readLines, map_eq_error, mapM_eq_error]
  constructor
  · rintro ⟨lines, line, after, read, heq, hread, herror⟩
    exact ⟨_, lines, line, after, read, heq, hread, rfl, herror⟩
  · rintro ⟨_, lines, line, after, read, heq, hread, -, herror⟩
    exact ⟨lines, line, after, read, heq, hread, herror⟩

namespace Format

open Document Document.Turtle

/-- There is a statement that cannot be read behind some that can. -/
def StopsBehind (format : Format) (base : Option Iri.Reference) (text : List Char) (before : List Quad)
    (e : ReadError) : Prop :=
  match format with
  | .nTriples => LineStops false text before e
  | .nQuads => LineStops true text before e
  | .turtle => DocumentStops readTurtleBlock base text before e
  | .triG => DocumentStops readTrigBlock base text before e

/-- How a document cannot be read: its base is not absolute, or one of its statements is bad, whatever statements stand
before it. -/
inductive Fails (format : Format) (text : String) (base : Option String) : ReadError → Prop
  | base {iri : String} {reason : Iri.Error} (hbase : base = some iri)
    (h : Iri.readAbsolute iri.toList = .error reason) : Fails format text base (.invalidBase reason)
  | statement {reference : Option Iri.Reference} {before : List Quad} {e : ReadError}
    (hbase : base.mapM (fun iri => Iri.readAbsolute iri.toList) = .ok reference)
    (h : format.StopsBehind reference text.toList before e) : Fails format text base e

variable {format : Format} {text : String} {base : Option String} {e : ReadError}

/-- Behind the base, a document fails as one of its statements does. -/
theorem exists_stopsBehind_iff {reference : Option Iri.Reference} :
    (match format with
      | .nTriples => readLines false text.toList
      | .nQuads => readLines true text.toList
      | .turtle => readDocument readTurtleBlock reference text.toList
      | .triG => readDocument readTrigBlock reference text.toList) = .error e ↔
      ∃ before, format.StopsBehind reference text.toList before e := by
  cases format with
  | nTriples => exact readLines_eq_error
  | nQuads => exact readLines_eq_error
  | turtle => exact readDocument_eq_error isBlockReader_readTurtleBlock
  | triG => exact readDocument_eq_error isBlockReader_readTrigBlock

/-- There is no other way in which a document cannot be read. -/
theorem read_eq_error : format.read text base = .error e ↔ format.Fails text base e := by
  rw [Format.read, bind_eq_error, readBase_eq_error]
  constructor
  · rintro (⟨iri, reason, hbase, h, rfl⟩ | ⟨reference, hbase, h⟩)
    · exact .base hbase h
    · obtain ⟨before, hstops⟩ := exists_stopsBehind_iff.1 h
      exact .statement (readBase_eq_ok.1 hbase) hstops
  · rintro (⟨hbase, h⟩ | ⟨hbase, h⟩)
    · exact .inl ⟨_, _, hbase, h, rfl⟩
    · exact .inr ⟨_, readBase_eq_ok.2 hbase, exists_stopsBehind_iff.2 ⟨_, h⟩⟩

end Format

namespace Document

/-- The quads of a file, given by its name and, if it can be read, its text. -/
def readFile (path : String) (text base : Option String) : Except ReadError (List Quad) :=
  match Format.ofPath? path, text with
  | none, _ => .error (.unknownFormat path)
  | some _, none => .error .missingFile
  | some format, some text => format.read text base

/-- How a file cannot be read. -/
inductive FileFails (path : String) (base : Option String) : Option String → ReadError → Prop
  | unknownFormat (text : Option String) (h : Format.ofPath? path = none) : FileFails path base text (.unknownFormat path)
  | missingFile {format : Format} (h : Format.ofPath? path = some format) : FileFails path base none .missingFile
  | document {format : Format} {text : String} {e : ReadError} (h : Format.ofPath? path = some format)
    (hfails : format.Fails text base e) : FileFails path base (some text) e

variable {path : String} {text base : Option String}

theorem readFile_eq_error {e : ReadError} : readFile path text base = .error e ↔ FileFails path base text e := by
  constructor
  · intro h
    unfold readFile at h
    cases hformat : Format.ofPath? path with
    | none =>
      rw [hformat] at h
      obtain rfl := Except.error.inj h
      exact .unknownFormat text hformat
    | some format =>
      rw [hformat] at h
      cases text with
      | none =>
        obtain rfl := Except.error.inj h
        exact .missingFile hformat
      | some text => exact .document hformat (Format.read_eq_error.1 h)
  · rintro (⟨_, hformat⟩ | hformat | ⟨hformat, hfails⟩)
    · simp [readFile, hformat]
    · simp [readFile, hformat]
    · simp [readFile, hformat, Format.read_eq_error, hfails]

theorem isValid_of_readFile {quads : List Quad} (h : readFile path text base = .ok quads) :
    ∀ q ∈ quads, q.IsValid := by
  unfold readFile at h
  split at h
  · cases h
  · cases h
  · exact Format.isValid_of_read h

end Document

namespace Dataset

section

variable [Arrangement]

/-! ### Documents that are loaded -/

/-- A file that cannot be read changes nothing; otherwise all its quads are added. -/
theorem loadFile_cases_readFile (d : Dataset) (path : String) (text base : Option String) :
    (∃ e, Document.readFile path text base = .error e ∧ d.loadFile path text base = (.error e, d)) ∨
      ∃ quads, Document.readFile path text base = .ok quads ∧
        d.loadFile path text base = (.ok (d.insertMany quads).1, (d.insertMany quads).2) := by
  unfold loadFile Document.readFile
  cases Format.ofPath? path with
  | none => exact .inl ⟨_, rfl, rfl⟩
  | some format =>
    cases text with
    | none => exact .inl ⟨_, rfl, rfl⟩
    | some text => exact d.load_cases format text base

/-- A dataset has got some quads, of which some are new. -/
structure Gains (d : Dataset) (added : List Quad) (count : Nat) (d' : Dataset) : Prop where
  reachable : d'.Reachable
  quads : d'.quads = d.quads ∪ added.toFinset
  new : count = (added.toFinset \ d.quads).card
  grows : d'.quads.card = d.quads.card + count
  size : d'.size.1 = d.size.1 + count

/-- A call that adds what has been read either fails and leaves the dataset as it was, with the same quads, terms, size
and counter of blank nodes, or adds all of it. -/
inductive AddsAtomically (d : Dataset) (read : Except ReadError (List Quad)) (result : Except ReadError Nat × Dataset) :
    Prop
  | failed {e : ReadError} (hread : read = .error e) (hresult : result.1 = .error e) (hstays : result.2 = d)
  | loaded {quads : List Quad} {count : Nat} (hread : read = .ok quads) (hresult : result.1 = .ok count)
    (h : d.Gains quads count result.2)

/-- It fails exactly when nothing could be read. -/
theorem AddsAtomically.eq_error_iff {d : Dataset} {read : Except ReadError (List Quad)}
    {result : Except ReadError Nat × Dataset} (h : d.AddsAtomically read result) {e : ReadError} :
    result.1 = .error e ↔ read = .error e := by
  cases h with
  | failed hread hresult => rw [hread, hresult, Except.error.injEq, Except.error.injEq]
  | loaded hread hresult => simp [hread, hresult]

namespace Reachable

variable {d : Dataset} (hd : d.Reachable)
include hd

theorem gains {quads : List Quad} (hquads : ∀ q ∈ quads, q.IsValid) :
    d.Gains quads (d.insertMany quads).1 (d.insertMany quads).2 := by
  have hd' : (d.insertMany quads).2.Reachable := hd.step (.update d (u := .insertMany quads) hquads)
  obtain ⟨-, -, hunion, hnew⟩ := hd.valid.insertMany hquads
  have hgrows : (d.insertMany quads).2.quads.card = d.quads.card + (d.insertMany quads).1 := by
    rw [hunion, hnew, ← Finset.union_sdiff_self_eq_union, Finset.card_union_of_disjoint Finset.disjoint_sdiff]
  refine ⟨hd', hunion, hnew, hgrows, ?_⟩
  rw [hd'.sound.size_eq, ← hd'.sound.card_quads, hgrows, hd.sound.card_quads, hd.sound.size_eq]

/-- A call that adds all that is read, or nothing, is atomic if only valid quads are read. -/
theorem addsAtomically {read : Except ReadError (List Quad)} {result : Except ReadError Nat × Dataset}
    (hcases : (∃ e, read = .error e ∧ result = (.error e, d)) ∨
      ∃ quads, read = .ok quads ∧ result = (.ok (d.insertMany quads).1, (d.insertMany quads).2))
    (hvalid : ∀ quads, read = .ok quads → ∀ q ∈ quads, q.IsValid) : d.AddsAtomically read result := by
  obtain ⟨e, hread, rfl⟩ | ⟨quads, hread, rfl⟩ := hcases
  · exact .failed hread rfl rfl
  · exact .loaded hread rfl (hd.gains (hvalid quads hread))

/-- Loading is atomic: a document that cannot be read, because its base is not absolute or because of a bad statement
behind any good ones, changes nothing, and of any other document all quads are added and the new ones counted.  The
same holds of files. -/
theorem load_atomic :
    (∀ format text base,
      d.AddsAtomically (format.read text base) (d.load format text base) ∧
        ∀ e, (d.load format text base).1 = .error e ↔ format.Fails text base e) ∧
      ∀ path text base,
        d.AddsAtomically (Document.readFile path text base) (d.loadFile path text base) ∧
          ∀ e, (d.loadFile path text base).1 = .error e ↔ Document.FileFails path base text e := by
  refine ⟨fun format text base => ?_, fun path text base => ?_⟩
  · have hadds := hd.addsAtomically (d.load_cases format text base) fun quads => Format.isValid_of_read
    refine ⟨hadds, fun e => ?_⟩
    rw [hadds.eq_error_iff, Format.read_eq_error]
  · have hadds := hd.addsAtomically (d.loadFile_cases_readFile path text base) fun quads => Document.isValid_of_readFile
    refine ⟨hadds, fun e => ?_⟩
    rw [hadds.eq_error_iff, Document.readFile_eq_error]

end Reachable

end

/-- A document whose second statement is bad changes nothing; of a document with three statements one is new. -/
theorem Reachable.load_atomic_one_new :
    let q : Quad := ⟨.iri "a:s", .iri "a:p", .iri "a:o", .defaultGraph⟩
    let r : Quad := ⟨.iri "a:s", .iri "a:p", .iri "a:n", .defaultGraph⟩
    let d := Dataset.ofList [q]
    let bad := "<a:s> <a:p> <a:n> . <a:s> ."
    let good := "<a:s> <a:p> <a:o>, <a:n>, <a:n> ."
    d.load .turtle bad none = (.error .malformed, d) ∧
      ∃ d', d.load .turtle good none = (.ok 1, d') ∧ d'.quads = {q, r} := by
  intro q r d bad good
  have hbad : Format.turtle.read bad none = .error .malformed := by decide +kernel
  have hgood : Format.turtle.read good none = .ok [q, r, r] := by decide +kernel
  have hvalid : ∀ q' ∈ [q], q'.IsValid := by simpa using Format.isValid_of_read hgood q List.mem_cons_self
  have hd : d.Reachable := ofList hvalid
  obtain ⟨hload, -⟩ := hd.load_atomic
  constructor
  · have hadds := (hload .turtle bad none).1
    rw [hbad] at hadds
    generalize d.load .turtle bad none = result at hadds ⊢
    cases hadds with
    | failed hread hresult hstays =>
      obtain rfl := Except.error.inj hread
      rw [← hresult, ← hstays]
    | loaded hread => cases hread
  · have hadds := (hload .turtle good none).1
    rw [hgood] at hadds
    generalize d.load .turtle good none = result at hadds ⊢
    cases hadds with
    | failed hread => cases hread
    | @loaded _ count hread hresult h =>
      obtain rfl := Except.ok.inj hread
      have hquads : d.quads = {q} := quads_ofList hvalid
      have hcount : count = 1 := by
        rw [h.new, hquads]
        decide
      refine ⟨result.2, by rw [← hcount, ← hresult], ?_⟩
      rw [h.quads, hquads]
      decide

end Dataset

end RdfDataset
