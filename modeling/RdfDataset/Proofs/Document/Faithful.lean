import RdfDataset.Proofs.Document.RoundTrip

/-!
# Texts that tell terms apart

The text of a valid term tells the term, and where the text ends.

* `Term.display_append_inj`: by induction on the term, since the first characters of a text tell what kind of term it is.
* `Quad.display_inj`: different valid quads are shown differently.
* `Format.display_faithful`: so they are, on one line each, and lines of such texts are what the formats of lines write.
-/

namespace RdfDataset

/-- A text ends at the first mark, if the mark is not in it. -/
theorem append_mark_inj {mark : Char} {cs ds rest rest' : List Char} (hcs : mark ∉ cs) (hds : mark ∉ ds)
    (h : cs ++ mark :: rest = ds ++ mark :: rest') : cs = ds ∧ rest = rest' := by
  induction cs generalizing ds with
  | nil =>
    cases ds with
    | nil => exact ⟨rfl, (List.cons.inj h).2⟩
    | cons d ds => exact absurd (List.cons.inj h).1 (List.ne_of_not_mem_cons hds)
  | cons c cs ih =>
    cases ds with
    | nil => exact absurd (List.cons.inj h).1.symm (List.ne_of_not_mem_cons hcs)
    | cons d ds =>
      obtain ⟨hc, h⟩ := List.cons.inj h
      obtain ⟨htail, hrest⟩ := ih (List.not_mem_of_not_mem_cons hcs) (List.not_mem_of_not_mem_cons hds) h
      exact ⟨by rw [hc, htail], hrest⟩

theorem NoDelimiter.notMem {cs : List Char} (h : NoDelimiter cs) {c : Char} (hc : c ∈ delimiters) : c ∉ cs :=
  fun hmem => h c hmem hc

/-- A name without delimiters ends in front of a space. -/
theorem name_append_inj {name name' : String} (h : NoDelimiter name.toList) (h' : NoDelimiter name'.toList)
    {rest rest' : List Char} (heq : name.toList ++ ' ' :: rest = name'.toList ++ ' ' :: rest') :
    name = name' ∧ rest = rest' := by
  obtain ⟨hname, hrest⟩ := append_mark_inj (h.notMem (by decide)) (h'.notMem (by decide)) heq
  exact ⟨String.toList_injective hname, hrest⟩

/-- An IRI ends with its bracket. -/
theorem displayIri_append_inj {text text' : String} (h : checkIri text = .ok ()) (h' : checkIri text' = .ok ())
    {rest rest' : List Char} (heq : displayIri text ++ rest = displayIri text' ++ rest') :
    text = text' ∧ rest = rest' := by
  simp only [displayIri, List.cons_append, List.append_assoc, List.nil_append] at heq
  obtain ⟨htext, hrest⟩ := append_mark_inj ((noDelimiter_of_checkIri h).notMem (by decide))
    ((noDelimiter_of_checkIri h').notMem (by decide)) (List.cons.inj heq).2
  exact ⟨String.toList_injective htext, hrest⟩

/-- A literal is told by its value, and by the tag or datatype in front of the next space. -/
theorem Literal.display_append_inj {l l' : Literal} (h : (Term.literal l).IsValid) (h' : (Term.literal l').IsValid)
    {rest rest' : List Char} (heq : l.display ++ ' ' :: rest = l'.display ++ ' ' :: rest') : l = l' ∧ rest = rest' := by
  rw [Term.isValid_literal] at h h'
  simp only [Literal.display, List.cons_append, List.append_assoc] at heq
  -- the value is read back from its text
  have hread := congrArg (Document.readString '"') (List.cons.inj heq).2
  rw [Document.readString_escapeLiteral, Document.readString_escapeLiteral, Option.some.injEq, Prod.mk.injEq] at hread
  obtain ⟨hvalue, hend⟩ := hread
  cases l with
  | plain value =>
    cases l' with
    | plain value' => exact ⟨by rw [show value = value' from hvalue], by simpa using hend⟩
    | tagged value' tag => simp at hend
    | typed value' datatype hne => simp at hend
  | tagged value tag =>
    cases l' with
    | plain value' => simp at hend
    | tagged value' tag' =>
      obtain ⟨rfl, hrest⟩ := name_append_inj (noDelimiter_of_readTag h) (noDelimiter_of_readTag h') (List.cons.inj hend).2
      exact ⟨by rw [show value = value' from hvalue], hrest⟩
    | typed value' datatype hne => simp at hend
  | typed value datatype hne =>
    cases l' with
    | plain value' => simp at hend
    | tagged value' tag => simp at hend
    | typed value' datatype' hne' =>
      obtain ⟨rfl, hrest⟩ := displayIri_append_inj h h' (List.cons.inj (List.cons.inj hend).2).2
      exact ⟨by simp [show value = value' from hvalue], by simpa using hrest⟩

namespace Term

/-- The text of an IRI goes on with a letter, that of a quoted quad does not. -/
theorem display_iri_ne_quoted {text : String} (h : checkIri text = .ok ()) (s p o g : Term) (rest rest' : List Char) :
    (iri text).display ++ rest ≠ (quoted s p o g).display ++ rest' := by
  intro heq
  obtain ⟨c, hc, halpha⟩ := head_isAlpha_of_checkIri h
  obtain ⟨cs, hcs⟩ := List.head?_eq_some_iff.1 hc
  rw [display_iri, displayIri, hcs, display_quoted] at heq
  obtain rfl := (List.cons.inj (List.cons.inj heq).2).1
  cases halpha

/-- The text of a term begins as only texts of terms of its kind do. -/
theorem ctorIdx_eq_of_display {t u : Term} (ht : t.IsValid) (hu : u.IsValid) {rest rest' : List Char}
    (h : t.display ++ rest = u.display ++ rest') : t.ctorIdx = u.ctorIdx := by
  cases t <;> cases u
  all_goals first
    | rfl
    | exact absurd h (display_iri_ne_quoted (isValid_iri.1 ht) _ _ _ _ _ _)
    | exact absurd h.symm (display_iri_ne_quoted (isValid_iri.1 hu) _ _ _ _ _ _)
    | exact absurd (List.cons.inj h).1 (by decide)

/-- In front of a space the texts of two terms differ, or the terms are the same. -/
def Separated (t u : Term) : Prop :=
  ∀ {rest rest' : List Char}, t.display ++ ' ' :: rest = u.display ++ ' ' :: rest' → t = u ∧ rest = rest'

/-- The text of a graph behind the other terms of a quad. -/
def displayGraph (g : Term) : List Char :=
  if g.isDefaultGraph then [] else ' ' :: g.display

/-- Behind the other terms of a quad the graph is told from a full stop or a closing bracket. -/
theorem displayGraph_append_inj {g g' : Term} (hinj : Separated g g') {c : Char} (hc : c ∈ ['.', '>'])
    {rest rest' : List Char} (h : g.displayGraph ++ ' ' :: c :: rest = g'.displayGraph ++ ' ' :: c :: rest') :
    g = g' ∧ rest = rest' := by
  unfold displayGraph at h
  have hne : ∀ (t : Term) {cs ds : List Char}, c :: cs ≠ t.display ++ ds := by
    intro t cs ds heq
    obtain ⟨d, hd, tail, htail⟩ := Document.exists_display_eq_cons t
    rw [htail] at heq
    obtain rfl := (List.cons.inj heq).1
    simp_all
  by_cases hg : g.isDefaultGraph
  · by_cases hg' : g'.isDefaultGraph
    · rw [if_pos hg, if_pos hg'] at h
      exact ⟨by rw [isDefaultGraph_iff.1 hg, isDefaultGraph_iff.1 hg'], by simpa using h⟩
    · rw [if_pos hg, if_neg hg'] at h
      exact absurd (List.cons.inj h).2 (hne g')
  · by_cases hg' : g'.isDefaultGraph
    · rw [if_neg hg, if_pos hg'] at h
      exact absurd (List.cons.inj h).2.symm (hne g)
    · rw [if_neg hg, if_neg hg'] at h
      obtain ⟨heq, hrest⟩ := hinj (List.cons.inj h).2
      exact ⟨heq, (List.cons.inj hrest).2⟩

theorem exists_displayGraph_append (g : Term) (rest : List Char) :
    ∃ tail, g.displayGraph ++ ' ' :: rest = ' ' :: tail := by
  unfold displayGraph
  split
  · exact ⟨rest, rfl⟩
  · exact ⟨g.display ++ ' ' :: rest, rfl⟩

/-- Four terms are told by their texts one after the other. -/
theorem displays_append_inj {s p o g s' p' o' g' : Term} (hs : Separated s s') (hp : Separated p p')
    (ho : Separated o o') (hg : Separated g g') {c : Char} (hc : c ∈ ['.', '>']) {rest rest' : List Char}
    (h : s.display ++ ' ' :: (p.display ++ ' ' :: (o.display ++ (g.displayGraph ++ ' ' :: c :: rest))) =
      s'.display ++ ' ' :: (p'.display ++ ' ' :: (o'.display ++ (g'.displayGraph ++ ' ' :: c :: rest')))) :
    (s = s' ∧ p = p' ∧ o = o' ∧ g = g') ∧ rest = rest' := by
  obtain ⟨hsubject, h⟩ := hs h
  obtain ⟨hpredicate, h⟩ := hp h
  -- whatever the graph is, a space follows the object
  obtain ⟨tail, htail⟩ := exists_displayGraph_append g (c :: rest)
  obtain ⟨tail', htail'⟩ := exists_displayGraph_append g' (c :: rest')
  rw [htail, htail'] at h
  obtain ⟨hobject, h⟩ := ho h
  rw [h, ← htail'] at htail
  obtain ⟨hgraph, hrest⟩ := displayGraph_append_inj hg hc htail
  exact ⟨⟨hsubject, hpredicate, hobject, hgraph⟩, hrest⟩

theorem display_quoted_append (s p o g : Term) (rest : List Char) :
    (quoted s p o g).display ++ rest = '<' :: '<' :: ' ' :: (s.display ++ ' ' :: (p.display ++ ' ' :: (o.display ++
      (g.displayGraph ++ ' ' :: '>' :: '>' :: rest)))) := by
  simp [display_quoted, displayGraph]

/-- The text of a valid term in front of a space tells the term and where its text ends. -/
theorem separated {t : Term} (ht : t.IsValid) {u : Term} (hu : u.IsValid) : Separated t u := by
  induction t generalizing u with
  | iri text =>
    intro rest rest' h
    have hkind := ctorIdx_eq_of_display ht hu h
    cases u with
    | iri text' =>
      obtain ⟨htext, hrest⟩ := displayIri_append_inj (isValid_iri.1 ht) (isValid_iri.1 hu) h
      exact ⟨congrArg iri htext, (List.cons.inj hrest).2⟩
    | _ => cases hkind
  | blank label =>
    intro rest rest' h
    have hkind := ctorIdx_eq_of_display ht hu h
    cases u with
    | blank label' =>
      obtain ⟨hlabel, hrest⟩ := name_append_inj (noDelimiter_of_checkBlank (isValid_blank.1 ht))
        (noDelimiter_of_checkBlank (isValid_blank.1 hu)) (List.cons.inj (List.cons.inj h).2).2
      exact ⟨congrArg blank hlabel, hrest⟩
    | _ => cases hkind
  | literal l =>
    intro rest rest' h
    have hkind := ctorIdx_eq_of_display ht hu h
    cases u with
    | literal l' =>
      obtain ⟨hliteral, hrest⟩ := Literal.display_append_inj ht hu h
      exact ⟨congrArg literal hliteral, hrest⟩
    | _ => cases hkind
  | var name =>
    intro rest rest' h
    have hkind := ctorIdx_eq_of_display ht hu h
    cases u with
    | var name' =>
      obtain ⟨hname, hrest⟩ := name_append_inj (noDelimiter_of_checkVariable (isValid_var.1 ht))
        (noDelimiter_of_checkVariable (isValid_var.1 hu)) (List.cons.inj h).2
      exact ⟨congrArg var hname, hrest⟩
    | _ => cases hkind
  | defaultGraph =>
    intro rest rest' h
    have hkind := ctorIdx_eq_of_display ht hu h
    cases u with
    | defaultGraph => exact ⟨rfl, by simpa [display_defaultGraph] using h⟩
    | _ => cases hkind
  | quoted s p o g ihs ihp iho ihg =>
    intro rest rest' h
    have hkind := ctorIdx_eq_of_display ht hu h
    cases u with
    | quoted s' p' o' g' =>
      obtain ⟨hs, hp, ho, hg⟩ := isValid_quoted.1 ht
      obtain ⟨hs', hp', ho', hg'⟩ := isValid_quoted.1 hu
      simp only [display_quoted_append, List.cons.injEq, true_and] at h
      obtain ⟨⟨rfl, rfl, rfl, rfl⟩, hrest⟩ :=
        displays_append_inj (ihs hs hs') (ihp hp hp') (iho ho ho') (ihg hg hg') (by decide) h
      exact ⟨rfl, (List.cons.inj (List.cons.inj hrest).2).2⟩
    | _ => cases hkind

end Term

theorem Quad.display_eq (q : Quad) :
    q.display = q.subject.display ++ ' ' :: (q.predicate.display ++ ' ' :: (q.object.display ++
      (q.graph.displayGraph ++ ' ' :: '.' :: []))) := by
  simp [Quad.display, Term.displayGraph]

/-- Different valid quads are shown differently. -/
theorem Quad.display_inj {q q' : Quad} (hq : q.IsValid) (hq' : q'.IsValid) (h : q.display = q'.display) : q = q' := by
  obtain ⟨hs, hp, ho, hg⟩ := Quad.isValid_iff.1 hq
  obtain ⟨hs', hp', ho', hg'⟩ := Quad.isValid_iff.1 hq'
  rw [display_eq, display_eq] at h
  obtain ⟨⟨hsubject, hpredicate, hobject, hgraph⟩, -⟩ :=
    Term.displays_append_inj (Term.separated hs hs') (Term.separated hp hp') (Term.separated ho ho')
      (Term.separated hg hg') (by decide) h
  cases q
  cases q'
  simp_all

namespace Format

/-- Valid quads have the same text exactly if they are the same, and no line ends in it.  Quads are written in a format
of lines exactly if it can express each of them, and what is written is their texts, each with a line feed behind it. -/
theorem display_faithful :
    (∀ a b : Quad, a.IsValid → b.IsValid → (a.display = b.display ↔ a = b)) ∧
      (∀ q : Quad, q.IsValid → '\n' ∉ q.display ∧ '\r' ∉ q.display) ∧
      ∀ format : Format, format = .nTriples ∨ format = .nQuads → ∀ (quads : List Quad) (text : String),
        format.write quads = .ok text ↔ (∀ q ∈ quads, q.IsWritable format) ∧
          text = String.ofList (quads.flatMap fun q => q.display ++ ['\n']) := by
  refine ⟨?_, ?_, ?_⟩
  · intro a b ha hb
    exact ⟨Quad.display_inj ha hb, congrArg Quad.display⟩
  · intro q hq
    have hline := Document.isOneLine_display_quad hq
    exact ⟨fun h => Bool.noConfusion (hline _ h), fun h => Bool.noConfusion (hline _ h)⟩
  · intro format hformat quads text
    rw [write_eq_ok]
    rcases hformat with rfl | rfl
    · rfl
    · rfl

/-- A quoted quad in a graph is not taken for the quad around it, and is not written.  Its literal stands on one line. -/
theorem display_faithful_quoted :
    let quoted : Term :=
      .quoted (.var "x") .defaultGraph (.literal (.tagged "a \" b\r\n" "en")) (.blank "g")
    let q : Quad := ⟨quoted, .iri "a:p", .literal (.plain ">> ."), .defaultGraph⟩
    let q' : Quad := ⟨quoted, .iri "a:p", .literal (.plain ">> ."), quoted⟩
    q.display ≠ q'.display ∧ '\n' ∉ q'.display ∧ (∀ text, Format.nQuads.write [q] ≠ .ok text) ∧
      String.ofList q.display = "<< ?x DEFAULT \"a \\\" b\\r\\n\"@en _:g >> <a:p> \">> .\" ." := by
  intro quoted q q'
  have hblank : (Term.blank "g").IsValid := Term.isValid_blank.2 (by decide)
  have hvar : (Term.var "x").IsValid := Term.isValid_var.2 (by decide)
  have hiri : (Term.iri "a:p").IsValid := Term.isValid_iri.2 (by decide)
  have htagged : (Term.literal (.tagged "a \" b\r\n" "en")).IsValid :=
    Term.isValid_literal.2 (show LanguageTag.read "en" = .ok "en" by decide)
  have hquoted : quoted.IsValid := Term.isValid_quoted.2 ⟨hvar, .defaultGraph, htagged, hblank⟩
  have hq : q.IsValid := Quad.isValid_iff.2 ⟨hquoted, hiri, .plain _, .defaultGraph⟩
  have hq' : q'.IsValid := Quad.isValid_iff.2 ⟨hquoted, hiri, .plain _, hquoted⟩
  obtain ⟨hinj, hline, hwrite⟩ := display_faithful
  refine ⟨?_, (hline q' hq').1, ?_, by decide⟩
  · rw [Ne, hinj q q' hq hq']
    simp [q, q', quoted]
  · intro text htext
    have hwritable := ((hwrite .nQuads (.inr rfl) [q] text).1 htext).1 q (List.mem_singleton_self q)
    exact hwritable.subject.1.elim

end Format

end RdfDataset
