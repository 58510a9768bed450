import RdfDataset.Proofs.Term.Slice

/-!
# Reading ids back

The id of a valid term is read back as this term, so that valid terms with the same id are the same.

* `Term.IsValid`: the terms that the validating functions build.
* `splitComponents_join`: cutting the ids of some terms with spaces between them gives these ids.
* `Term.ofIdChars?_idChars`: an id is read back, standing alone or inside a quoted quad.
* `Term.IsValid.id_inj` and `Term.id_faithful`: valid terms with the same id are the same.
-/

namespace RdfDataset

/-- The terms that the validating functions build. -/
inductive Term.IsValid : Term → Prop
  | iri {text : String} {t : Term} (h : Term.iri? text = .ok t) : IsValid t
  | blank {label : String} {t : Term} (h : Term.blank? label = .ok t) : IsValid t
  | var {name : String} {t : Term} (h : Term.var? name = .ok t) : IsValid t
  | plain (value : String) : IsValid (.literal (.plain value))
  | tagged {value tag : String} {l : Literal} (h : Literal.tagged? value tag = .ok l) : IsValid (.literal l)
  | typed {value datatype : String} {l : Literal} (h : Literal.typed? value datatype = .ok l) : IsValid (.literal l)
  | defaultGraph : IsValid .defaultGraph
  | quoted {s p o g : Term} (hs : IsValid s) (hp : IsValid p) (ho : IsValid o) (hg : IsValid g) :
    IsValid (.quoted s p o g)

/-- The quads of valid terms. -/
def Quad.IsValid (q : Quad) : Prop :=
  q.quote.IsValid

theorem Literal.tagged?_eq_ok {value tag : String} {l : Literal} :
    Literal.tagged? value tag = .ok l ↔ ∃ lower, LanguageTag.read tag = .ok lower ∧ .tagged value lower = l := by
  unfold Literal.tagged?
  split
  · rename_i lower h
    simp [h]
  · rename_i h
    simp [h]

theorem Literal.typed?_eq_ok {value datatype : String} {l : Literal} :
    Literal.typed? value datatype = .ok l ↔ checkIri datatype = .ok () ∧ .ofDatatype value datatype = l := by
  simp [Literal.typed?, Unique.exists_iff]

namespace Term

theorem iri?_eq_ok {text : String} {t : Term} :
    Term.iri? text = .ok t ↔ checkIri text = .ok () ∧ .iri text = t := by
  simp [Term.iri?, Unique.exists_iff]

theorem blank?_eq_ok {label : String} {t : Term} :
    Term.blank? label = .ok t ↔ checkBlank label = .ok () ∧ .blank label = t := by
  simp [Term.blank?, Unique.exists_iff]

theorem var?_eq_ok {name : String} {t : Term} :
    Term.var? name = .ok t ↔ checkVariable name = .ok () ∧ .var name = t := by
  simp [Term.var?, Unique.exists_iff]

@[simp]
theorem isValid_iri {text : String} : (Term.iri text).IsValid ↔ checkIri text = .ok () := by
  constructor
  · intro h
    cases h with
    | iri h =>
      obtain ⟨hcheck, heq⟩ := iri?_eq_ok.1 h
      simpa [← Term.iri.inj heq] using hcheck
    | blank h => simp [blank?_eq_ok] at h
    | var h => simp [var?_eq_ok] at h
  · exact fun h => .iri (iri?_eq_ok.2 ⟨h, rfl⟩)

@[simp]
theorem isValid_blank {label : String} : (Term.blank label).IsValid ↔ checkBlank label = .ok () := by
  constructor
  · intro h
    cases h with
    | iri h => simp [iri?_eq_ok] at h
    | blank h =>
      obtain ⟨hcheck, heq⟩ := blank?_eq_ok.1 h
      simpa [← Term.blank.inj heq] using hcheck
    | var h => simp [var?_eq_ok] at h
  · exact fun h => .blank (blank?_eq_ok.2 ⟨h, rfl⟩)

@[simp]
theorem isValid_var {name : String} : (Term.var name).IsValid ↔ checkVariable name = .ok () := by
  constructor
  · intro h
    cases h with
    | iri h => simp [iri?_eq_ok] at h
    | blank h => simp [blank?_eq_ok] at h
    | var h =>
      obtain ⟨hcheck, heq⟩ := var?_eq_ok.1 h
      simpa [← Term.var.inj heq] using hcheck
  · exact fun h => .var (var?_eq_ok.2 ⟨h, rfl⟩)

@[simp]
theorem isValid_quoted {s p o g : Term} :
    (Term.quoted s p o g).IsValid ↔ s.IsValid ∧ p.IsValid ∧ o.IsValid ∧ g.IsValid := by
  constructor
  · intro h
    cases h with
    | iri h => simp [iri?_eq_ok] at h
    | blank h => simp [blank?_eq_ok] at h
    | var h => simp [var?_eq_ok] at h
    | quoted hs hp ho hg => exact ⟨hs, hp, ho, hg⟩
  · rintro ⟨hs, hp, ho, hg⟩
    exact .quoted hs hp ho hg

/-- The tag of a valid literal is in lower case, and its datatype is an IRI. -/
theorem isValid_literal {l : Literal} : (Term.literal l).IsValid ↔
    match l with
    | .plain _ => True
    | .tagged _ tag => LanguageTag.read tag = .ok tag
    | .typed _ datatype _ => checkIri datatype = .ok () := by
  constructor
  · intro h
    cases h with
    | iri h => simp [iri?_eq_ok] at h
    | blank h => simp [blank?_eq_ok] at h
    | var h => simp [var?_eq_ok] at h
    | plain value => trivial
    | tagged h =>
      obtain ⟨lower, hread, rfl⟩ := Literal.tagged?_eq_ok.1 h
      exact LanguageTag.read_read hread
    | @typed value datatype _ h =>
      obtain ⟨hcheck, rfl⟩ := Literal.typed?_eq_ok.1 h
      by_cases hd : datatype = Vocabulary.Xsd.string
      · simp [Literal.ofDatatype, hd]
      · simpa [Literal.ofDatatype, hd] using hcheck
  · intro h
    cases l with
    | plain value => exact .plain value
    | tagged value tag => exact .tagged (Literal.tagged?_eq_ok.2 ⟨tag, h, rfl⟩)
    | typed value datatype hne =>
      have hl : Literal.ofDatatype value datatype = .typed value datatype hne := by simp [Literal.ofDatatype, hne]
      exact .typed (Literal.typed?_eq_ok.2 ⟨h, hl⟩)

end Term

theorem Quad.isValid_iff {q : Quad} :
    q.IsValid ↔ q.subject.IsValid ∧ q.predicate.IsValid ∧ q.object.IsValid ∧ q.graph.IsValid :=
  Term.isValid_quoted

/-! ### Cutting ids -/

/-- Puts a text before the first of some pieces. -/
def prependFirst (cs : List Char) (pieces : List (List Char)) : List (List Char) :=
  cs.foldr consFirst pieces

theorem prependFirst_append (a b : List Char) : prependFirst (a ++ b) = prependFirst a ∘ prependFirst b := by
  funext pieces
  exact List.foldr_append

@[simp]
theorem prependFirst_cons_eq (cs piece : List Char) (pieces : List (List Char)) :
    prependFirst cs (piece :: pieces) = (cs ++ piece) :: pieces := by
  induction cs with
  | nil => rfl
  | cons c cs ih =>
    show consFirst c (prependFirst cs (piece :: pieces)) = _
    rw [ih]
    rfl

/-- What can follow a component: nothing, a space or the brackets that close the quad. -/
def EndsComponent : List Char → Prop
  | [] => True
  | ' ' :: _ => True
  | '>' :: '>' :: _ => True
  | _ => False

private theorem endsComponent_nil : EndsComponent [] :=
  trivial

private theorem endsComponent_space (cs : List Char) : EndsComponent (' ' :: cs) :=
  trivial

private theorem endsComponent_close (cs : List Char) : EndsComponent ('>' :: '>' :: cs) :=
  trivial

private theorem splitAtSpaces_plain {c : Char} (hc : IsPlain c) (depth : Nat) (start : Bool) (cs : List Char) :
    splitAtSpaces (.outside depth start) (c :: cs) =
      (splitAtSpaces (.outside depth false) cs).map (consFirst c) := by
  obtain ⟨hspace, hquote, hopen, hclose⟩ := hc
  rw [splitAtSpaces.eq_def]
  split <;> simp_all

private theorem splitAtSpaces_space (depth : Nat) (start : Bool) (cs : List Char) :
    splitAtSpaces (.outside depth start) (' ' :: cs) =
      (splitAtSpaces (.outside depth true) cs).map (if depth = 0 then ([] :: ·) else consFirst ' ') := by
  cases depth with
  | zero => rw [splitAtSpaces.eq_def]; simp
  | succ depth => rw [splitAtSpaces.eq_def]; simp

private theorem splitAtSpaces_open (depth : Nat) (start : Bool) (cs : List Char) :
    splitAtSpaces (.outside depth start) ('<' :: '<' :: cs) =
      (splitAtSpaces (.outside (depth + 1) true) cs).map (prependFirst ['<', '<']) := by
  rw [splitAtSpaces.eq_def]
  cases depth <;> cases start <;> rfl

private theorem splitAtSpaces_close (depth : Nat) (start : Bool) (cs : List Char) :
    splitAtSpaces (.outside (depth + 1) start) ('>' :: '>' :: cs) =
      (splitAtSpaces (.outside depth false) cs).map (prependFirst ['>', '>']) := by
  rw [splitAtSpaces.eq_def]
  cases start <;> rfl

/-- Where a component ends it does not matter whether another could begin. -/
private theorem splitAtSpaces_start {rest : List Char} (h : EndsComponent rest) (depth : Nat) (start start' : Bool) :
    splitAtSpaces (.outside depth start) rest = splitAtSpaces (.outside depth start') rest := by
  unfold EndsComponent at h
  split at h
  · rw [splitAtSpaces.eq_def, splitAtSpaces.eq_def]
    cases depth <;> rfl
  · rw [splitAtSpaces_space, splitAtSpaces_space]
  · cases depth with
    | zero =>
      rw [splitAtSpaces.eq_def, splitAtSpaces.eq_def]
      cases start <;> cases start' <;> rfl
    | succ depth => rw [splitAtSpaces_close, splitAtSpaces_close]
  · exact h.elim

private theorem splitAtSpaces_plain_append {cs rest : List Char} (hcs : ∀ c ∈ cs, IsPlain c)
    (hrest : EndsComponent rest) (depth : Nat) (start : Bool) :
    splitAtSpaces (.outside depth start) (cs ++ rest) =
      (splitAtSpaces (.outside depth true) rest).map (prependFirst cs) := by
  induction cs generalizing start with
  | nil =>
    rw [List.nil_append, splitAtSpaces_start hrest depth start true]
    exact Option.map_id'.symm
  | cons c cs ih =>
    rw [List.forall_mem_cons] at hcs
    rw [List.cons_append, splitAtSpaces_plain hcs.1, ih hcs.2 false, Option.map_map]
    rfl

private theorem splitAtSpaces_quote {rest : List Char} (hrest : rest.head? ≠ some '"') (depth : Nat) :
    splitAtSpaces (.inLiteral depth) ('"' :: rest) =
      (splitAtSpaces (.outside depth false) rest).map (prependFirst ['"']) := by
  rw [splitAtSpaces]
  · rfl
  · rintro cs - rfl
    exact hrest rfl

/-- The value of a literal inside a quoted quad, up to the quotation mark that closes it. -/
private theorem splitAtSpaces_doubleQuotes {rest : List Char} (hrest : rest.head? ≠ some '"') (depth : Nat)
    (value : List Char) :
    splitAtSpaces (.inLiteral depth) (doubleQuotes value ++ '"' :: rest) =
      (splitAtSpaces (.outside depth false) rest).map (prependFirst (doubleQuotes value ++ ['"'])) := by
  fun_induction doubleQuotes value with
  | case1 => exact splitAtSpaces_quote hrest depth
  | case2 cs ih =>
    rw [List.cons_append, List.cons_append, splitAtSpaces, ih, Option.map_map]
    rfl
  | case3 c cs hc ih =>
    rw [List.cons_append, splitAtSpaces, if_neg hc, ih, Option.map_map]
    · rfl
    · exact fun _ h _ => hc h

/-- What stands behind the closing quotation mark of a literal. -/
def Literal.suffixChars : Literal → List Char
  | .plain _ => []
  | .tagged _ tag => '@' :: tag.toList
  | .typed _ datatype _ => '^' :: '^' :: datatype.toList

theorem Literal.idChars_eq (nested : Bool) (l : Literal) :
    l.idChars nested =
      '"' :: ((if nested then doubleQuotes l.value.toList else l.value.toList) ++ '"' :: l.suffixChars) := by
  cases l <;> rfl

/-- A tag or a datatype holds no structuring characters. -/
theorem Literal.isPlain_suffixChars {l : Literal} (h : (Term.literal l).IsValid) :
    ∀ c ∈ l.suffixChars, IsPlain c := by
  rw [Term.isValid_literal] at h
  cases l with
  | plain value => simp [suffixChars]
  | tagged value tag =>
    simp only [suffixChars, List.forall_mem_cons]
    exact ⟨by decide, isPlain_of_readTag h⟩
  | typed value datatype hne =>
    simp only [suffixChars, List.forall_mem_cons]
    exact ⟨by decide, by decide, isPlain_of_checkIri h⟩

private theorem head?_ne_quote {cs rest : List Char} (hcs : ∀ c ∈ cs, IsPlain c) (hrest : EndsComponent rest) :
    (cs ++ rest).head? ≠ some '"' := by
  cases cs with
  | nil =>
    intro h
    cases rest with
    | nil => cases h
    | cons c rest =>
      obtain rfl : c = '"' := by simpa using h
      exact hrest
  | cons c cs =>
    intro h
    obtain rfl : c = '"' := by simpa using h
    exact (hcs '"' (by simp)).2.1 rfl

/-- The id of a valid term is passed over as a whole. -/
theorem splitAtSpaces_idChars {t : Term} (ht : t.IsValid) {rest : List Char} (hrest : EndsComponent rest)
    (depth : Nat) :
    splitAtSpaces (.outside depth true) (t.idChars true ++ rest) =
      (splitAtSpaces (.outside depth true) rest).map (prependFirst (t.idChars true)) := by
  induction t generalizing rest depth with
  | iri text => exact splitAtSpaces_plain_append (isPlain_of_checkIri (Term.isValid_iri.1 ht)) hrest depth true
  | blank label =>
    refine splitAtSpaces_plain_append ?_ hrest depth true
    simp only [Term.idChars, List.forall_mem_cons]
    exact ⟨by decide, by decide, isPlain_of_checkBlank (Term.isValid_blank.1 ht)⟩
  | var name =>
    refine splitAtSpaces_plain_append ?_ hrest depth true
    simp only [Term.idChars, List.forall_mem_cons]
    exact ⟨by decide, isPlain_of_checkVariable (Term.isValid_var.1 ht)⟩
  | defaultGraph =>
    rw [Term.idChars, List.nil_append]
    exact Option.map_id'.symm
  | literal l =>
    have hsuffix := Literal.isPlain_suffixChars ht
    rw [Term.idChars, Literal.idChars_eq, if_pos rfl, List.cons_append, List.append_assoc, List.cons_append]
    rw [splitAtSpaces, splitAtSpaces_doubleQuotes (head?_ne_quote hsuffix hrest),
      splitAtSpaces_plain_append hsuffix hrest, Option.map_map, Option.map_map]
    congr 1
    calc consFirst '"' ∘ prependFirst (doubleQuotes l.value.toList ++ ['"']) ∘ prependFirst l.suffixChars
        = prependFirst (['"'] ++ ((doubleQuotes l.value.toList ++ ['"']) ++ l.suffixChars)) := by
          rw [prependFirst_append ['"'], prependFirst_append _ l.suffixChars]
          rfl
      _ = prependFirst ('"' :: (doubleQuotes l.value.toList ++ '"' :: l.suffixChars)) := by simp
  | quoted s p o g ihs ihp iho ihg =>
    rw [Term.isValid_quoted] at ht
    obtain ⟨hs, hp, ho, hg⟩ := ht
    -- behind the object: the graph, unless it is the default graph, and the closing brackets
    let graph := if g.isDefaultGraph then [] else ' ' :: g.idChars true
    have hends : EndsComponent (graph ++ '>' :: '>' :: rest) := by
      unfold graph
      split
      · exact endsComponent_close rest
      · exact endsComponent_space _
    have hspace : ∀ cs, splitAtSpaces (.outside (depth + 1) true) (' ' :: cs) =
        (splitAtSpaces (.outside (depth + 1) true) cs).map (prependFirst [' ']) := by
      intro cs
      rw [splitAtSpaces_space, if_neg (Nat.succ_ne_zero depth)]
      rfl
    have hgraph : splitAtSpaces (.outside (depth + 1) true) (graph ++ '>' :: '>' :: rest) =
        (splitAtSpaces (.outside depth true) rest).map (prependFirst (graph ++ ['>', '>'])) := by
      rw [splitAtSpaces_start hrest depth true false]
      unfold graph
      split
      · rw [List.nil_append, List.nil_append, splitAtSpaces_close]
      · rw [List.cons_append, hspace, ihg hg (endsComponent_close rest), splitAtSpaces_close]
        simp only [Option.map_map, ← prependFirst_append, List.cons_append, List.nil_append]
    have hchars : (Term.quoted s p o g).idChars true =
        ['<', '<'] ++ (s.idChars true ++ ([' '] ++ (p.idChars true ++ ([' '] ++ (o.idChars true ++
          (graph ++ ['>', '>'])))))) := by
      simp [Term.idChars, graph]
    rw [hchars]
    simp only [List.append_assoc, List.cons_append, List.nil_append]
    rw [splitAtSpaces_open, ihs hs (endsComponent_space _), hspace, ihp hp (endsComponent_space _), hspace,
      iho ho hends, hgraph]
    simp only [Option.map_map, ← prependFirst_append, List.cons_append, List.nil_append]

/-- Cutting the ids of some valid terms with spaces between them gives these ids. -/
theorem splitComponents_join {t : Term} {terms : List Term} (h : ∀ u ∈ t :: terms, u.IsValid) :
    splitComponents (t.idChars true ++ terms.flatMap fun u => ' ' :: u.idChars true) =
      some ((t :: terms).map (Term.idChars true)) := by
  rw [splitComponents_eq]
  induction terms generalizing t with
  | nil =>
    rw [List.flatMap_nil, splitAtSpaces_idChars (h t (by simp)) endsComponent_nil, splitAtSpaces]
    simp
  | cons u terms ih =>
    rw [List.flatMap_cons, List.cons_append]
    rw [splitAtSpaces_idChars (h t (by simp)) (endsComponent_space _), splitAtSpaces_space, if_pos rfl,
      ih fun v hv => h v (List.mem_cons_of_mem _ hv)]
    simp

/-! ### Reading ids -/

theorem undoubleQuotes_doubleQuotes (cs : List Char) : undoubleQuotes (doubleQuotes cs) = cs := by
  fun_induction doubleQuotes cs with
  | case1 => rfl
  | case2 cs ih => rw [undoubleQuotes, ih]
  | case3 c cs hc ih =>
    rw [undoubleQuotes, ih]
    exact fun _ h _ => hc h

private theorem splitLast_eq_none {sep : Char} {cs : List Char} (h : sep ∉ cs) : Text.splitLast sep cs = none := by
  induction cs with
  | nil => rfl
  | cons c cs ih =>
    rw [List.mem_cons, not_or] at h
    simp [Text.splitLast, ih h.2, Ne.symm h.1]

private theorem splitLast_append {sep : Char} (before : List Char) {after : List Char} (h : sep ∉ after) :
    Text.splitLast sep (before ++ sep :: after) = some (before, after) := by
  induction before with
  | nil => simp [Text.splitLast, splitLast_eq_none h]
  | cons c before ih => simp [Text.splitLast, ih]

/-- The id of a valid literal is read back. -/
theorem Literal.ofIdChars?_idChars {l : Literal} (h : (Term.literal l).IsValid) (nested : Bool) :
    Literal.ofIdChars? nested (l.idChars nested) = .ok l := by
  have hquote : '"' ∉ l.suffixChars := fun hm => (Literal.isPlain_suffixChars h _ hm).2.1 rfl
  rw [Literal.idChars_eq, Literal.ofIdChars?_cons, splitLast_append _ hquote]
  have hvalue : (if nested then undoubleQuotes (if nested then doubleQuotes l.value.toList else l.value.toList)
      else if nested then doubleQuotes l.value.toList else l.value.toList) = l.value.toList := by
    cases nested
    · rfl
    · exact undoubleQuotes_doubleQuotes _
  dsimp only
  rw [hvalue, String.ofList_toList]
  rw [Term.isValid_literal] at h
  cases l with
  | plain value => rfl
  | tagged value tag => simp [suffixChars, tagged?, h, Literal.value]
  | typed value datatype hne => simp [suffixChars, typed?, h, Literal.value, ofDatatype, hne]

private theorem insideBrackets?_brackets (inside : List Char) :
    insideBrackets? ('<' :: '<' :: (inside ++ ['>', '>'])) = some inside := by
  simp [insideBrackets?]

/-- A text in brackets is read component by component. -/
private theorem ofIdChars?_brackets (nested : Bool) {inside : List Char} {components : List (List Char)}
    (hs : splitComponents inside = some components) {terms : List Term} {t : Term}
    (hterms : components.mapM (Term.ofIdChars? true) = .ok terms) (ht : Term.ofComponents? terms = some t) :
    Term.ofIdChars? nested ('<' :: '<' :: (inside ++ ['>', '>'])) = .ok t := by
  rw [Term.ofIdChars?]
  · split
    · rename_i hi
      simp [insideBrackets?_brackets] at hi
    · rename_i inside' hi
      obtain rfl : inside = inside' := by simpa [insideBrackets?_brackets] using hi
      split
      · rename_i hs'
        simp [hs] at hs'
      · rename_i components' hs'
        obtain rfl : components = components' := by simpa [hs] using hs'
        have hmap : (components.attach.mapM fun x => Term.ofIdChars? true x.1) =
            components.mapM (Term.ofIdChars? true) := by
          rw [List.mapM_subtype (g := Term.ofIdChars? true) fun _ _ => rfl, List.unattach_attach]
        simp only [hmap, hterms, bind_eq_ok]
        exact ⟨terms, rfl, by simp [ht]⟩
  all_goals simp

/-- The id of a valid term is read back, standing alone or inside a quoted quad. -/
theorem Term.ofIdChars?_idChars {t : Term} (ht : t.IsValid) (nested : Bool) :
    Term.ofIdChars? nested (t.idChars nested) = .ok t := by
  induction t generalizing nested with
  | iri text =>
    rw [isValid_iri] at ht
    obtain ⟨c, hhead, hc⟩ := head_isAlpha_of_checkIri ht
    obtain ⟨cs, hcs⟩ : ∃ cs, text.toList = c :: cs := by
      cases htext : text.toList with
      | nil => simp [htext] at hhead
      | cons d cs => exact ⟨cs, by simpa [htext] using hhead⟩
    -- a letter begins none of the other ids
    have hne : ∀ d : Char, d.isAlpha = false → c ≠ d := by
      rintro d hd rfl
      simp [hc] at hd
    have hbrackets : insideBrackets? (c :: cs) = none := by
      unfold insideBrackets?
      split
      · rename_i heq
        exact absurd (List.cons.inj heq).1 (hne '<' (by decide))
      · rfl
    rw [idChars, hcs, ofIdChars?]
    · split
      · rw [← hcs, String.ofList_toList, iri?_eq_ok]
        exact ⟨ht, rfl⟩
      · rename_i hi
        simp [hbrackets] at hi
    · simp
    · exact fun _ heq => hne '_' (by decide) (List.cons.inj heq).1
    · exact fun _ heq => hne '?' (by decide) (List.cons.inj heq).1
    · exact fun _ heq => hne '"' (by decide) (List.cons.inj heq).1
  | blank label =>
    rw [idChars, ofIdChars?, String.ofList_toList, blank?_eq_ok]
    exact ⟨isValid_blank.1 ht, rfl⟩
  | var name =>
    rw [idChars, ofIdChars?, String.ofList_toList, var?_eq_ok]
    exact ⟨isValid_var.1 ht, rfl⟩
  | defaultGraph => rw [idChars, ofIdChars?]
  | literal l =>
    have hl := Literal.ofIdChars?_idChars ht nested
    rw [idChars]
    rw [Literal.idChars_eq] at hl ⊢
    rw [ofIdChars?, hl]
    rfl
  | quoted s p o g ihs ihp iho ihg =>
    rw [isValid_quoted] at ht
    obtain ⟨hs, hp, ho, hg⟩ := ht
    by_cases hdefault : g = .defaultGraph
    · subst hdefault
      have hsplit := splitComponents_join (show ∀ u ∈ [s, p, o], u.IsValid by simp [hs, hp, ho])
      have hterms : ([s, p, o].map (idChars true)).mapM (ofIdChars? true) = .ok [s, p, o] := by
        simp [List.mapM_cons, ihs hs, ihp hp, iho ho]
      have hread := ofIdChars?_brackets nested hsplit hterms rfl
      simpa [idChars, isDefaultGraph] using hread
    · have hsplit := splitComponents_join (show ∀ u ∈ [s, p, o, g], u.IsValid by simp [hs, hp, ho, hg])
      have hterms : ([s, p, o, g].map (idChars true)).mapM (ofIdChars? true) = .ok [s, p, o, g] := by
        simp [List.mapM_cons, ihs hs, ihp hp, iho ho, ihg hg]
      have hread := ofIdChars?_brackets nested hsplit hterms rfl
      have hdefault : g.isDefaultGraph = false := by
        cases g <;> simp_all [isDefaultGraph]
      simpa [idChars, hdefault] using hread

/-- Reading the id of a valid term gives the term. -/
theorem Term.IsValid.ofId?_id {t : Term} (ht : t.IsValid) : Term.ofId? t.id = .ok t := by
  rw [ofId?, id, String.toList_ofList]
  exact ofIdChars?_idChars ht false

/-- Valid terms with the same id are the same. -/
theorem Term.IsValid.id_inj {t u : Term} (ht : t.IsValid) (hu : u.IsValid) : t.id = u.id ↔ t = u := by
  constructor
  · intro h
    have ht := ht.ofId?_id
    rw [h, hu.ofId?_id] at ht
    exact (Except.ok.inj ht).symm
  · rintro rfl
    rfl

/-- A valid term is read back from its id, and no other valid term has its id. -/
theorem Term.id_faithful {t : Term} (ht : t.IsValid) :
    Term.ofId? t.id = .ok t ∧ ∀ u : Term, u.IsValid → (t = u ↔ t.id = u.id) := by
  constructor
  · exact ht.ofId?_id
  · intro u hu
    exact (ht.id_inj hu).symm

/-- A quoted quad with another one inside, whose literals look like the ends of values and of quads. -/
theorem Term.id_faithful_nested :
    Term.ofId? "<<<< ?x \"\"\"<<a\"\" \"\"\"\"b>> \" _:n.1>> http://example.org/said \"\"\"\"@en-gb>>" =
      .ok (.quoted (.quoted .defaultGraph (.var "x") (.literal (.plain "\"<<a\" \"\"b>> ")) (.blank "n.1"))
        (.iri "http://example.org/said") (.literal (.tagged "\"" "en-gb")) .defaultGraph) := by
  have hinner : (Term.quoted .defaultGraph (.var "x") (.literal (.plain "\"<<a\" \"\"b>> "))
      (.blank "n.1")).IsValid :=
    .quoted .defaultGraph (Term.isValid_var.2 (by decide)) (.plain _) (Term.isValid_blank.2 (by decide))
  have hiri : Term.iri? "http://example.org/said" = .ok (.iri "http://example.org/said") := by decide
  have htag : Literal.tagged? "\"" "en-GB" = .ok (.tagged "\"" "en-gb") := by decide
  exact (Term.id_faithful (.quoted hinner (.iri hiri) (.tagged htag) .defaultGraph)).1

end RdfDataset
