import RdfDataset.PrefixMap
import RdfDataset.Proofs.Document.Token
import RdfDataset.Proofs.Term.Slice

/-!
# Short names

Compacting an IRI and expanding the short name gives the IRI back.

* `PrefixMap.bindAll` binds prefixes one after another; `find?_insert`: the last binding of a prefix is the one that
  counts.
* `PrefixMap.IsNamed`: no prefix is bound twice, and no prefix holds a colon.
* `longer_foldl`: what is left of a row of bindings is one of them, and none is longer.
* `IsNamed.compact?_eq_none_iff` and `IsNamed.exists_of_compact?` say when there is a short name and what it is.
-/

namespace RdfDataset

namespace Text

/-- The bytes of a string are those of its characters. -/
theorem utf8Length_toList (s : String) : utf8Length s.toList = s.utf8ByteSize := by
  have hlist : ∀ cs : List Char, utf8Length cs = (String.ofList cs).utf8ByteSize := by
    intro cs
    induction cs with
    | nil => rfl
    | cons c cs ih =>
      have hcons : String.ofList (c :: cs) = String.singleton c ++ String.ofList cs := by
        rw [String.singleton_eq_ofList, ← String.ofList_append, List.singleton_append]
      rw [utf8Length_cons, ih, hcons, String.utf8ByteSize_append, String.utf8ByteSize_singleton]
  rw [hlist, String.ofList_toList]

end Text

namespace PrefixMap

variable {m : PrefixMap} {name base iri : String}

/-! ### Bindings -/

/-- Binds prefixes one after another. -/
def bindAll (m : PrefixMap) (bindings : List (String × String)) : PrefixMap :=
  bindings.foldl (fun m (name, iri) => m.insert name iri) m

/-- No prefix is bound twice, and no prefix holds a colon. -/
structure IsNamed (m : PrefixMap) : Prop where
  nodup : (m.bindings.map Prod.fst).Nodup
  noColon : ∀ b ∈ m.bindings, ':' ∉ b.1.toList

/-- The last binding of a prefix is the one that counts. -/
theorem find?_insert (m : PrefixMap) (name iri other : String) :
    (m.insert name iri).find? other = if other = name then some iri else m.find? other := by
  unfold insert find?
  by_cases hname : other = name
  · subst hname
    simp
  · have hhead : ¬((name, iri).1 == other) = true := by simpa using Ne.symm hname
    have htest : (fun b : String × String => decide ((b.1 != name) = true ∧ (b.1 == other) = true)) =
        fun b => b.1 == other := by
      funext b
      by_cases hb : b.1 = other
      · simp [hb, hname]
      · simp [hb]
    show ((List.find? (fun b => b.1 == other) ((name, iri) :: _)).map _) = _
    rw [if_neg hname, List.find?_cons_of_neg (p := fun b : String × String => b.1 == other) hhead, List.find?_filter,
      htest]

/-- A prefix is bound by its last binding, or as it was before. -/
theorem find?_bindAll (m : PrefixMap) (bindings : List (String × String)) (name : String) :
    (m.bindAll bindings).find? name = ((bindings.reverse.find? (·.1 == name)).map (·.2)).or (m.find? name) := by
  induction bindings generalizing m with
  | nil => rfl
  | cons b bindings ih =>
    have hcons : m.bindAll (b :: bindings) = (m.insert b.1 b.2).bindAll bindings := rfl
    rw [hcons, ih, find?_insert, List.reverse_cons, List.find?_append]
    cases List.find? (·.1 == name) bindings.reverse with
    | some last => rfl
    | none =>
      by_cases hname : name = b.1
      · simp [hname]
      · have hne : ¬b.1 = name := Ne.symm hname
        simp [hname, hne]

theorem IsNamed.insert (h : m.IsNamed) (hname : ':' ∉ name.toList) (iri : String) : (m.insert name iri).IsNamed where
  nodup := by
    show (name :: (m.bindings.filter _).map Prod.fst).Nodup
    refine List.nodup_cons.2 ⟨?_, h.nodup.sublist (List.filter_sublist.map _)⟩
    intro hmem
    obtain ⟨b, hb, hfst⟩ := List.mem_map.1 hmem
    exact bne_iff_ne.1 (List.mem_filter.1 hb).2 hfst
  noColon := by
    intro b hb
    rcases List.mem_cons.1 hb with rfl | hb
    · exact hname
    · exact h.noColon b (List.mem_filter.1 hb).1

theorem IsNamed.bindAll (h : m.IsNamed) {bindings : List (String × String)}
    (hnames : ∀ b ∈ bindings, ':' ∉ b.1.toList) : (m.bindAll bindings).IsNamed := by
  induction bindings generalizing m with
  | nil => exact h
  | cons b bindings ih =>
    have hb := h.insert (hnames b List.mem_cons_self) b.2
    exact ih hb fun b' hb' => hnames b' (List.mem_cons_of_mem _ hb')

theorem isNamed_standard : standard.IsNamed :=
  ⟨by decide, by decide⟩

/-- The order in which the bindings are kept is of no account. -/
theorem IsNamed.of_perm {m' : PrefixMap} (h : m.IsNamed) (hperm : m'.bindings.Perm m.bindings) : m'.IsNamed :=
  ⟨(hperm.map _).nodup_iff.2 h.nodup, fun b hb => h.noColon b (hperm.mem_iff.1 hb)⟩

theorem mem_of_find? (h : m.find? name = some base) : (name, base) ∈ m.bindings := by
  obtain ⟨b, hb, rfl⟩ := Option.map_eq_some_iff.1 h
  have hname : b.1 = name := beq_iff_eq.1 (List.find?_some (p := fun b : String × String => b.1 == name) hb)
  subst hname
  exact List.mem_of_find?_eq_some hb

theorem IsNamed.find?_of_mem (h : m.IsNamed) (hmem : (name, base) ∈ m.bindings) : m.find? name = some base := by
  have hfound : (m.bindings.find? (·.1 == name)).isSome := List.find?_isSome.2 ⟨(name, base), hmem, beq_self_eq_true _⟩
  obtain ⟨b, hb⟩ := Option.isSome_iff_exists.1 hfound
  have hname : b.1 = name := beq_iff_eq.1 (List.find?_some (p := fun b : String × String => b.1 == name) hb)
  have heq : b = (name, base) := List.inj_on_of_nodup_map h.nodup (List.mem_of_find?_eq_some hb) hmem hname
  rw [find?, hb, heq]
  rfl

theorem IsNamed.find?_eq_some_iff (h : m.IsNamed) : m.find? name = some base ↔ (name, base) ∈ m.bindings :=
  ⟨mem_of_find?, h.find?_of_mem⟩

theorem IsNamed.find?_perm {m' : PrefixMap} (h : m.IsNamed) (hperm : m'.bindings.Perm m.bindings) (name : String) :
    m'.find? name = m.find? name := by
  apply Option.ext
  intro base
  rw [(h.of_perm hperm).find?_eq_some_iff, h.find?_eq_some_iff, hperm.mem_iff]

/-! ### The longest binding -/

theorem longer_eq_or (a b : String × String) : longer a b = a ∨ longer a b = b := by
  unfold longer
  split
  · exact .inr rfl
  · exact .inl rfl

theorem le_longer (a b : String × String) :
    a.2.utf8ByteSize ≤ (longer a b).2.utf8ByteSize ∧ b.2.utf8ByteSize ≤ (longer a b).2.utf8ByteSize := by
  unfold longer
  split <;> omega

/-- What is left of a row of bindings is one of them, and none is longer. -/
theorem longer_foldl (first : String × String) (others : List (String × String)) :
    others.foldl longer first ∈ first :: others ∧
      ∀ b ∈ first :: others, b.2.utf8ByteSize ≤ (others.foldl longer first).2.utf8ByteSize := by
  induction others generalizing first with
  | nil => simp
  | cons b others ih =>
    obtain ⟨hmem, hle⟩ := ih (longer first b)
    have hkept := hle _ List.mem_cons_self
    have hboth := le_longer first b
    rw [List.foldl_cons]
    constructor
    · rcases List.mem_cons.1 hmem with heq | hmem
      · rw [heq]
        rcases longer_eq_or first b with h | h <;> rw [h] <;> simp
      · exact List.mem_cons_of_mem _ (List.mem_cons_of_mem _ hmem)
    · intro c hc
      simp only [List.mem_cons] at hc
      rcases hc with rfl | rfl | hc
      · omega
      · omega
      · exact hle c (List.mem_cons_of_mem _ hc)

/-! ### Short names -/

/-- A short name is expanded by its prefix, whatever stands behind the first colon. -/
theorem expand_append (hname : ':' ∉ name.toList) (hfind : m.find? name = some base) (rest : String) :
    m.expand (name ++ ":" ++ rest) = .ok (base ++ rest) := by
  have hsplit : Text.splitFirst ':' (name ++ ":" ++ rest).toList = some (name.toList, rest.toList) := by
    have hcolon : (name ++ ":" ++ rest).toList = name.toList ++ ':' :: rest.toList := by
      simp [String.toList_append]
    rw [hcolon, Text.splitFirst_append hname]
  rw [expand, hsplit]
  show (m.get (String.ofList name.toList) >>= fun iri => _) = _
  rw [String.ofList_toList, get, hfind]
  show Except.ok (base ++ String.ofList rest.toList) = _
  rw [String.ofList_toList]

/-- What stands behind the beginning of an IRI. -/
theorem exists_rest (h : base.toList <+: iri.toList) :
    ∃ rest, iri = base ++ rest ∧ String.ofList (iri.toList.drop base.length) = rest := by
  obtain ⟨rest, hrest⟩ := h
  refine ⟨String.ofList rest, ?_, ?_⟩
  · rw [← String.ofList_toList (s := iri), ← hrest, String.ofList_append, String.ofList_toList]
  · rw [← hrest, ← String.length_toList, List.drop_left]

theorem IsNamed.compact?_eq_none_iff (h : m.IsNamed) :
    m.compact? iri = none ↔ ∀ name base, m.find? name = some base → ¬base.toList <+: iri.toList := by
  have hnone : m.compact? iri = none ↔ (m.bindings.filter fun b => b.2.toList.isPrefixOf iri.toList) = [] := by
    unfold compact?
    split
    case h_1 heq => simpa using heq
    case h_2 first others heq => simp [heq]
  rw [hnone, List.filter_eq_nil_iff]
  simp only [h.find?_eq_some_iff, List.isPrefixOf_iff_prefix, Prod.forall]

/-- The short name of an IRI is made with a longest binding that the IRI begins with. -/
theorem IsNamed.exists_of_compact? (h : m.IsNamed) {short : String} (hshort : m.compact? iri = some short) :
    ∃ name base rest, m.find? name = some base ∧ iri = base ++ rest ∧ short = name ++ ":" ++ rest ∧
      ∀ name' base', m.find? name' = some base' → base'.toList <+: iri.toList →
        base'.utf8ByteSize ≤ base.utf8ByteSize := by
  unfold compact? at hshort
  split at hshort
  case h_1 => cases hshort
  case h_2 first others hfits =>
    obtain ⟨hmem, hle⟩ := longer_foldl first others
    rcases hkept : others.foldl longer first with ⟨name, base⟩
    rw [hkept] at hmem hle hshort
    have hfit : ∀ name' base', (name', base') ∈ first :: others ↔
        (name', base') ∈ m.bindings ∧ base'.toList <+: iri.toList := by
      intro name' base'
      rw [← hfits, List.mem_filter, List.isPrefixOf_iff_prefix]
    obtain ⟨hbound, hbegins⟩ := (hfit name base).1 hmem
    obtain ⟨rest, hiri, hdrop⟩ := exists_rest hbegins
    refine ⟨name, base, rest, h.find?_of_mem hbound, hiri, ?_, ?_⟩
    · rw [← hdrop]
      exact (Option.some.inj hshort).symm
    · intro name' base' hfind hbegins'
      exact hle _ ((hfit name' base').2 ⟨mem_of_find? hfind, hbegins'⟩)

/-- **Compacting and expanding agree.**  Prefixes without colons are bound one after another, and the bindings are kept
in some order.  The last binding of a prefix is the one that counts.  An IRI has no short name exactly if it begins with
no IRI that is bound.  Otherwise its short name is made of a prefix, bound to a longest beginning of the IRI, and of what
follows the bytes of that beginning; and it is expanded to the IRI. -/
theorem compact?_expand {bindings : List (String × String)} (hnames : ∀ b ∈ bindings, ':' ∉ b.1.toList)
    (hm : m.bindings.Perm (standard.bindAll bindings).bindings) (iri : String) :
    (∀ name, m.find? name = ((bindings.reverse.find? (·.1 == name)).map (·.2)).or (standard.find? name)) ∧
    (m.compact? iri = none ↔ ∀ name base, m.find? name = some base → ¬base.toList <+: iri.toList) ∧
      ∀ short, m.compact? iri = some short →
        (∃ name base rest, m.find? name = some base ∧ iri = base ++ rest ∧ short = name ++ ":" ++ rest ∧
          Text.dropBytes? base.utf8ByteSize iri.toList = some rest.toList ∧
          ∀ name' base', m.find? name' = some base' → base'.toList <+: iri.toList →
            base'.utf8ByteSize ≤ base.utf8ByteSize) ∧
        m.expand short = .ok iri := by
  have hbound : (standard.bindAll bindings).IsNamed := isNamed_standard.bindAll hnames
  have hnamed : m.IsNamed := hbound.of_perm hm
  refine ⟨?_, hnamed.compact?_eq_none_iff, ?_⟩
  · intro name
    rw [← find?_bindAll]
    exact hbound.find?_perm hm name
  intro short hshort
  obtain ⟨name, base, rest, hfind, rfl, rfl, hlongest⟩ := hnamed.exists_of_compact? hshort
  have hcut : Text.dropBytes? base.utf8ByteSize (base ++ rest).toList = some rest.toList := by
    rw [String.toList_append, ← Text.utf8Length_toList, Text.dropBytes?_append]
  have hcolon : ':' ∉ name.toList := hnamed.noColon _ (mem_of_find? hfind)
  exact ⟨⟨name, base, rest, hfind, rfl, rfl, hcut, hlongest⟩, expand_append hcolon hfind rest⟩

/-- A prefix that is bound again, the empty prefix, an IRI bound to two prefixes of different length, a colon and a
letter of two bytes. -/
theorem compact?_expand_overlapping :
    (∀ b ∈ [("ex", "http://e/"), ("", ""), ("é", "http://e/é#"), ("ex", "http://e/x/")], ':' ∉ b.1.toList) ∧
      (standard.bindAll [("ex", "http://e/"), ("", ""), ("é", "http://e/é#"), ("ex", "http://e/x/")]).expand "é:a:b" =
        .ok "http://e/é#a:b" := by
  have hnames : ∀ b ∈ [("ex", "http://e/"), ("", ""), ("é", "http://e/é#"), ("ex", "http://e/x/")],
      ':' ∉ b.1.toList := by decide
  have hshort : (standard.bindAll [("ex", "http://e/"), ("", ""), ("é", "http://e/é#"), ("ex", "http://e/x/")]).compact?
      "http://e/é#a:b" = some "é:a:b" := by decide +kernel
  exact ⟨hnames, ((compact?_expand hnames (List.Perm.refl _) "http://e/é#a:b").2.2 "é:a:b" hshort).2⟩

end PrefixMap

end RdfDataset
