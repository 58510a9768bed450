import RdfDataset.Proofs.Dataset.Call
import RdfDataset.Proofs.Dataset.Reachable

/-!
# New blank nodes are new

A new blank node is different from everything that was ever in the dataset, at any depth of any term, and stays so,
because its label is the first of some different labels that has no number and numbers are never taken back.

* `Term.OccursIn`: a term is another one or stands in it at some depth; `Interner.Valid.exists_of_occursIn`: what
  stands in a term with a number has one too.
* `Dataset.IsFirstUnused`: a label is the first one without a number; `Dataset.isFirstUnused_firstNumber` finds it,
  since of enough different labels some have no number.
* `Dataset.freshBlank_suggested` and `Dataset.freshBlank_counted`: the new blank node with and without a suggestion.
* `Dataset.Reaches`: a dataset becomes another one by any calls, which keeps all numbers.
* `Dataset.Reachable.freshBlank_isFresh`: a new blank node is none that was there before, and remains so.
-/

namespace RdfDataset

/-! ### Occurring at any depth -/

/-- A term is another one, or stands at some depth in it. -/
def Term.OccursIn (t : Term) : Term → Prop
  | .quoted s p o g => t = .quoted s p o g ∨ t.OccursIn s ∨ t.OccursIn p ∨ t.OccursIn o ∨ t.OccursIn g
  | u => t = u

/-- A term stands at some depth in one of the positions of a quad. -/
def Term.OccursInQuad (t : Term) (q : Quad) : Prop :=
  ∃ u ∈ [q.subject, q.predicate, q.object, q.graph], t.OccursIn u

/-- What stands in a term with a number has a number. -/
theorem Interner.Valid.exists_of_occursIn {i : Interner} (hi : i.Valid) {t u : Term} (h : t.OccursIn u)
    (hu : ∃ n, i.resolve? n = some u) : ∃ n, i.resolve? n = some t := by
  induction u with
  | quoted s p o g ihs ihp iho ihg =>
    obtain ⟨n, hn⟩ := hu
    have hcomponents := hi.components hn
    simp only [List.forall_mem_cons] at hcomponents
    rcases h with rfl | h | h | h | h
    · exact ⟨n, hn⟩
    · exact ihs h hcomponents.1
    · exact ihp h hcomponents.2.1
    · exact iho h hcomponents.2.2.1
    · exact ihg h hcomponents.2.2.2.1
  | iri text | blank label | literal l | var name | defaultGraph =>
    rw [show t = _ from h]
    exact hu

/-! ### Labels -/

theorem checkBlank_eq_ok {label : String} : checkBlank label = .ok () ↔ Text.isBlankLabel label.toList = true := by
  unfold checkBlank
  split <;> simp_all

/-- Name characters at the end keep a label a label. -/
theorem isBlankLabel_append {cs ds : List Char} (h : Text.isBlankLabel cs = true)
    (hds : ∀ d ∈ ds, Text.isNameChar d = true) : Text.isBlankLabel (cs ++ ds) = true := by
  cases cs with
  | nil => cases h
  | cons c cs =>
    rw [List.cons_append]
    simp only [Text.isBlankLabel, Bool.and_eq_true, List.all_append] at h ⊢
    obtain ⟨⟨hfirst, hinside⟩, hlast⟩ := h
    refine ⟨⟨hfirst, hinside, ?_⟩, ?_⟩
    · rw [List.all_eq_true]
      intro d hd
      simp [hds d hd]
    · cases hend : ds.getLast? with
      | none =>
        rw [List.getLast?_eq_none_iff] at hend
        rw [hend, List.append_nil]
        exact hlast
      | some d =>
        have hname := hds d (List.mem_of_getLast? hend)
        rw [← List.cons_append, List.getLast?_append, hend, Option.some_or, bne_iff_ne]
        rintro ⟨⟩
        exact absurd hname (by decide)

theorem isDigit_of_mem_toString {n : Nat} {c : Char} (h : c ∈ (toString n).toList) : c.isDigit = true := by
  rw [Nat.toString_eq_repr, Nat.toList_repr] at h
  exact Nat.isDigit_of_mem_toDigits (by decide) (by decide) h

/-- A number at the end keeps a label a label. -/
theorem checkBlank_append {label : String} (h : checkBlank label = .ok ()) (n : Nat) :
    checkBlank (label ++ toString n) = .ok () := by
  rw [checkBlank_eq_ok] at h ⊢
  rw [String.toList_append]
  exact isBlankLabel_append h fun _ hd => by simp [Text.isNameChar, isDigit_of_mem_toString hd]

theorem append_toString_injective (base : String) : Function.Injective fun n : Nat => base ++ toString n := by
  intro m n h
  have hlists : base.toList ++ (toString m).toList = base.toList ++ (toString n).toList := by
    simpa using congrArg String.toList h
  exact Nat.repr_injective (String.toList_inj.1 (List.append_cancel_left hlists))

namespace Dataset

theorem suggestedLabel_injective (base : String) : Function.Injective (suggestedLabel base) := by
  -- a label with a number is longer than the one without
  have hlonger : ∀ n : Nat, base ≠ base ++ toString n := by
    intro n h
    have hlists : base.toList ++ [] = base.toList ++ (toString n).toList := by
      simpa using congrArg String.toList h
    exact Nat.repr_ne_empty (String.toList_eq_nil_iff.1 (List.append_cancel_left hlists).symm)
  intro m n h
  cases m with
  | zero =>
    cases n with
    | zero => rfl
    | succ n => exact absurd h (hlonger _)
  | succ m =>
    cases n with
    | zero => exact absurd h.symm (hlonger _)
    | succ n => exact append_toString_injective base h

theorem checkBlank_suggestedLabel {base : String} (h : checkBlank base = .ok ()) (n : Nat) :
    checkBlank (suggestedLabel base n) = .ok () := by
  cases n with
  | zero => exact h
  | succ n => exact checkBlank_append h _

/-- Settings that are accepted begin labels with a label. -/
theorem checkBlank_of_check {settings : Settings} (h : settings.check = .ok ()) :
    checkBlank settings.blankNodePrefix = .ok () := by
  rw [checkBlank_eq_ok]
  unfold Settings.check at h
  split at h
  · assumption
  · cases h

/-! ### The first unused label -/

/-- The first number that passes a test is found if there is one within reach. -/
theorem firstNumber_spec {test : Nat → Bool} {tries start : Nat}
    (h : ∃ n, start ≤ n ∧ n < start + tries ∧ test n = true) :
    start ≤ firstNumber test tries start ∧ test (firstNumber test tries start) = true ∧
      ∀ m, start ≤ m → m < firstNumber test tries start → test m = false := by
  induction tries generalizing start with
  | zero =>
    obtain ⟨n, hle, hlt, -⟩ := h
    omega
  | succ tries ih =>
    unfold firstNumber
    by_cases hstart : test start = true
    · rw [if_pos hstart]
      exact ⟨le_refl _, hstart, fun m hle hlt => absurd hle (Nat.not_le.2 hlt)⟩
    · rw [if_neg hstart]
      obtain ⟨n, hle, hlt, hn⟩ := h
      have hne : n ≠ start := by
        rintro rfl
        exact hstart hn
      have hrest : ∃ n, start + 1 ≤ n ∧ n < start + 1 + tries ∧ test n = true := ⟨n, by omega, by omega, hn⟩
      obtain ⟨hfrom, hfound, hbefore⟩ := ih hrest
      refine ⟨by omega, hfound, fun m hm hlt => ?_⟩
      by_cases heq : m = start
      · rw [heq]
        exact eq_false_of_ne_true hstart
      · exact hbefore m (by omega) hlt

theorem id_blank (label : String) : (Term.blank label).id = "_:" ++ label := by
  rw [← String.toList_inj]
  simp [Term.id, Term.idChars]

section

variable [Arrangement]

theorem countedLabel_injective (d : Dataset) : Function.Injective d.countedLabel :=
  append_toString_injective _

/-- A label is the first from a number on that no blank node with a number has. -/
def IsFirstUnused (d : Dataset) (label : Nat → String) (start n : Nat) : Prop :=
  start ≤ n ∧ d.terms.find? (.blank (label n)) = none ∧
    ∀ m, start ≤ m → m < n → d.terms.find? (.blank (label m)) ≠ none

theorem isUnused_iff {d : Dataset} {label : String} :
    d.isUnused label = true ↔ d.terms.find? (.blank label) = none := by
  rw [isUnused, Interner.find?, Interner.findId?, Interner.containsId, id_blank, Bool.not_eq_true',
    Std.HashMap.contains_eq_isSome_getElem?, Option.isSome_eq_false_iff, Option.isNone_iff_eq_none]

/-- Labels that are used have different numbers, so there are no more of them than terms. -/
theorem le_size_of_used {d : Dataset} (hd : d.terms.Valid) {label : Nat → String} (hlabel : Function.Injective label)
    {n : Nat} (hused : ∀ k < n, d.terms.find? (.blank (label k)) ≠ none) : n ≤ d.terms.size := by
  have hnumbered : ∀ k < n, ∃ number, d.terms.findId? (Term.blank (label k)).id = some number :=
    fun k hk => Option.ne_none_iff_exists'.1 (hused k hk)
  choose! number hnumber using hnumbered
  have hmaps : ∀ k ∈ Finset.range n, number k ∈ Finset.Icc 1 d.terms.size := by
    intro k hk
    obtain ⟨t, ht, -⟩ := hd.findId?_eq_some_iff.1 (hnumber k (Finset.mem_range.1 hk))
    rw [Finset.mem_Icc]
    constructor
    · by_contra hzero
      rw [show number k = 0 by omega] at ht
      cases ht
    · by_contra hlarge
      rw [Interner.resolve?_eq_none (by omega)] at ht
      cases ht
  by_contra hmore
  have hcard : (Finset.Icc 1 d.terms.size).card < (Finset.range n).card := by
    rw [Nat.card_Icc, Finset.card_range]
    omega
  obtain ⟨k, hk, l, hl, hne, heq⟩ := Finset.exists_ne_map_eq_of_card_lt_of_maps_to hcard hmaps
  obtain ⟨t, ht, hid⟩ := hd.findId?_eq_some_iff.1 (hnumber k (Finset.mem_range.1 hk))
  obtain ⟨u, hu, hid'⟩ := hd.findId?_eq_some_iff.1 (hnumber l (Finset.mem_range.1 hl))
  rw [heq, hu] at ht
  obtain rfl := Option.some.inj ht
  have hlabels : label k = label l := by
    have hids := hid.symm.trans hid'
    rw [id_blank, id_blank] at hids
    have hlists := congrArg String.toList hids
    rw [String.toList_append, String.toList_append] at hlists
    exact String.toList_inj.1 (List.append_cancel_left hlists)
  exact hne (hlabel hlabels)

/-- Of one more label than there are terms, one is unused. -/
theorem exists_isUnused {d : Dataset} (hd : d.terms.Valid) {label : Nat → String} (hlabel : Function.Injective label)
    (start : Nat) : ∃ n, start ≤ n ∧ n < start + (d.terms.size + 1) ∧ d.isUnused (label n) = true := by
  by_contra hnone
  have hused : ∀ k < d.terms.size + 1, d.terms.find? (.blank (label (start + k))) ≠ none := by
    intro k hk hunused
    exact hnone ⟨start + k, by omega, by omega, isUnused_iff.2 hunused⟩
  have hle := le_size_of_used hd (fun k l heq => Nat.add_left_cancel (hlabel heq)) hused
  omega

/-- Trying as many labels as there are terms, and one more, finds the first unused one. -/
theorem isFirstUnused_firstNumber {d : Dataset} (hd : d.terms.Valid) {label : Nat → String}
    (hlabel : Function.Injective label) (start : Nat) :
    d.IsFirstUnused label start (firstNumber (d.isUnused ∘ label) (d.terms.size + 1) start) := by
  obtain ⟨hfrom, hfound, hbefore⟩ := @firstNumber_spec (d.isUnused ∘ label) _ _ (exists_isUnused hd hlabel start)
  refine ⟨hfrom, isUnused_iff.1 hfound, fun m hm hlt hunused => ?_⟩
  rw [← isUnused_iff] at hunused
  have hused := hbefore m hm hlt
  rw [Function.comp_apply, hunused] at hused
  cases hused

/-! ### One blank node -/

theorem mint_of_checkBlank (d : Dataset) {label : String} (h : checkBlank label = .ok ()) :
    d.mint label = (.ok (.blank label), { d with terms := (d.terms.intern (.blank label)).2 }) := by
  unfold mint Term.blank?
  rw [h]
  rfl

/-- A suggestion that is a label is followed by the first number, if any, that makes it unused. -/
theorem freshBlank_suggested {d : Dataset} (hd : d.terms.Valid) {base : String} (hbase : base ≠ "")
    (hcheck : checkBlank base = .ok ()) :
    ∃ n, d.IsFirstUnused (suggestedLabel base) 0 n ∧ d.freshBlank (some base) =
      (.ok (.blank (suggestedLabel base n)),
        { d with terms := (d.terms.intern (.blank (suggestedLabel base n))).2 }) := by
  refine ⟨_, isFirstUnused_firstNumber hd (suggestedLabel_injective base) 0, ?_⟩
  have hfilter : (some base).filter (!·.isEmpty) = some base := by simp [hbase]
  unfold freshBlank
  rw [hfilter]
  dsimp only
  rw [hcheck]
  exact mint_of_checkBlank d (checkBlank_suggestedLabel hcheck _)

/-- A suggestion that is no label is refused, and nothing happens. -/
theorem freshBlank_refused {d : Dataset} {base : String} (hbase : base ≠ "") (hcheck : checkBlank base ≠ .ok ()) :
    d.freshBlank (some base) = (.error (.blank base), d) := by
  have hfilter : (some base).filter (!·.isEmpty) = some base := by simp [hbase]
  have herror : checkBlank base = .error (.blank base) := by
    unfold checkBlank at hcheck ⊢
    split <;> simp_all
  unfold freshBlank
  rw [hfilter]
  dsimp only
  rw [herror]

/-- Without a suggestion the first unused number from the counter on is taken, and the counter goes on after it. -/
theorem freshBlank_counted {d : Dataset} (hd : d.terms.Valid) (hsettings : d.settings.check = .ok ())
    {suggestion : Option String} (hnone : suggestion = none ∨ suggestion = some "") :
    ∃ n, d.IsFirstUnused d.countedLabel d.nextBlank n ∧ d.freshBlank suggestion =
      (.ok (.blank (d.countedLabel n)),
        { d with terms := (d.terms.intern (.blank (d.countedLabel n))).2, nextBlank := n + 1 }) := by
  refine ⟨_, isFirstUnused_firstNumber hd d.countedLabel_injective d.nextBlank, ?_⟩
  have hfilter : suggestion.filter (!·.isEmpty) = none := by
    rcases hnone with rfl | rfl <;> rfl
  unfold freshBlank
  rw [hfilter]
  dsimp only
  generalize firstNumber (d.isUnused ∘ d.countedLabel) (d.terms.size + 1) d.nextBlank = n
  exact mint_of_checkBlank { d with nextBlank := n + 1 } (checkBlank_append (checkBlank_of_check hsettings) n)

/-- A new blank node has a number at once. -/
theorem Valid.exists_resolve?_of_freshBlank {d d' : Dataset} (hd : d.Valid) {suggestion : Option String} {node : Term}
    (h : d.freshBlank suggestion = (.ok node, d')) : ∃ n, d'.terms.resolve? n = some node := by
  obtain ⟨next, ⟨e, herror⟩ | ⟨label, hlabel, hok⟩⟩ := d.freshBlank_cases suggestion
  · rw [herror] at h
    cases h
  · rw [hok] at h
    cases h
    exact ⟨_, hd.terms.resolve?_intern (Term.isValid_blank.2 hlabel)⟩

/-! ### Histories -/

/-- A dataset becomes another one by any calls. -/
def Reaches : Dataset → Dataset → Prop :=
  Relation.ReflTransGen Step

/-- Every call lets a dataset evolve. -/
theorem Step.evolves {d d' : Dataset} (h : Step d d') (hd : d.Sound) : d.Evolves d' := by
  cases h with
  | update hu => exact hd.update _
  | size => exact hd.size
  | extractLists options => exact hd.extractLists options
  | load format text base => exact hd.load format text base
  | reason hrules => exact (hd.reasonOver _ _).1
  | reasonIn hrules graph => exact (hd.reasonOver _ _).1

theorem Reachable.sound {d : Dataset} (h : d.Reachable) : d.Sound := by
  induction h with
  | init h =>
    obtain ⟨_, -, h⟩ := bind_eq_ok.1 h
    rw [← pure_eq_ok.1 h]
    exact .empty _
  | step _ hstep ih => exact (hstep.evolves ih).sound

/-- The settings are those that were accepted at first. -/
theorem Reachable.check_settings {d : Dataset} (h : d.Reachable) : d.settings.check = .ok () := by
  induction h with
  | init h =>
    obtain ⟨_, hcheck, h⟩ := bind_eq_ok.1 h
    rw [← pure_eq_ok.1 h]
    exact hcheck
  | step hd hstep ih => rwa [(hstep.evolves hd.sound).settings]

/-- Whatever is done with a dataset, all numbers are kept. -/
theorem Reachable.evolves {d d' : Dataset} (hd : d.Reachable) (h : d.Reaches d') : d.Evolves d' ∧ d'.Reachable := by
  induction h with
  | refl => exact ⟨hd.sound.refl, hd⟩
  | tail _ hstep ih => exact ⟨ih.1.trans (hstep.evolves ih.1.sound), ih.2.step hstep⟩

theorem Step.freshBlank (d : Dataset) (suggestion : Option String) : Step d (d.freshBlank suggestion).2 :=
  .update d (u := .freshBlank suggestion) trivial

/-! ### What a new blank node is -/

/-- The label of a new blank node, and the counter after it. -/
structure HasFreshLabel (d : Dataset) (suggestion : Option String) (node : Term) (d' : Dataset) : Prop where
  suggested : ∀ base, suggestion = some base → base ≠ "" →
    ∃ n, node = .blank (suggestedLabel base n) ∧ d.IsFirstUnused (suggestedLabel base) 0 n ∧
      d'.nextBlank = d.nextBlank
  counted : suggestion = none ∨ suggestion = some "" →
    ∃ n, node = .blank (d.settings.blankNodePrefix ++ toString n) ∧ d.IsFirstUnused d.countedLabel d.nextBlank n ∧
      d'.nextBlank = n + 1

/-- A term is nowhere in the past of a dataset: neither in a quad, nor in any term that has ever had a number, nor in a
rule that has been compiled as far as this one, and it is none of the blank nodes that were new before. -/
structure IsUnseen (d : Dataset) (node : Term) : Prop where
  quads : ∀ d₀ : Dataset, d₀.Reachable → d₀.Reaches d → ∀ q ∈ d₀.quads, ¬node.OccursInQuad q
  terms : ∀ d₀ : Dataset, d₀.Reachable → d₀.Reaches d → ∀ n t, d₀.terms.resolve? n = some t → ¬node.OccursIn t
  rules : ∀ (d₀ : Dataset) (before : List Rule) (rule : Rule) (after : List Rule), d₀.Reachable →
    (∀ r ∈ before ++ rule :: after, r.IsValid) →
    ((d₀.reason (before ++ rule :: after)).2.Reaches d ∨
      ∃ graph, (d₀.reasonIn (before ++ rule :: after) graph).2.Reaches d) →
    (∃ compiled, (compileRules (before ++ [rule]) d₀.terms).1 = .ok compiled) →
    ∀ pattern ∈ rule.premise ++ rule.conclusion, ∀ t ∈ pattern.toList, ¬node.OccursIn t
  earlier : ∀ (d₀ d₁ : Dataset) (suggestion : Option String) (node₀ : Term), d₀.Reachable →
    d₀.freshBlank suggestion = (.ok node₀, d₁) → d₁.Reaches d → node ≠ node₀

/-- A blank node without a number is new. -/
theorem Reachable.isUnseen {d : Dataset} (hd : d.Reachable) {label : String}
    (hnew : ∀ n, d.terms.resolve? n ≠ some (.blank label)) : d.IsUnseen (.blank label) := by
  -- numbers are kept, so whatever had a number in the past has it now, and so has what stands in it
  have hterms : ∀ d₀ : Dataset, d₀.Reachable → d₀.Reaches d → ∀ n t, d₀.terms.resolve? n = some t →
      ¬(Term.blank label).OccursIn t := by
    intro d₀ hd₀ hreaches n t ht hoccurs
    have hkeeps := (hd₀.evolves hreaches).1.keeps
    obtain ⟨m, hm⟩ := hd.valid.terms.exists_of_occursIn hoccurs ⟨n, hkeeps n t ht⟩
    exact hnew m hm
  refine ⟨fun d₀ hd₀ hreaches q hq => ?_, hterms, fun d₀ before rule after hd₀ hrules hreaches hcompiles => ?_,
    fun d₀ d₁ suggestion node₀ hd₀ hfresh hreaches => ?_⟩
  · rintro ⟨t, ht, hoccurs⟩
    obtain ⟨graph, ids, -, hresolve⟩ := hd₀.valid.mem_quads.1 hq
    obtain ⟨hs, hp, ho, hg⟩ := resolveQuad?_eq_some.1 hresolve
    simp only [List.mem_cons, List.not_mem_nil, or_false] at ht
    rcases ht with rfl | rfl | rfl | rfl
    · exact hterms d₀ hd₀ hreaches _ _ hs hoccurs
    · exact hterms d₀ hd₀ hreaches _ _ hp hoccurs
    · exact hterms d₀ hd₀ hreaches _ _ ho hoccurs
    · exact hterms d₀ hd₀ hreaches _ _ hg hoccurs
  · intro pattern hpattern t ht hoccurs
    obtain ⟨compiled, hcompiled⟩ := hcompiles
    have hvalid : ∀ r ∈ before ++ [rule], r.IsValid := by
      intro r hr
      refine hrules r ?_
      simp only [List.mem_append, List.mem_cons, List.not_mem_nil, or_false] at hr ⊢
      exact hr.imp_right .inl
    obtain ⟨-, hrepresent⟩ := (compileRules_spec hvalid hd₀.valid.terms).2.2 compiled hcompiled
    have hvar : t.isVar = false := by
      cases t with
      | var name => cases hoccurs
      | _ => rfl
    obtain ⟨n, hn⟩ := hrepresent.exists_resolve? (by simp) hpattern ht hvar
    have hprefix := extends_compileRules_append (before ++ [rule]) after hd₀.sound.terms n t hn
    rw [List.append_assoc, List.singleton_append] at hprefix
    have hpast : ∀ d₁ : Dataset, Step d₀ d₁ → d₁.terms = (compileRules (before ++ rule :: after) d₀.terms).2 →
        ¬d₁.Reaches d := by
      intro d₁ hstep hsame hreaches
      rw [← hsame] at hprefix
      exact hterms d₁ (hd₀.step hstep) hreaches n t hprefix hoccurs
    rcases hreaches with hreaches | ⟨graph, hreaches⟩
    · exact hpast _ (.reason d₀ hrules) (hd₀.sound.reasonOver _ _).2 hreaches
    · exact hpast _ (.reasonIn d₀ hrules graph) (hd₀.sound.reasonOver _ _).2 hreaches
  · rintro rfl
    have hd₁ := hd₀.step (.freshBlank d₀ suggestion)
    rw [hfresh] at hd₁
    obtain ⟨n, hn⟩ := hd₀.valid.exists_resolve?_of_freshBlank hfresh
    exact hterms d₁ hd₁ hreaches n _ hn rfl

/-- Whether there is a new blank node, and which label it has. -/
private theorem Valid.freshBlank_isOk_or {d : Dataset} (hd : d.Valid) (hsettings : d.settings.check = .ok ())
    (suggestion : Option String) :
    (∃ base, suggestion = some base ∧ base ≠ "" ∧ checkBlank base ≠ .ok () ∧
      d.freshBlank suggestion = (.error (.blank base), d)) ∨
    (¬∃ base, suggestion = some base ∧ base ≠ "" ∧ checkBlank base ≠ .ok ()) ∧
      ∃ label d', d.freshBlank suggestion = (.ok (.blank label), d') ∧ checkBlank label = .ok () ∧
        d.terms.find? (.blank label) = none ∧ d.HasFreshLabel suggestion (.blank label) d' := by
  by_cases hnone : suggestion = none ∨ suggestion = some ""
  · obtain ⟨n, hfirst, hfresh⟩ := freshBlank_counted hd.terms hsettings hnone
    refine .inr ⟨?_, _, _, hfresh, checkBlank_append (checkBlank_of_check hsettings) n, hfirst.2.1, ?_, ?_⟩
    · rintro ⟨base, rfl, hbase, -⟩
      exact hnone.elim (by simp) (by simp [hbase])
    · rintro base rfl hbase
      exact absurd hnone (by simp [hbase])
    · exact fun _ => ⟨n, rfl, hfirst, rfl⟩
  · cases suggestion with
    | none => exact absurd (.inl rfl) hnone
    | some base =>
      have hbase : base ≠ "" := fun h => hnone (.inr (congrArg some h))
      by_cases hcheck : checkBlank base = .ok ()
      · obtain ⟨n, hfirst, hfresh⟩ := freshBlank_suggested hd.terms hbase hcheck
        refine .inr ⟨?_, _, _, hfresh, checkBlank_suggestedLabel hcheck n, hfirst.2.1, ?_, ?_⟩
        · rintro ⟨_, ⟨⟩, -, hrefused⟩
          exact hrefused hcheck
        · rintro _ ⟨⟩ -
          exact ⟨n, rfl, hfirst, rfl⟩
        · exact fun h => absurd h hnone
      · exact .inl ⟨base, rfl, hbase, hcheck, freshBlank_refused hbase hcheck⟩

/-- A new blank node is refused only for a suggestion that is no label, and nothing happens then.  Otherwise it has the
first unused label, is nowhere in the past of the dataset, and is reserved for all of its future. -/
theorem Reachable.freshBlank_isFresh {d : Dataset} (hd : d.Reachable) (suggestion : Option String) :
    ((∃ e, (d.freshBlank suggestion).1 = .error e) ↔
      ∃ base, suggestion = some base ∧ base ≠ "" ∧ checkBlank base ≠ .ok ()) ∧
    (∀ e, (d.freshBlank suggestion).1 = .error e → (d.freshBlank suggestion).2 = d) ∧
    ∀ node d', d.freshBlank suggestion = (.ok node, d') →
      d.HasFreshLabel suggestion node d' ∧ d.IsUnseen node ∧ d'.quads = d.quads ∧
        ∀ d₁, d'.Reaches d₁ → (∃ n, d₁.terms.resolve? n = some node) ∧
          ∀ later node₂ d₂, d₁.freshBlank later = (.ok node₂, d₂) → node₂ ≠ node := by
  have hunseen : ∀ d₀ : Dataset, d₀.Reachable → ∀ suggestion node d₁, d₀.freshBlank suggestion = (.ok node, d₁) →
      d₀.HasFreshLabel suggestion node d₁ ∧ d₀.IsUnseen node := by
    intro d₀ hd₀ suggestion node d₁ hfresh
    rcases hd₀.valid.freshBlank_isOk_or hd₀.check_settings suggestion with
      ⟨_, -, -, -, herror⟩ | ⟨-, label, d₂, hok, hcheck, hunused, hlabel⟩
    · rw [herror] at hfresh
      cases hfresh
    · rw [hok] at hfresh
      cases hfresh
      rw [hd₀.valid.terms.find?_eq_none_iff (Term.isValid_blank.2 hcheck)] at hunused
      exact ⟨hlabel, hd₀.isUnseen hunused⟩
  refine ⟨?_, fun e he => ?_, fun node d' hfresh => ?_⟩
  · rcases hd.valid.freshBlank_isOk_or hd.check_settings suggestion with
      ⟨base, hsuggestion, hbase, hcheck, herror⟩ | ⟨hnone, _, _, hok, -⟩
    · exact ⟨fun _ => ⟨base, hsuggestion, hbase, hcheck⟩, fun _ => ⟨_, congrArg (·.1) herror⟩⟩
    · refine ⟨fun ⟨e, he⟩ => ?_, fun h => absurd h hnone⟩
      rw [hok] at he
      cases he
  · -- without a suggestion the counter moves before the label is checked, but that label is always accepted
    rcases hd.valid.freshBlank_isOk_or hd.check_settings suggestion with
      ⟨_, -, -, -, herror⟩ | ⟨-, _, _, hok, -⟩
    · rw [herror]
    · rw [hok] at he
      cases he
  · obtain ⟨hlabel, hnew⟩ := hunseen d hd suggestion node d' hfresh
    have hd' := hd.step (.freshBlank d suggestion)
    have hquads := (hd.valid.freshBlank suggestion).2.2
    rw [hfresh] at hd' hquads
    refine ⟨hlabel, hnew, hquads, fun d₁ hreaches => ⟨?_, fun later node₂ d₂ hlater => ?_⟩⟩
    · obtain ⟨n, hn⟩ := hd.valid.exists_resolve?_of_freshBlank hfresh
      exact ⟨n, (hd'.evolves hreaches).1.keeps n node hn⟩
    · have hlaterNew := (hunseen d₁ (hd'.evolves hreaches).2 later node₂ d₂ hlater).2
      exact hlaterNew.earlier d d' suggestion node hd hfresh hreaches

end

/-- A label inside a quoted quad is not used again after the quad has been taken out. -/
theorem freshBlank_isFresh_after_erase :
    let q : Quad :=
      ⟨.quoted (.blank "b0") (.iri "a:p") (.blank "n") .defaultGraph, .iri "a:p", .blank "n", .defaultGraph⟩
    ∃ n d', ((ofList [q]).erase q).2.freshBlank none = (.ok (.blank ("b" ++ toString n)), d') ∧ n ≠ 0 := by
  intro q
  have hlabel : checkBlank "b0" = .ok () ∧ checkBlank "n" = .ok () := by decide
  have hiri : (Term.iri "a:p").IsValid := Term.isValid_iri.2 (by decide)
  have hq : q.IsValid := by
    rw [Quad.isValid_iff]
    simp [q, Term.isValid_quoted, Term.isValid_blank, hlabel, hiri, Term.IsValid.defaultGraph]
  have hbefore : (ofList [q]).Reachable := .ofList (by simpa using hq)
  have herase : Step (ofList [q]) ((ofList [q]).erase q).2 := by
    have hstep := Step.update (ofList [q]) (u := .erase q) hq
    dsimp only [Update.run] at hstep
    exact hstep
  have hd := hbefore.step herase
  have hsettings : ((ofList [q]).erase q).2.settings = {} := by
    have hlist := ((Sound.empty {}).insertMany [q]).settings
    rw [← ofList] at hlist
    exact (herase.evolves hbefore.sound).settings.trans hlist
  obtain ⟨hfails, -, hfresh⟩ := Reachable.freshBlank_isFresh hd none
  obtain ⟨⟨result, d'⟩, h⟩ : ∃ made, ((ofList [q]).erase q).2.freshBlank none = made := ⟨_, rfl⟩
  cases result with
  | error e =>
    obtain ⟨base, ⟨⟩, -⟩ := hfails.1 ⟨e, congrArg (·.1) h⟩
  | ok node =>
    obtain ⟨hlabel, hnew, -⟩ := hfresh node d' h
    obtain ⟨n, rfl, -⟩ := hlabel.counted (.inl rfl)
    refine ⟨n, d', by rwa [hsettings] at h, ?_⟩
    rintro rfl
    have hmem : q ∈ (ofList [q]).quads := by
      rw [quads_ofList (by simpa using hq)]
      simp
    refine hnew.quads _ hbefore (.single herase) q hmem ⟨_, List.mem_cons_self, ?_⟩
    rw [hsettings]
    exact .inr (.inl rfl)

end Dataset

end RdfDataset
