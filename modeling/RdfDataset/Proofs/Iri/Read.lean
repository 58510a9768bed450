import Mathlib
import RdfDataset.Iri.Basic
import RdfDataset.Proofs.Result

/-!
# Reading IRIs

The parts into which an IRI is cut give its text when they are put together again, and none of the characters that
ids and documents put around names and values stands in an IRI.

* `NoDelimiter`: the texts without such a character.
* `Iri.Takes`: what a reader has read stands before what it leaves and holds no delimiter.  There is one lemma for
  each reader.
* `Iri.takes_of_readAbsolute`: an absolute IRI that has been read has the text that it was read from.
-/

namespace RdfDataset

/-- The characters that ids and documents put around names and values, and those that end a line. -/
def delimiters : List Char :=
  [' ', '"', '<', '>', '\\', '\n', '\r']

/-- None of the characters of a text is a delimiter. -/
def NoDelimiter (cs : List Char) : Prop :=
  ∀ c ∈ cs, c ∉ delimiters

@[simp]
theorem noDelimiter_nil : NoDelimiter [] := by
  simp [NoDelimiter]

@[simp]
theorem noDelimiter_cons {c : Char} {cs : List Char} : NoDelimiter (c :: cs) ↔ c ∉ delimiters ∧ NoDelimiter cs :=
  List.forall_mem_cons

@[simp]
theorem noDelimiter_append {cs ds : List Char} : NoDelimiter (cs ++ ds) ↔ NoDelimiter cs ∧ NoDelimiter ds :=
  List.forall_mem_append

/-- A class of characters that leaves out all delimiters has none as a member. -/
theorem notMem_delimiters {p : Char → Bool} (hp : delimiters.all (fun c => !p c) = true) {c : Char} (h : p c = true) :
    c ∉ delimiters := by
  intro hc
  have := List.all_eq_true.1 hp c hc
  simp [h] at this

theorem noDelimiter_of_all {p : Char → Bool} (hp : delimiters.all (fun c => !p c) = true) {cs : List Char}
    (h : ∀ c ∈ cs, p c = true) : NoDelimiter cs :=
  fun c hc => notMem_delimiters hp (h c hc)

private theorem drop_length_takeWhile (p : Char → Bool) (cs : List Char) :
    cs.drop (cs.takeWhile p).length = cs.dropWhile p := by
  induction cs with
  | nil => rfl
  | cons c cs ih => by_cases hc : p c <;> simp [hc, ih]

namespace Iri

/-- The text `cs` consists of `read`, which holds no delimiter, and `rest`. -/
structure Takes (cs read rest : List Char) : Prop where
  append : read ++ rest = cs
  clean : NoDelimiter read

namespace Takes

theorem nil (cs : List Char) : Takes cs [] cs :=
  ⟨rfl, noDelimiter_nil⟩

theorem trans {a b c read more : List Char} (hab : Takes a read b) (hbc : Takes b more c) :
    Takes a (read ++ more) c :=
  ⟨by rw [List.append_assoc, hbc.append, hab.append], noDelimiter_append.2 ⟨hab.clean, hbc.clean⟩⟩

theorem cons {c : Char} {cs read rest : List Char} (hc : c ∉ delimiters) (h : Takes cs read rest) :
    Takes (c :: cs) (c :: read) rest :=
  ⟨by rw [List.cons_append, h.append], noDelimiter_cons.2 ⟨hc, h.clean⟩⟩

/-- A run of characters of a class without delimiters. -/
theorem takeWhile {p : Char → Bool} (hp : delimiters.all (fun c => !p c) = true) (cs : List Char) :
    Takes cs (cs.takeWhile p) (cs.drop (cs.takeWhile p).length) := by
  rw [drop_length_takeWhile]
  exact ⟨List.takeWhile_append_dropWhile, noDelimiter_of_all hp fun _ => List.mem_takeWhile_imp⟩

/-- What is read up to the end is the whole text. -/
theorem eq {cs read : List Char} (h : Takes cs read []) : read = cs := by
  simpa using h.append

theorem noDelimiter_iff {cs read rest : List Char} (h : Takes cs read rest) : NoDelimiter cs ↔ NoDelimiter rest := by
  rw [← h.append, noDelimiter_append]
  exact and_iff_right h.clean

end Takes

/-- What is scanned holds no delimiter, and what is left begins with a character that stops the scan. -/
theorem takes_of_scan {allowed stop : Char → Bool} (ha : delimiters.all (fun c => !allowed c) = true)
    {cs read rest : List Char} (h : scan allowed stop cs = .ok (read, rest)) :
    Takes cs read rest ∧ ∀ c ∈ rest.head?, stop c = true := by
  have hhex {c : Char} (hc : isHexDigit c = true) : c ∉ delimiters := notMem_delimiters (p := isHexDigit) (by decide) hc
  fun_induction scan allowed stop cs generalizing read rest with
  | case1 =>
    simp only [Except.ok.injEq, Prod.mk.injEq] at h
    obtain ⟨rfl, rfl⟩ := h
    exact ⟨.nil _, by simp⟩
  | case2 h' l cs hstop =>
    simp only [Except.ok.injEq, Prod.mk.injEq] at h
    obtain ⟨rfl, rfl⟩ := h
    exact ⟨.nil _, by simpa using hstop⟩
  | case3 h' l cs hstop hdigits ih =>
    obtain ⟨⟨read', rest'⟩, hscan, heq⟩ := map_eq_ok.1 h
    simp only [Prod.mk.injEq] at heq
    obtain ⟨rfl, rfl⟩ := heq
    obtain ⟨htakes, hhead⟩ := ih hscan
    simp only [Bool.and_eq_true] at hdigits
    exact ⟨.cons (by decide) (.cons (hhex hdigits.1) (.cons (hhex hdigits.2) htakes)), hhead⟩
  | case4 => cases h
  | case5 c cs _ hstop =>
    simp only [Except.ok.injEq, Prod.mk.injEq] at h
    obtain ⟨rfl, rfl⟩ := h
    exact ⟨.nil _, by simpa using hstop⟩
  | case6 => cases h
  | case7 c cs _ _ _ hallowed ih =>
    obtain ⟨⟨read', rest'⟩, hscan, heq⟩ := map_eq_ok.1 h
    simp only [Prod.mk.injEq] at heq
    obtain ⟨rfl, rfl⟩ := heq
    obtain ⟨htakes, hhead⟩ := ih hscan
    exact ⟨.cons (notMem_delimiters ha hallowed) htakes, hhead⟩
  | case8 => cases h

/-! ### Addresses

The readers of addresses return only what is left.  If that holds no delimiter, the text that they were given holds
none. -/

private theorem noDelimiter_of_takeChar? {expected : Char} (he : expected ∉ delimiters) {cs rest : List Char}
    (h : takeChar? expected cs = some rest) (hrest : NoDelimiter rest) : NoDelimiter cs := by
  cases cs with
  | nil => cases h
  | cons c cs =>
    simp only [takeChar?] at h
    split at h
    · rename_i hc
      rw [hc, noDelimiter_cons, Option.some.inj h]
      exact ⟨he, hrest⟩
    · cases h

private theorem noDelimiter_of_takeByte? {cs rest : List Char} (h : takeByte? cs = some rest)
    (hrest : NoDelimiter rest) : NoDelimiter cs := by
  simp only [takeByte?] at h
  split at h
  · cases h
  · rw [(Takes.takeWhile (p := Char.isDigit) (by decide) cs).noDelimiter_iff, Option.some.inj h]
    exact hrest

private theorem noDelimiter_of_takeGroup? {cs rest : List Char} (h : takeGroup? cs = some rest)
    (hrest : NoDelimiter rest) : NoDelimiter cs := by
  simp only [takeGroup?] at h
  split at h
  · cases h
  · rw [(Takes.takeWhile (p := isHexDigit) (by decide) cs).noDelimiter_iff, Option.some.inj h]
    exact hrest

private theorem noDelimiter_of_takeIpv4? {cs rest : List Char} (h : takeIpv4? cs = some rest)
    (hrest : NoDelimiter rest) : NoDelimiter cs := by
  simp only [takeIpv4?, Option.bind_eq_bind, Option.bind_eq_some_iff] at h
  obtain ⟨cs₁, h₁, cs₂, h₂, cs₃, h₃, cs₄, h₄, cs₅, h₅, cs₆, h₆, h₇⟩ := h
  have hdot : '.' ∉ delimiters := by decide
  exact noDelimiter_of_takeByte? h₁ <| noDelimiter_of_takeChar? hdot h₂ <|
    noDelimiter_of_takeByte? h₃ <| noDelimiter_of_takeChar? hdot h₄ <|
    noDelimiter_of_takeByte? h₅ <| noDelimiter_of_takeChar? hdot h₆ <| noDelimiter_of_takeByte? h₇ hrest

private theorem noDelimiter_of_takeGroups (first : Bool) (room : Nat) (cs : List Char)
    (hrest : NoDelimiter (takeGroups first room cs).2.2) : NoDelimiter cs := by
  induction room generalizing first cs with
  | zero => exact hrest
  | succ room ih =>
    -- a group may begin with a colon
    have hstart : ∀ start, (if first then some cs else takeChar? ':' cs) = some start →
        NoDelimiter start → NoDelimiter cs := by
      intro start h
      split at h
      · obtain rfl := Option.some.inj h
        exact id
      · exact noDelimiter_of_takeChar? (by decide) h
    simp only [takeGroups] at hrest
    split at hrest
    · rename_i rest h
      split at h
      · cases h
      · obtain ⟨start, hs, h⟩ := Option.bind_eq_some_iff.1 h
        exact hstart start hs (noDelimiter_of_takeIpv4? h hrest)
    · split at hrest
      · exact hrest
      · rename_i rest h
        obtain ⟨start, hs, h⟩ := Option.bind_eq_some_iff.1 h
        exact hstart start hs (noDelimiter_of_takeGroup? h (ih false rest hrest))

private theorem noDelimiter_of_isIpv6 {cs : List Char} (h : isIpv6 cs = true) : NoDelimiter cs := by
  apply noDelimiter_of_takeGroups true 8
  unfold isIpv6 at h
  split at h
  · rename_i rest heq
    rw [heq, List.isEmpty_iff.1 h]
    exact noDelimiter_nil
  · cases h
  · rename_i count rest _ heq
    have hrest : NoDelimiter rest := by
      apply noDelimiter_of_takeGroups true (7 - count)
      rw [List.isEmpty_iff.1 h]
      exact noDelimiter_nil
    rw [heq, noDelimiter_cons, noDelimiter_cons]
    exact ⟨by decide, by decide, hrest⟩
  · cases h

private theorem noDelimiter_of_futureAddressFault {p : Char → Bool}
    (hp : delimiters.all (fun c => !(p c || c == ':')) = true) {cs : List Char}
    (h : futureAddressFault p cs = none) : NoDelimiter cs := by
  rw [(Takes.takeWhile (p := isHexDigit) (by decide) cs).noDelimiter_iff]
  simp only [futureAddressFault] at h
  split at h
  · cases h
  · rename_i rest heq
    split at h
    · cases h
    · split at h
      · cases h
      · rw [heq, noDelimiter_cons]
        refine ⟨by decide, noDelimiter_of_all hp fun c hc => ?_⟩
        simpa only [Bool.not_eq_true, Bool.not_eq_false'] using List.find?_eq_none.1 h c hc
  · cases h

private theorem noDelimiter_of_checkAddress {address : List Char} (h : checkAddress address = .ok ()) :
    NoDelimiter address := by
  have hfuture : ∀ cs : List Char, futureAddressFault (fun c => c.toNat < 0x80 && isUnreserved c) cs = none →
      NoDelimiter cs := fun _ => noDelimiter_of_futureAddressFault (by decide)
  unfold checkAddress at h
  split at h
  · split at h
    · cases h
    · rename_i hf
      exact noDelimiter_cons.2 ⟨by decide, hfuture _ hf⟩
  · split at h
    · cases h
    · rename_i hf
      exact noDelimiter_cons.2 ⟨by decide, hfuture _ hf⟩
  · split at h
    · rename_i hip
      exact noDelimiter_of_isIpv6 hip
    · cases h

/-! ### Authorities -/

private theorem takes_of_readPort {cs port rest : List Char} (h : readPort cs = .ok (port, rest)) :
    Takes cs port rest := by
  fun_induction readPort cs generalizing port rest with
  | case1 =>
    simp only [Except.ok.injEq, Prod.mk.injEq] at h
    obtain ⟨rfl, rfl⟩ := h
    exact .nil _
  | case2 =>
    simp only [Except.ok.injEq, Prod.mk.injEq] at h
    obtain ⟨rfl, rfl⟩ := h
    exact .nil _
  | case3 c cs _ hdigit ih =>
    obtain ⟨⟨port', rest'⟩, hport, heq⟩ := map_eq_ok.1 h
    simp only [Prod.mk.injEq] at heq
    obtain ⟨rfl, rfl⟩ := heq
    exact .cons (notMem_delimiters (p := Char.isDigit) (by decide) hdigit) (ih hport)
  | case4 => cases h

private theorem takes_of_readOptionalPort {cs port rest : List Char}
    (h : readOptionalPort cs = .ok (port, rest)) : Takes cs port rest := by
  unfold readOptionalPort at h
  split at h
  · obtain ⟨⟨port', rest'⟩, hport, heq⟩ := map_eq_ok.1 h
    simp only [Prod.mk.injEq] at heq
    obtain ⟨rfl, rfl⟩ := heq
    exact .cons (by decide) (takes_of_readPort hport)
  · simp only [Except.ok.injEq, Prod.mk.injEq] at h
    obtain ⟨rfl, rfl⟩ := h
    exact .nil _

private theorem takes_of_readHost {cs host rest : List Char} (h : readHost cs = .ok (host, rest)) :
    Takes cs host rest := by
  unfold readHost at h
  split at h
  · rename_i cs
    dsimp only at h
    split at h
    · cases h
    · rename_i close after heq
      simp only [bind_eq_ok] at h
      obtain ⟨_, haddress, h⟩ := h
      have hport : ∃ port, readOptionalPort after = .ok (port, rest) ∧
          '[' :: cs.takeWhile (· != ']') ++ close :: port = host := by
        split at h
        · split at h
          · simp at h
          · simp only [bind_eq_ok, Prod.exists, pure_eq_ok, Prod.mk.injEq] at h
            obtain ⟨port, _, hport, hhost, rfl⟩ := h
            exact ⟨port, hport, hhost⟩
        · simp only [bind_eq_ok, Prod.exists, pure_eq_ok, Prod.mk.injEq] at h
          obtain ⟨port, _, hport, hhost, rfl⟩ := h
          exact ⟨port, hport, hhost⟩
      obtain ⟨port, hport, rfl⟩ := hport
      rw [drop_length_takeWhile] at heq
      have hclose : close = ']' := by
        have := List.dropWhile_get_zero_not (p := (· != ']')) cs (by simp [heq])
        simpa [heq] using this
      have hcs : Takes cs (cs.takeWhile (· != ']')) (close :: after) :=
        ⟨by rw [← heq, List.takeWhile_append_dropWhile], noDelimiter_of_checkAddress haddress⟩
      exact .cons (by decide) (hcs.trans (.cons (hclose ▸ by decide) (takes_of_readOptionalPort hport)))
  · simp only [bind_eq_ok, Prod.exists, pure_eq_ok, Prod.mk.injEq] at h
    obtain ⟨name, afterName, hname, port, rest', hport, rfl, rfl⟩ := h
    exact (takes_of_scan (by decide) hname).1.trans (takes_of_readOptionalPort hport)

private theorem takes_of_readAuthority {cs authority rest : List Char}
    (h : readAuthority cs = .ok (authority, rest)) : Takes cs authority rest := by
  simp only [readAuthority, bind_eq_ok, Prod.exists] at h
  obtain ⟨user, afterUser, huser, h⟩ := h
  split at h
  · simp only [bind_eq_ok, Prod.exists, pure_eq_ok, Prod.mk.injEq] at h
    obtain ⟨host, rest', hhost, rfl, rfl⟩ := h
    exact (takes_of_scan (by decide) huser).1.trans (.cons (by decide) (takes_of_readHost hhost))
  · exact takes_of_readHost h

/-! ### References -/

private theorem takes_of_readFragment {cs : List Char} {fragment : Option (List Char)}
    (h : readFragment cs = .ok fragment) (hcs : ∀ c ∈ cs.head?, c = '#') :
    Takes cs (fragment.elim [] ('#' :: ·)) [] := by
  unfold readFragment at h
  split at h
  · obtain ⟨⟨read, rest⟩, hscan, rfl⟩ := map_eq_ok.1 h
    obtain ⟨htakes, hrest⟩ := takes_of_scan (by decide) hscan
    cases rest with
    | nil => exact .cons (by decide) htakes
    | cons c rest => simp at hrest
  · rename_i hne
    cases cs with
    | nil =>
      obtain rfl := Except.ok.inj h
      exact .nil _
    | cons c cs => exact absurd (hcs c rfl) fun hc => hne cs (hc ▸ rfl)

private theorem takes_of_readQuery {cs : List Char} {query fragment : Option (List Char)}
    (h : readQuery cs = .ok (query, fragment)) (hcs : ∀ c ∈ cs.head?, endsPath c = true) :
    Takes cs (query.elim [] ('?' :: ·) ++ fragment.elim [] ('#' :: ·)) [] := by
  unfold readQuery at h
  split at h
  · simp only [bind_eq_ok, Prod.exists, pure_eq_ok, Prod.mk.injEq] at h
    obtain ⟨query', rest, hscan, fragment', hfragment, rfl, rfl⟩ := h
    obtain ⟨htakes, hrest⟩ := takes_of_scan (by decide) hscan
    exact .cons (by decide) (htakes.trans (takes_of_readFragment hfragment (by simpa using hrest)))
  · rename_i hne
    simp only [bind_eq_ok, pure_eq_ok, Prod.mk.injEq] at h
    obtain ⟨fragment', hfragment, rfl, rfl⟩ := h
    refine takes_of_readFragment hfragment fun c hc => ?_
    cases cs with
    | nil => cases hc
    | cons d cs =>
      obtain rfl : d = c := by simpa using hc
      have := hcs d rfl
      simp only [endsPath, Bool.or_eq_true, beq_iff_eq] at this
      exact this.resolve_left fun hd => hne cs (hd ▸ rfl)

private theorem takes_of_readAfterScheme {cs : List Char} {authority query fragment : Option (List Char)}
    {path : List Char} (h : readAfterScheme cs = .ok (authority, path, query, fragment)) :
    Takes cs (authority.elim [] (['/', '/'] ++ ·) ++
      (path ++ (query.elim [] ('?' :: ·) ++ fragment.elim [] ('#' :: ·)))) [] := by
  unfold readAfterScheme at h
  split at h
  · simp only [bind_eq_ok, Prod.exists, pure_eq_ok, Prod.mk.injEq] at h
    obtain ⟨authority', afterAuthority, hauthority, path', rest, hpath, query', fragment', hquery, rfl, rfl, rfl, rfl⟩ :=
      h
    obtain ⟨htakes, hrest⟩ := takes_of_scan (by decide) hpath
    exact .cons (by decide) <| .cons (by decide) <| (takes_of_readAuthority hauthority).trans <|
      htakes.trans (takes_of_readQuery hquery hrest)
  · simp only [bind_eq_ok, Prod.exists, pure_eq_ok, Prod.mk.injEq] at h
    obtain ⟨path', rest, hpath, query', fragment', hquery, rfl, rfl, rfl, rfl⟩ := h
    obtain ⟨htakes, hrest⟩ := takes_of_scan (by decide) hpath
    exact htakes.trans (takes_of_readQuery hquery hrest)

private theorem takes_of_splitScheme? {cs scheme rest : List Char} (h : splitScheme? cs = some (scheme, rest)) :
    Takes cs (scheme ++ [':']) rest ∧ ∃ c ∈ cs.head?, c.isAlpha = true := by
  unfold splitScheme? at h
  split at h
  · cases h
  · rename_i c cs
    dsimp only at h
    split at h
    · rename_i after heq
      split at h
      · rename_i hc
        simp only [Option.some.injEq, Prod.mk.injEq] at h
        obtain ⟨rfl, rfl⟩ := h
        have hscheme := Takes.takeWhile
          (p := fun d => d.isAlphanum || d == '+' || d == '-' || d == '.') (by decide) cs
        rw [heq] at hscheme
        exact ⟨.cons (notMem_delimiters (p := Char.isAlpha) (by decide) hc)
          (hscheme.trans (.cons (by decide) (.nil _))), c, rfl, hc⟩
      · cases h
    · cases h

/-- An absolute IRI consists of its parts and begins with a letter. -/
theorem takes_of_readAbsolute {cs : List Char} {r : Reference} (h : readAbsolute cs = .ok r) :
    Takes cs r.text [] ∧ ∃ c ∈ cs.head?, c.isAlpha = true := by
  simp only [readAbsolute, Reference.read, bind_eq_ok] at h
  obtain ⟨r', hread, h⟩ := h
  split at hread
  · rename_i scheme rest hscheme
    simp only [bind_eq_ok, Prod.exists, pure_eq_ok] at hread
    obtain ⟨authority, path, query, fragment, hparts, rfl⟩ := hread
    simp only [Option.isNone_some, Bool.false_eq_true, ↓reduceIte, pure_eq_ok] at h
    subst h
    obtain ⟨htakes, hhead⟩ := takes_of_splitScheme? hscheme
    have htext := htakes.trans (takes_of_readAfterScheme hparts)
    simp only [← List.append_assoc] at htext
    exact ⟨htext, hhead⟩
  · have hscheme : r'.scheme = none := by
      split at hread
      · simp at hread
      · simp only [bind_eq_ok, pure_eq_ok] at hread
        obtain ⟨-, -, parts, -, rfl⟩ := hread
        rfl
    simp [hscheme] at h

/-- An absolute IRI is read, and its parts give its text. -/
theorem exists_readAbsolute {cs : List Char} (h : check cs = .ok ()) : ∃ r, readAbsolute cs = .ok r ∧ r.text = cs := by
  simp only [check, bind_eq_ok] at h
  obtain ⟨r, hread, -⟩ := h
  exact ⟨r, hread, (takes_of_readAbsolute hread).1.eq⟩

/-- An absolute IRI holds no delimiter and begins with a letter. -/
theorem noDelimiter_and_isAlpha_of_check {cs : List Char} (h : check cs = .ok ()) :
    NoDelimiter cs ∧ ∃ c ∈ cs.head?, c.isAlpha = true := by
  simp only [check, bind_eq_ok] at h
  obtain ⟨r, hread, -⟩ := h
  obtain ⟨htakes, hhead⟩ := takes_of_readAbsolute hread
  exact ⟨htakes.noDelimiter_iff.2 noDelimiter_nil, hhead⟩

end Iri

end RdfDataset
