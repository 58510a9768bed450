import Std.Data.TreeMap

/-!
# Tables

A table keeps values by numbers.  In which order it lists them is its own affair: where a key stands depends on all that
the table has gone through, so two tables with the same entries may list them differently.  A key that is put in again
stays where it is.

* `Arrangement`: how tables put their keys in order.  Everything else is stated for every arrangement.
* `Table.insert` and `Table.erase` change a table, `table[key]?` looks a key up, `Table.toList` and `Table.keys` list
  what is there.
* `Table.ascending` is one arrangement, by which tables list their keys in increasing order.
-/

namespace RdfDataset

/-- How tables put their keys in order.  A layout is what a table remembers of the keys that have come and gone; from
it follows where the keys stand. -/
class Arrangement where
  Layout : Type
  /-- The layout of a new table, which can depend on what it is made for. -/
  empty : Type → Layout
  insert : Nat → Layout → Layout
  erase : Nat → Layout → Layout
  /-- The keys in the order of a layout. -/
  arrange : Layout → List Nat → List Nat
  arrange_perm : ∀ layout keys, (arrange layout keys).Perm keys

/-- Values by their keys, in some layout. -/
structure Table [Arrangement] (β : Type) where
  entries : Std.TreeMap Nat β := ∅
  layout : Arrangement.Layout := Arrangement.empty β

namespace Table

variable [Arrangement] {β : Type}

instance : EmptyCollection (Table β) := ⟨{}⟩

instance : Inhabited (Table β) := ⟨∅⟩

instance : Membership Nat (Table β) := ⟨fun t key => key ∈ t.entries⟩

instance : GetElem? (Table β) Nat β fun t key => key ∈ t where
  getElem t key h := t.entries.get key h
  getElem? t key := t.entries[key]?

def contains (t : Table β) (key : Nat) : Bool :=
  t.entries.contains key

/-- Puts a value in.  Only a key that is new changes the layout. -/
def insert (t : Table β) (key : Nat) (value : β) : Table β where
  entries := t.entries.insert key value
  layout := if t.contains key then t.layout else Arrangement.insert key t.layout

/-- Takes a key out with its value, if it is there. -/
def erase (t : Table β) (key : Nat) : Table β where
  entries := t.entries.erase key
  layout := if t.contains key then Arrangement.erase key t.layout else t.layout

def isEmpty (t : Table β) : Bool :=
  t.entries.isEmpty

/-- The number of keys. -/
def size (t : Table β) : Nat :=
  t.entries.size

/-- The keys in the order of the layout. -/
def keys (t : Table β) : List Nat :=
  Arrangement.arrange t.layout t.entries.keys

/-- The keys with their values, in the order of the layout. -/
def toList (t : Table β) : List (Nat × β) :=
  t.keys.filterMap fun key => t[key]?.map (key, ·)

/-! ### Looking keys up -/

variable {t : Table β} {key : Nat} {value : β}

theorem isSome_getElem?_iff_mem : t[key]?.isSome = true ↔ key ∈ t :=
  Std.TreeMap.isSome_getElem?_iff_mem

theorem mem_iff_exists : key ∈ t ↔ ∃ value, t[key]? = some value := by
  rw [← isSome_getElem?_iff_mem, Option.isSome_iff_exists]

theorem contains_iff_mem : t.contains key = true ↔ key ∈ t :=
  Std.TreeMap.contains_iff_mem

@[simp]
theorem getElem?_empty (key : Nat) : (∅ : Table β)[key]? = none :=
  Std.TreeMap.getElem?_emptyc

@[simp]
theorem contains_empty (key : Nat) : (∅ : Table β).contains key = false :=
  Std.TreeMap.contains_emptyc

@[simp]
theorem notMem_empty (key : Nat) : key ∉ (∅ : Table β) :=
  Std.TreeMap.not_mem_emptyc

theorem getElem?_insert (t : Table β) (key : Nat) (value : β) (other : Nat) :
    (t.insert key value)[other]? = if other = key then some value else t[other]? := by
  refine (Std.TreeMap.getElem?_insert (t := t.entries)).trans ?_
  simp only [Std.compare_eq_iff_eq, eq_comm (a := key)]
  rfl

theorem getElem?_erase (t : Table β) (key other : Nat) :
    (t.erase key)[other]? = if other = key then none else t[other]? := by
  refine (Std.TreeMap.getElem?_erase (t := t.entries)).trans ?_
  simp only [Std.compare_eq_iff_eq, eq_comm (a := key)]
  rfl

theorem mem_insert {other : Nat} : other ∈ t.insert key value ↔ other = key ∨ other ∈ t := by
  rw [← isSome_getElem?_iff_mem, getElem?_insert]
  split
  · simp_all
  · simp_all [isSome_getElem?_iff_mem]

theorem mem_erase {other : Nat} : other ∈ t.erase key ↔ other ≠ key ∧ other ∈ t := by
  rw [← isSome_getElem?_iff_mem, getElem?_erase]
  split
  · simp_all
  · simp_all [isSome_getElem?_iff_mem]

/-! ### Empty tables -/

theorem isEmpty_iff_forall_notMem : t.isEmpty = true ↔ ∀ key, key ∉ t :=
  Std.TreeMap.isEmpty_iff_forall_not_mem

theorem getElem?_of_isEmpty (h : t.isEmpty = true) (key : Nat) : t[key]? = none :=
  Std.TreeMap.getElem?_of_isEmpty h

theorem isEmpty_eq_false_iff_exists_mem : t.isEmpty = false ↔ ∃ key, key ∈ t :=
  Std.TreeMap.isEmpty_eq_false_iff_exists_mem

theorem isEmpty_insert (t : Table β) (key : Nat) (value : β) : (t.insert key value).isEmpty = false :=
  isEmpty_eq_false_iff_exists_mem.2 ⟨key, mem_insert.2 (.inl rfl)⟩

/-! ### Listing -/

theorem mem_keys : key ∈ t.keys ↔ key ∈ t :=
  (Arrangement.arrange_perm _ _).mem_iff.trans Std.TreeMap.mem_keys

/-- No key is listed twice, whatever the order is. -/
theorem nodup_keys (t : Table β) : t.keys.Nodup :=
  (Arrangement.arrange_perm _ _).nodup_iff.2 Std.TreeMap.nodup_keys

theorem length_keys (t : Table β) : t.keys.length = t.size :=
  (Arrangement.arrange_perm _ _).length_eq.trans Std.TreeMap.length_keys

theorem mem_toList : (key, value) ∈ t.toList ↔ t[key]? = some value := by
  simp only [toList, List.mem_filterMap, Option.map_eq_some_iff, Prod.mk.injEq]
  constructor
  · rintro ⟨_, -, _, h, rfl, rfl⟩
    exact h
  · intro h
    exact ⟨key, mem_keys.2 (mem_iff_exists.2 ⟨value, h⟩), value, h, rfl, rfl⟩

/-- Every key is listed with its value. -/
theorem map_fst_toList (t : Table β) : t.toList.map (·.1) = t.keys := by
  have hall : ∀ keys : List Nat, (∀ key ∈ keys, key ∈ t) →
      (keys.filterMap fun key => t[key]?.map (key, ·)).map (·.1) = keys := by
    intro keys hkeys
    induction keys with
    | nil => rfl
    | cons key keys ih =>
      obtain ⟨value, hvalue⟩ := mem_iff_exists.1 (hkeys key List.mem_cons_self)
      simp only [List.filterMap_cons, hvalue, Option.map_some, List.map_cons]
      rw [ih fun k hk => hkeys k (List.mem_cons_of_mem key hk)]
  exact hall _ fun _ => mem_keys.1

theorem toList_empty : (∅ : Table β).toList = [] := by
  rw [List.eq_nil_iff_forall_not_mem]
  rintro ⟨key, value⟩ h
  simp [mem_toList] at h

end Table

/-- Tables that list their keys in increasing order, whatever they have gone through. -/
instance (priority := low) Table.ascending : Arrangement where
  Layout := Unit
  empty _ := ()
  insert _ _ := ()
  erase _ _ := ()
  arrange _ keys := keys
  arrange_perm _ keys := .refl keys

end RdfDataset
