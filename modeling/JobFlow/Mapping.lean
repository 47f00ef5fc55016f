import JobFlow.Sorted

/-!
Mappings from names to values that remember the order in which the names came. A name that is
given a second value keeps its place.
-/

set_option autoImplicit false

namespace JobFlow

/-- Entries in the order of their keys' first appearance, each key once. -/
structure Mapping (α : Type) where
  entries : List (String × α)
  nodup : (entries.map Prod.fst).Nodup

namespace Mapping

variable {α β : Type}

def empty : Mapping α :=
  ⟨[], List.nodup_nil⟩

instance : EmptyCollection (Mapping α) :=
  ⟨empty⟩

instance : Inhabited (Mapping α) :=
  ⟨empty⟩

def isEmpty (m : Mapping α) : Bool :=
  m.entries.isEmpty

def keys (m : Mapping α) : List String :=
  m.entries.map Prod.fst

/-- Gives `key` a value where it stands, or at the end when it is new. -/
def put (key : String) (value : α) : List (String × α) → List (String × α)
  | [] => [(key, value)]
  | entry :: rest =>
    if entry.1 = key then (key, value) :: rest else entry :: put key value rest

/-- A put changes the list of keys only when the key is new. -/
theorem map_fst_put (key : String) (value : α) (entries : List (String × α)) :
    (put key value entries).map Prod.fst =
      if key ∈ entries.map Prod.fst then entries.map Prod.fst
      else entries.map Prod.fst ++ [key] := by
  induction entries with
  | nil => simp [put]
  | cons entry rest ih =>
    by_cases same : entry.1 = key
    · simp [put, same]
    · have other : ¬ key = entry.1 := fun h => same h.symm
      by_cases known : key ∈ rest.map Prod.fst
      · simp [put, same, other, ih, known]
      · simp [put, same, other, ih, known]

theorem nodup_put (key : String) (value : α) {entries : List (String × α)}
    (h : (entries.map Prod.fst).Nodup) : ((put key value entries).map Prod.fst).Nodup := by
  rw [map_fst_put]
  split
  · exact h
  · next fresh =>
    rw [List.nodup_append]
    refine ⟨h, by simp, ?_⟩
    intro a inOld b inNew same
    subst same
    exact fresh (List.mem_singleton.1 inNew ▸ inOld)

def insert (m : Mapping α) (key : String) (value : α) : Mapping α :=
  ⟨put key value m.entries, nodup_put key value m.nodup⟩

def insertAll (m : Mapping α) (entries : List (String × α)) : Mapping α :=
  entries.foldl (fun m entry => m.insert entry.1 entry.2) m

def ofList (entries : List (String × α)) : Mapping α :=
  empty.insertAll entries

def find? (m : Mapping α) (key : String) : Option α :=
  m.entries.lookup key

/-- The same keys with other values. -/
def map (f : α → β) (m : Mapping α) : Mapping β :=
  ⟨m.entries.map fun entry => (entry.1, f entry.2), by
    rw [List.map_map]
    exact m.nodup⟩

/-- The entries in increasing order of their keys. -/
def sorted (m : Mapping α) : List (String × α) :=
  Sorted.sort (fun a b => decide (a.1 ≤ b.1)) m.entries

/-- A mapping keeps its keys when a known one is set, and gains a new one at the end. -/
theorem keys_insert (m : Mapping α) (key : String) (value : α) :
    (m.insert key value).keys = if key ∈ m.keys then m.keys else m.keys ++ [key] :=
  map_fst_put key value m.entries

/-- A key that was set has its new value, and every other key the old one. -/
theorem find?_insert (m : Mapping α) (key other : String) (value : α) :
    (m.insert key value).find? other = if other = key then some value else m.find? other := by
  show (put key value m.entries).lookup other = _
  unfold find?
  induction m.entries with
  | nil =>
    by_cases same : other = key
    · simp [put, same]
    · simp [put, List.lookup_cons, same, beq_eq_false_iff_ne.2 same]
  | cons entry rest ih =>
    obtain ⟨first, old⟩ := entry
    by_cases here : first = key
    · by_cases same : other = key
      · simp [put, here, same]
      · simp [put, here, List.lookup_cons, same, beq_eq_false_iff_ne.2 same]
    · by_cases same : other = first
      · simp [put, same, here]
      · simpa [put, here, List.lookup_cons, same, beq_eq_false_iff_ne.2 same] using ih

theorem find?_of_mem {m : Mapping α} {key : String} {value : α} (h : (key, value) ∈ m.entries) :
    m.find? key = some value := by
  obtain ⟨before, after, split⟩ := List.append_of_mem h
  have distinct := m.nodup
  rw [split, List.map_append, List.nodup_append] at distinct
  refine List.lookup_eq_some_iff.2 ⟨before, after, split, ?_⟩
  intro entry earlier
  have other := distinct.2.2 entry.1 (List.mem_map_of_mem earlier) key (by simp)
  simpa [bne_iff_ne] using Ne.symm other

/-- After a put, every entry is the one that was put or one from before. -/
theorem mem_put {key : String} {value : α} {entries : List (String × α)} {entry : String × α}
    (h : entry ∈ put key value entries) : entry = (key, value) ∨ entry ∈ entries := by
  induction entries with
  | nil => exact Or.inl (List.mem_singleton.1 h)
  | cons first rest ih =>
    unfold put at h
    split at h
    · rcases List.mem_cons.1 h with here | later
      · exact Or.inl here
      · exact Or.inr (List.mem_cons_of_mem first later)
    · rcases List.mem_cons.1 h with rfl | later
      · exact Or.inr List.mem_cons_self
      · exact (ih later).imp_right (List.mem_cons_of_mem first)

theorem mem_keys_insert {m : Mapping α} {key other : String} {value : α} :
    other ∈ (m.insert key value).keys ↔ other = key ∨ other ∈ m.keys := by
  rw [keys_insert]
  split
  · next known => exact ⟨Or.inr, fun h => h.elim (fun same => same ▸ known) id⟩
  · rw [List.mem_append, List.mem_singleton, or_comm]

theorem mem_keys_insertAll {m : Mapping α} {entries : List (String × α)} {key : String} :
    key ∈ (m.insertAll entries).keys ↔ key ∈ m.keys ∨ key ∈ entries.map Prod.fst := by
  induction entries generalizing m with
  | nil => simp [insertAll]
  | cons first rest ih =>
    show key ∈ ((m.insert first.1 first.2).insertAll rest).keys ↔ _
    rw [ih, mem_keys_insert, List.map_cons, List.mem_cons, or_assoc, or_left_comm]

/-- The keys of a mapping made from a list are those of the list. -/
theorem mem_keys_ofList {entries : List (String × α)} {key : String} :
    key ∈ (ofList entries).keys ↔ key ∈ entries.map Prod.fst := by
  rw [ofList, mem_keys_insertAll]
  exact or_iff_right List.not_mem_nil

theorem mem_of_mem_insertAll {m : Mapping α} {entries : List (String × α)} {entry : String × α}
    (h : entry ∈ (m.insertAll entries).entries) : entry ∈ m.entries ∨ entry ∈ entries := by
  induction entries generalizing m with
  | nil => exact Or.inl h
  | cons first rest ih =>
    rcases ih (m := m.insert first.1 first.2) h with inserted | later
    · rcases mem_put inserted with rfl | before
      · exact Or.inr List.mem_cons_self
      · exact Or.inl before
    · exact Or.inr (List.mem_cons_of_mem first later)

/-- Every entry of a mapping made from a list is one of the list. -/
theorem mem_of_mem_ofList {entries : List (String × α)} {entry : String × α}
    (h : entry ∈ (ofList entries).entries) : entry ∈ entries :=
  (mem_of_mem_insertAll h).resolve_left List.not_mem_nil

/-- Every key has a value. -/
theorem exists_find?_of_mem_keys {m : Mapping α} {key : String} (h : key ∈ m.keys) :
    ∃ value, m.find? key = some value := by
  obtain ⟨⟨_, value⟩, isEntry, rfl⟩ := List.mem_map.1 h
  exact ⟨value, find?_of_mem isEntry⟩

/-- Nothing else has one. -/
theorem find?_eq_none {m : Mapping α} {key : String} (h : key ∉ m.keys) : m.find? key = none := by
  cases found : m.find? key with
  | none => rfl
  | some value =>
    obtain ⟨before, after, split, _⟩ := List.lookup_eq_some_iff.1 found
    exact absurd (List.mem_map_of_mem (split ▸ List.mem_append_right before List.mem_cons_self)) h

/-- A key that is listed with one value only, however often, has this value. -/
theorem find?_ofList_of_mem {entries : List (String × α)} {key : String} {value : α}
    (h : (key, value) ∈ entries) (one : ∀ other, (key, other) ∈ entries → other = value) :
    (ofList entries).find? key = some value := by
  have known : key ∈ (ofList entries).keys := mem_keys_ofList.2 (List.mem_map_of_mem h)
  obtain ⟨⟨_, found⟩, isEntry, rfl⟩ := List.mem_map.1 known
  rw [find?_of_mem isEntry]
  exact congrArg some (one found (mem_of_mem_ofList isEntry))

/-- Sorting loses and repeats nothing. -/
theorem sorted_perm (m : Mapping α) : m.sorted.Perm m.entries :=
  Sorted.sort_perm ..

/-- Keys come out in order. -/
theorem pairwise_sorted (m : Mapping α) : m.sorted.Pairwise fun a b => a.1 ≤ b.1 := by
  have ordered : m.sorted.Pairwise fun a b => decide (a.1 ≤ b.1) = true :=
    Sorted.pairwise_sort (fun a b c => by simpa using String.le_trans)
      (fun a b => by simpa using String.le_total a.1 b.1) m.entries
  exact ordered.imp fun h => by simpa using h

end Mapping

end JobFlow
