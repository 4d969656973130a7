/-!
# Finite maps in the order of their keys

A map is the list of its entries with strictly increasing keys, and the order is part of the type.
Each map therefore has one representation: two maps are equal exactly when they agree on every key,
and listing a map needs no sorting. Insertion and removal walk the list once and hand back the value
that the key had before.
-/

namespace LSystem

/-- A finite map from `κ` to `α`, listed by strictly increasing key. -/
structure SortedMap (κ α : Type) [LT κ] where
  /-- The entries of the map, by strictly increasing key. -/
  toList : List (κ × α)
  ordered : toList.Pairwise fun a b => a.1 < b.1
deriving DecidableEq

namespace SortedMap

variable {κ α : Type} [DecidableEq κ]

section Entries

/-- Takes the entry with the given key out of a list; its value is the first component. -/
def takeEntry (key : κ) : List (κ × α) → Option α × List (κ × α)
  | [] => (none, [])
  | (k, v) :: rest =>
    if key = k then (some v, rest)
    else
      let (previous, entries) := takeEntry key rest
      (previous, (k, v) :: entries)

theorem takeEntry_sublist (key : κ) (entries : List (κ × α)) :
    (takeEntry key entries).2.Sublist entries := by
  induction entries with
  | nil => exact .slnil
  | cons head rest ih =>
    rw [takeEntry]
    split
    · exact List.sublist_cons_self _ _
    · exact ih.cons_cons _

variable [LT κ] [DecidableLT κ]

/-- Puts an entry at its place in an ordered list of entries. An entry with the same key gives way
and its value is the first component of the result. -/
def putEntry (key : κ) (value : α) : List (κ × α) → Option α × List (κ × α)
  | [] => (none, [(key, value)])
  | (k, v) :: rest =>
    if key < k then (none, (key, value) :: (k, v) :: rest)
    else if key = k then (some v, (key, value) :: rest)
    else
      let (previous, entries) := putEntry key value rest
      (previous, (k, v) :: entries)

theorem key_of_mem_putEntry {key : κ} {value : α} {entry : κ × α} {entries : List (κ × α)}
    (hmem : entry ∈ (putEntry key value entries).2) : entry.1 = key ∨ entry ∈ entries := by
  induction entries with
  | nil => exact .inl (by simp_all [putEntry])
  | cons head rest ih =>
    obtain ⟨k, v⟩ := head
    rw [putEntry] at hmem
    split at hmem
    · rcases List.mem_cons.1 hmem with rfl | hmem
      · exact .inl rfl
      · exact .inr hmem
    · split at hmem
      · rcases List.mem_cons.1 hmem with rfl | hmem
        · exact .inl rfl
        · exact .inr (List.mem_cons_of_mem _ hmem)
      · rcases List.mem_cons.1 hmem with rfl | hmem
        · exact .inr List.mem_cons_self
        · exact (ih hmem).imp_right (List.mem_cons_of_mem _)

omit [DecidableLT κ] in
theorem takeEntry_ordered {key : κ} {entries : List (κ × α)}
    (hordered : entries.Pairwise fun a b => a.1 < b.1) :
    (takeEntry key entries).2.Pairwise fun a b => a.1 < b.1 :=
  hordered.sublist (takeEntry_sublist key entries)

end Entries

variable [LE κ] [LT κ] [DecidableLT κ] [Std.IsLinearOrder κ] [Std.LawfulOrderLT κ]

theorem putEntry_ordered {key : κ} {value : α} {entries : List (κ × α)}
    (hordered : entries.Pairwise fun a b => a.1 < b.1) :
    (putEntry key value entries).2.Pairwise fun a b => a.1 < b.1 := by
  induction entries with
  | nil => exact List.pairwise_singleton _ _
  | cons head rest ih =>
    obtain ⟨k, v⟩ := head
    obtain ⟨hhead, hrest⟩ := List.pairwise_cons.1 hordered
    rw [putEntry]
    split
    · rename_i hlt
      refine List.pairwise_cons.2 ⟨fun entry hmem => ?_, hordered⟩
      rcases List.mem_cons.1 hmem with rfl | hmem
      · exact hlt
      · exact Std.lt_trans hlt (hhead entry hmem)
    · split
      · rename_i heq
        subst heq
        exact List.pairwise_cons.2 ⟨hhead, hrest⟩
      · rename_i hle hne
        refine List.pairwise_cons.2 ⟨fun entry hmem => ?_, ih hrest⟩
        rcases key_of_mem_putEntry hmem with hkey | hmem
        · rw [hkey]
          exact Std.lt_of_le_of_ne (Std.not_lt.1 hle) (Ne.symm hne)
        · exact hhead entry hmem

def empty : SortedMap κ α := ⟨[], .nil⟩

instance : Inhabited (SortedMap κ α) := ⟨empty⟩

def get? (m : SortedMap κ α) (key : κ) : Option α := m.toList.lookup key

def size (m : SortedMap κ α) : Nat := m.toList.length

def isEmpty (m : SortedMap κ α) : Bool := m.toList.isEmpty

/-- Sets the value at a key, and gives the value that it had before. -/
def exchange (m : SortedMap κ α) (key : κ) (value : α) : Option α × SortedMap κ α :=
  let entries := putEntry key value m.toList
  (entries.1, ⟨entries.2, putEntry_ordered m.ordered⟩)

def insert (m : SortedMap κ α) (key : κ) (value : α) : SortedMap κ α :=
  (m.exchange key value).2

/-- Removes a key, and gives the value that it had. -/
def extract (m : SortedMap κ α) (key : κ) : Option α × SortedMap κ α :=
  let entries := takeEntry key m.toList
  (entries.1, ⟨entries.2, takeEntry_ordered m.ordered⟩)

/-- The map that a list of pairs stands for: of two pairs with one key the later counts. -/
def ofList (pairs : List (κ × α)) : SortedMap κ α :=
  pairs.foldl (fun m pair => m.insert pair.1 pair.2) empty

/-- The map with the same keys whose values are computed from key and value. -/
def mapValues {β : Type} (f : κ → α → β) (m : SortedMap κ α) : SortedMap κ β where
  toList := m.toList.map fun entry => (entry.1, f entry.1 entry.2)
  ordered := List.pairwise_map.2 m.ordered

omit [LE κ] [DecidableLT κ] [Std.IsLinearOrder κ] [Std.LawfulOrderLT κ] in
theorem get?_mapValues {β : Type} (f : κ → α → β) (m : SortedMap κ α) (key : κ) :
    (m.mapValues f).get? key = (m.get? key).map (f key) := by
  obtain ⟨entries, hordered⟩ := m
  simp only [get?, mapValues]
  clear hordered
  induction entries with
  | nil => rfl
  | cons head rest ih =>
    rw [List.map_cons, List.lookup_cons, List.lookup_cons, ih]
    by_cases hkey : key = head.1
    · simp [hkey]
    · simp [beq_false_of_ne hkey]

end SortedMap

end LSystem
