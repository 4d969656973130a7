import LSystem.SortedMap
import Mathlib.Data.List.Nodup

/-!
# Laws of finite maps

What a map answers after an insertion or a removal, what a list of pairs answers as a map, and that
a list in increasing order of its keys is the map it stands for. A map is known from what it answers
(`ext_get?`), so it is also known from its entries in any other order (`ofList_of_perm`). These hold
of every linear order; nothing else about maps is used in the proofs about grammars, sizes and
documents.
-/

namespace LSystem.SortedMap

variable {κ α : Type} [DecidableEq κ]

theorem lookup_cons_eq_ite (key other : κ) (value : α) (entries : List (κ × α)) :
    ((key, value) :: entries).lookup other =
      if other = key then some value else entries.lookup other := by
  by_cases hkey : other = key
  · simp [hkey]
  · rw [List.lookup_cons, beq_false_of_ne hkey, if_neg hkey]

/-- Where no key comes twice, looking a key up finds just the entries that there are. -/
theorem lookup_eq_some_iff_mem {key : κ} {value : α} {entries : List (κ × α)}
    (hkeys : (entries.map Prod.fst).Nodup) :
    entries.lookup key = some value ↔ (key, value) ∈ entries := by
  induction entries with
  | nil => simp
  | cons head rest ih =>
    obtain ⟨k, v⟩ := head
    obtain ⟨hhead, hrest⟩ := List.nodup_cons.1 hkeys
    rw [lookup_cons_eq_ite, List.mem_cons, Prod.mk.injEq]
    by_cases hkey : key = k
    · have hnot : (key, value) ∉ rest := fun hmem => hhead (List.mem_map.2 ⟨_, hmem, hkey⟩)
      simp [hkey, hkey ▸ hnot, eq_comm]
    · simp [hkey, ih hrest]

/-- Where no key comes twice, taking an entry out leaves no other entry with its key. -/
theorem lookup_takeEntry (key other : κ) {entries : List (κ × α)}
    (hkeys : (entries.map Prod.fst).Nodup) :
    (takeEntry key entries).2.lookup other =
      if other = key then none else entries.lookup other := by
  induction entries with
  | nil => simp [takeEntry]
  | cons head rest ih =>
    obtain ⟨k, v⟩ := head
    obtain ⟨hhead, hrest⟩ := List.nodup_cons.1 hkeys
    rw [takeEntry, lookup_cons_eq_ite]
    split
    · rename_i heq
      subst heq
      by_cases hkey : other = key
      · have hnone : rest.lookup key = none := by
          rw [List.lookup_eq_none_iff]
          intro entry hmem
          exact bne_iff_ne.2 fun hsame => hhead (List.mem_map.2 ⟨entry, hmem, hsame.symm⟩)
        rw [hkey, if_pos rfl, hnone]
      · rw [if_neg hkey, if_neg hkey]
    · rename_i hne
      rw [lookup_cons_eq_ite, ih hrest]
      by_cases hkey : other = key
      · simp [hkey, hne]
      · simp [hkey]

theorem fst_takeEntry (key : κ) (entries : List (κ × α)) :
    (takeEntry key entries).1 = entries.lookup key := by
  induction entries with
  | nil => rfl
  | cons head rest ih =>
    obtain ⟨k, v⟩ := head
    rw [takeEntry, lookup_cons_eq_ite]
    split
    · rfl
    · exact ih

variable [LT κ]

omit [DecidableEq κ] in
theorem eq_of_toList_eq {m n : SortedMap κ α} (hlist : m.toList = n.toList) : m = n := by
  cases m
  cases n
  cases hlist
  rfl

theorem mem_toList_of_get? {m : SortedMap κ α} {key : κ} {value : α}
    (hget : m.get? key = some value) : (key, value) ∈ m.toList := by
  obtain ⟨front, back, hsplit, -⟩ := List.lookup_eq_some_iff.1 hget
  rw [hsplit]
  exact List.mem_append_right front List.mem_cons_self

variable [DecidableLT κ]

theorem lookup_putEntry (key other : κ) (value : α) (entries : List (κ × α)) :
    (putEntry key value entries).2.lookup other =
      if other = key then some value else entries.lookup other := by
  induction entries with
  | nil => exact lookup_cons_eq_ite key other value []
  | cons head rest ih =>
    obtain ⟨k, v⟩ := head
    rw [putEntry]
    split
    · exact lookup_cons_eq_ite key other value ((k, v) :: rest)
    · split
      · rename_i heq
        subst heq
        rw [lookup_cons_eq_ite, lookup_cons_eq_ite]
        by_cases hkey : other = key <;> simp [hkey]
      · rename_i hne
        rw [lookup_cons_eq_ite, lookup_cons_eq_ite, ih]
        by_cases hkey : other = key
        · simp [hkey, hne]
        · simp [hkey]

/-- An entry with a larger key than all others goes to the end. -/
theorem putEntry_of_forall_lt [Std.Irrefl (α := κ) (· < ·)] [Std.Asymm (α := κ) (· < ·)] {key : κ}
    (value : α) {entries : List (κ × α)} (hlt : ∀ entry ∈ entries, entry.1 < key) :
    (putEntry key value entries).2 = entries ++ [(key, value)] := by
  induction entries with
  | nil => rfl
  | cons head rest ih =>
    obtain ⟨k, v⟩ := head
    have hhead : k < key := hlt (k, v) List.mem_cons_self
    have hrest := ih fun entry hmem => hlt entry (List.mem_cons_of_mem _ hmem)
    rw [putEntry, if_neg (Std.not_gt_of_lt hhead), if_neg (Std.ne_of_lt hhead).symm]
    exact congrArg ((k, v) :: ·) hrest

variable [LE κ] [Std.IsLinearOrder κ] [Std.LawfulOrderLT κ]

/-- In an ordered list the search for an entry may end at the first larger key. -/
theorem fst_putEntry (key : κ) (value : α) {entries : List (κ × α)}
    (hordered : entries.Pairwise fun a b => a.1 < b.1) :
    (putEntry key value entries).1 = entries.lookup key := by
  induction entries with
  | nil => rfl
  | cons head rest ih =>
    obtain ⟨k, v⟩ := head
    obtain ⟨hhead, hrest⟩ := List.pairwise_cons.1 hordered
    rw [putEntry, lookup_cons_eq_ite]
    split
    · next hlt =>
      have hnone : rest.lookup key = none := by
        rw [List.lookup_eq_none_iff]
        intro entry hmem
        exact bne_iff_ne.2 (Std.ne_of_lt (Std.lt_trans hlt (hhead entry hmem)))
      rw [if_neg (Std.ne_of_lt hlt), hnone]
    · split
      · rfl
      · exact ih hrest

theorem fst_exchange (m : SortedMap κ α) (key : κ) (value : α) :
    (m.exchange key value).1 = m.get? key :=
  fst_putEntry key value m.ordered

omit [DecidableLT κ] [Std.IsLinearOrder κ] [Std.LawfulOrderLT κ] [LE κ] in
theorem fst_extract (m : SortedMap κ α) (key : κ) : (m.extract key).1 = m.get? key :=
  fst_takeEntry key m.toList

theorem get?_insert (m : SortedMap κ α) (key other : κ) (value : α) :
    (m.insert key value).get? other = if other = key then some value else m.get? other :=
  lookup_putEntry key other value m.toList

/-- Of two pairs with one key the later counts. -/
theorem get?_ofList (pairs : List (κ × α)) (key : κ) :
    (ofList pairs).get? key = pairs.reverse.lookup key := by
  suffices h : ∀ m : SortedMap κ α,
      (pairs.foldl (fun m pair => m.insert pair.1 pair.2) m).get? key =
        (pairs.reverse.lookup key).or (m.get? key) by
    simpa [ofList, empty, get?] using h empty
  induction pairs with
  | nil => intro m; simp
  | cons pair pairs ih =>
    obtain ⟨k, v⟩ := pair
    intro m
    rw [List.foldl_cons, ih, get?_insert, List.reverse_cons, List.lookup_append, Option.or_assoc,
      lookup_cons_eq_ite]
    by_cases hkey : key = k <;> simp [hkey]

/-- Pairs in the order of their keys are the entries of the map that they stand for. -/
theorem toList_ofList {pairs : List (κ × α)} (hordered : pairs.Pairwise fun a b => a.1 < b.1) :
    (ofList pairs).toList = pairs := by
  suffices h : ∀ m : SortedMap κ α, (∀ entry ∈ m.toList, ∀ pair ∈ pairs, entry.1 < pair.1) →
      (pairs.foldl (fun m pair => m.insert pair.1 pair.2) m).toList = m.toList ++ pairs by
    simpa [ofList, empty] using h empty
  induction pairs with
  | nil => intro m _; simp
  | cons pair pairs ih =>
    obtain ⟨hpair, hpairs⟩ := List.pairwise_cons.1 hordered
    intro m hlt
    have hinsert : (m.insert pair.1 pair.2).toList = m.toList ++ [pair] :=
      putEntry_of_forall_lt pair.2 fun entry hmem => hlt entry hmem pair List.mem_cons_self
    rw [List.foldl_cons, ih hpairs, hinsert, List.append_assoc, List.singleton_append]
    intro entry hmem other hother
    rw [hinsert] at hmem
    rcases List.mem_append.1 hmem with hmem | hmem
    · exact hlt entry hmem other (List.mem_cons_of_mem _ hother)
    · rw [List.mem_singleton.1 hmem]
      exact hpair other hother

theorem ofList_toList (m : SortedMap κ α) : ofList m.toList = m :=
  eq_of_toList_eq (toList_ofList m.ordered)

/-! ### Maps as sets of entries -/

omit [DecidableEq κ] [DecidableLT κ] [Std.IsLinearOrder κ] in
theorem nodup_keys (m : SortedMap κ α) : (m.toList.map Prod.fst).Nodup :=
  List.pairwise_map.2 (m.ordered.imp Std.ne_of_lt)

omit [DecidableLT κ] [Std.IsLinearOrder κ] in
theorem get?_eq_some_iff {m : SortedMap κ α} {key : κ} {value : α} :
    m.get? key = some value ↔ (key, value) ∈ m.toList :=
  lookup_eq_some_iff_mem m.nodup_keys

omit [DecidableLT κ] [Std.IsLinearOrder κ] in
theorem get?_extract (m : SortedMap κ α) (key other : κ) :
    (m.extract key).2.get? other = if other = key then none else m.get? other :=
  lookup_takeEntry key other m.nodup_keys

omit [DecidableLT κ] [Std.IsLinearOrder κ] in
/-- A map is known from what it answers. -/
theorem ext_get? {m n : SortedMap κ α} (hget : ∀ key, m.get? key = n.get? key) : m = n := by
  have hmem : ∀ entry, entry ∈ m.toList ↔ entry ∈ n.toList := by
    rintro ⟨key, value⟩
    rw [← get?_eq_some_iff, ← get?_eq_some_iff, hget]
  have hperm : m.toList.Perm n.toList :=
    (List.perm_ext_iff_of_nodup (.of_map _ m.nodup_keys) (.of_map _ n.nodup_keys)).2 hmem
  refine eq_of_toList_eq (hperm.eq_of_pairwise ?_ m.ordered n.ordered)
  intro a b _ _ hab hba
  exact absurd hab (Std.not_gt_of_lt hba)

/-- Pairs with different keys make up the same map in every order. -/
theorem ofList_eq_of_perm {pairs other : List (κ × α)} (hperm : pairs.Perm other)
    (hkeys : (pairs.map Prod.fst).Nodup) : ofList pairs = ofList other := by
  have hreversed : ∀ {entries : List (κ × α)}, (entries.map Prod.fst).Nodup →
      (entries.reverse.map Prod.fst).Nodup := fun {entries} hentries =>
    (entries.reverse_perm.map Prod.fst).nodup_iff.2 hentries
  have hotherKeys := (hperm.map Prod.fst).nodup_iff.1 hkeys
  apply ext_get?
  intro key
  ext value
  rw [get?_ofList, get?_ofList, lookup_eq_some_iff_mem (hreversed hkeys),
    lookup_eq_some_iff_mem (hreversed hotherKeys), List.mem_reverse, List.mem_reverse,
    hperm.mem_iff]

/-- A map is known from its entries in whatever order they come. -/
theorem ofList_of_perm {m : SortedMap κ α} {pairs : List (κ × α)} (hperm : pairs.Perm m.toList) :
    ofList pairs = m := by
  rw [← ofList_eq_of_perm hperm.symm m.nodup_keys, ofList_toList]

end LSystem.SortedMap
