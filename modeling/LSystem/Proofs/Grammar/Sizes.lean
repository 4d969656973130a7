import LSystem.Grammar.Growth
import LSystem.Proofs.Grammar.Substitution
import LSystem.Proofs.SortedMap

/-!
# Predicted sizes are exact

The table of sizes is advanced pass by pass, from the images of the symbols, while the expansion
rewrites a word that grows. Both count the same bytes: the entry of a symbol after `k` passes is the
size of what the symbol becomes in `k` passes (`Tabulates`). The limit does no harm on the way,
because a sum of counts that were cut at the limit, cut again, is the sum cut once
(`Count.sum_map_min`): what is lost above the limit stays above it.

The main statement is `expandedSize_eq`.
-/

namespace LSystem

namespace Count

theorem add_min_min (a b : Nat) : add (min a limit) (min b limit) = min (a + b) limit := by
  rw [add]
  omega

theorem foldl_add_min {ι : Type} (f : ι → Nat) (items : List ι) (start : Nat) :
    (items.map fun item => min (f item) limit).foldl add (min start limit) =
      min (start + (items.map f).sum) limit := by
  induction items generalizing start with
  | nil => simp
  | cons item items ih =>
    rw [List.map_cons, List.foldl_cons, add_min_min, ih, List.map_cons, List.sum_cons,
      Nat.add_assoc]

/-- Counts may be cut at the limit before they are added. -/
theorem sum_map_min {ι : Type} (f : ι → Nat) (items : List ι) :
    sum (items.map fun item => min (f item) limit) = min (items.map f).sum limit := by
  have h := foldl_add_min f items 0
  rwa [Nat.zero_min, Nat.zero_add] at h

end Count

namespace Grammar

variable {g : Grammar} {alphabet : List Char} {passes : Nat} {table : SizeTable}

/-- The symbols of each replacement of the alphabet belong to the alphabet. -/
def Covers (g : Grammar) (alphabet : List Char) : Prop :=
  ∀ symbol replacement, g.rule? symbol = some replacement → ∀ c ∈ replacement.toList, c ∈ alphabet

/-- The table has the sizes of all symbols of the alphabet after some passes, up to the limit. -/
def Tabulates (g : Grammar) (alphabet : List Char) (passes : Nat) (table : SizeTable) : Prop :=
  ∀ symbol ∈ alphabet, table.get? symbol = some (min (g.symbolSizeAfter passes symbol) Count.limit)

theorem covers_alphabet (g : Grammar) (word : String) : g.Covers (g.alphabet word) := by
  intro symbol replacement hrule c hmem
  have hentry : (symbol, replacement) ∈ g.toList := SortedMap.mem_toList_of_get? hrule
  simp only [alphabet, List.mem_append, List.mem_flatMap]
  exact .inr ⟨(symbol, replacement), hentry, hmem⟩

theorem mem_alphabet {word : String} {symbol : Char} (hmem : symbol ∈ word.toList) :
    symbol ∈ g.alphabet word := by
  simp [alphabet, hmem]

theorem utf8Size_le_limit (symbol : Char) : symbol.utf8Size ≤ Count.limit :=
  Nat.le_trans symbol.utf8Size_le_four (by decide)

theorem tabulates_initial (g : Grammar) (alphabet : List Char) :
    g.Tabulates alphabet 0 (.initial alphabet) := by
  intro symbol hmem
  have hlookup : ∀ symbols : List Char, symbol ∈ symbols →
      (symbols.map fun symbol => (symbol, symbol.utf8Size)).lookup symbol =
        some symbol.utf8Size := by
    intro symbols
    induction symbols with
    | nil => exact fun hnil => nomatch hnil
    | cons head symbols ih =>
      intro hmem
      rw [List.map_cons, SortedMap.lookup_cons_eq_ite]
      by_cases hhead : symbol = head
      · rw [if_pos hhead, hhead]
      · rw [if_neg hhead]
        exact ih ((List.mem_cons.1 hmem).resolve_left hhead)
  rw [SizeTable.initial, SortedMap.get?_ofList, ← List.map_reverse,
    hlookup _ (List.mem_reverse.2 hmem), symbolSizeAfter, expand, String.utf8ByteSize_singleton,
    Nat.min_eq_left (utf8Size_le_limit symbol)]

/-- A table gives the size of every word over its alphabet. -/
theorem Tabulates.sizeOfWord (htable : g.Tabulates alphabet passes table) {word : String}
    (hword : ∀ symbol ∈ word.toList, symbol ∈ alphabet) :
    table.sizeOfWord word = min (g.expand word passes).utf8ByteSize Count.limit := by
  have hsizes : word.toList.map table.sizeOf =
      word.toList.map fun symbol => min (g.symbolSizeAfter passes symbol) Count.limit := by
    apply List.map_congr_left
    intro symbol hmem
    rw [SizeTable.sizeOf, htable symbol (hword symbol hmem), Option.getD_some]
  rw [SizeTable.sizeOfWord, hsizes, Count.sum_map_min, utf8ByteSize_expand]

theorem Tabulates.nextSizes (htable : g.Tabulates alphabet passes table)
    (hcovers : g.Covers alphabet) : g.Tabulates alphabet (passes + 1) (g.nextSizes table) := by
  intro symbol hmem
  rw [Grammar.nextSizes, SortedMap.get?_mapValues, htable symbol hmem, Option.map_some,
    symbolSizeAfter_succ, image]
  cases hrule : g.rule? symbol with
  | some replacement => exact congrArg some (htable.sizeOfWord (hcovers symbol replacement hrule))
  | none => rfl

theorem Tabulates.sizesAfter (htable : g.Tabulates alphabet passes table)
    (hcovers : g.Covers alphabet) (further : Nat) :
    g.Tabulates alphabet (passes + further) (g.sizesAfter table further) := by
  induction further generalizing passes table with
  | zero => exact htable
  | succ further ih =>
    have hpasses : passes + (further + 1) = passes + 1 + further := by omega
    rw [hpasses]
    exact ih (htable.nextSizes hcovers)

/-- The table that a prediction ends with has the sizes of all symbols that can occur. -/
theorem tabulates_sizesAfter (g : Grammar) (word : String) (passes : Nat) :
    g.Tabulates (g.alphabet word) passes
      (g.sizesAfter (.initial (g.alphabet word)) passes) := by
  have htable := (tabulates_initial g (g.alphabet word)).sizesAfter (covers_alphabet g word) passes
  rwa [Nat.zero_add] at htable

/-- The table that a prediction ends with gives the size of the expanded word. -/
theorem sizeOfWord_sizesAfter (g : Grammar) (word : String) (passes : Nat) :
    (g.sizesAfter (.initial (g.alphabet word)) passes).sizeOfWord word =
      min (g.expand word passes).utf8ByteSize Count.limit :=
  (tabulates_sizesAfter g word passes).sizeOfWord fun _ hmem => mem_alphabet hmem

/-- A prediction depends on nothing but the expansion, whatever else is in its table. -/
theorem expandedSize_congr {g h : Grammar} {word : String} {passes : Nat}
    (hexpand : g.expand word passes = h.expand word passes) :
    g.expandedSize word passes = h.expandedSize word passes := by
  rw [expandedSize, expandedSize, sizeOfWord_sizesAfter, sizeOfWord_sizesAfter, hexpand]

/-- Predictions compare like the expansions that they are about. -/
theorem expandedSize_mono {g h : Grammar} {word other : String} {passes further : Nat}
    (hsize : (g.expand word passes).utf8ByteSize ≤ (h.expand other further).utf8ByteSize) :
    g.expandedSize word passes ≤ h.expandedSize other further := by
  rw [expandedSize, expandedSize, sizeOfWord_sizesAfter, sizeOfWord_sizesAfter]
  exact min_le_min_right Count.limit hsize

/-- The predicted size of an expansion is its size in bytes, or the largest number with 128 bits if
it is larger than that. -/
theorem expandedSize_eq (g : Grammar) (word : String) (passes : Nat) :
    g.expandedSize word passes = min (g.expand word passes).utf8ByteSize (2 ^ 128 - 1) :=
  sizeOfWord_sizesAfter g word passes

end Grammar

end LSystem
