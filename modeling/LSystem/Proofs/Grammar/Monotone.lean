import LSystem.Proofs.Grammar.Sizes

/-!
# Lengths that never fall

Bytes and symbols are two ways to weigh a word, and they can move in opposite directions: a symbol
of three bytes that is replaced by two ASCII symbols makes the word longer and its text shorter.
What both have in common is that a word weighs what its symbols weigh together, so a pass in which
no symbol loses weight makes no word lighter (`weigh_le_rewrite`), whatever the unit is.

A prediction is the size of the expansion cut at the limit, and cutting keeps the order.

The main statement is `length_expand_monotone`.
-/

namespace LSystem.Grammar

/-- What the symbols of a word weigh together. -/
def weigh (weight : Char → Nat) (word : String) : Nat := (word.toList.map weight).sum

theorem weigh_utf8Size (word : String) : weigh Char.utf8Size word = word.utf8ByteSize := by
  rw [weigh, ← String.utf8Len_toList]
  induction word.toList with
  | nil => rfl
  | cons symbol symbols ih =>
    rw [List.map_cons, List.sum_cons, ih, String.utf8Len_cons, Nat.add_comm]

theorem weigh_one (word : String) : weigh (fun _ => 1) word = word.length := by
  rw [weigh, List.map_const', List.sum_replicate, smul_eq_mul, Nat.mul_one, String.length_toList]

variable {g : Grammar} {weight : Char → Nat}

theorem weigh_rewrite (g : Grammar) (weight : Char → Nat) (word : String) :
    weigh weight (g.rewrite word) =
      (word.toList.map fun symbol => weigh weight (g.image symbol)).sum := by
  rw [weigh, toList_rewrite, List.map_flatMap, List.flatMap_def, List.sum_flatten, List.map_map]
  rfl

/-- A symbol without a production keeps its weight, so it is enough to look at the productions. -/
theorem weight_le_image (hrules : ∀ rule ∈ g.toList, weight rule.1 ≤ weigh weight rule.2)
    (symbol : Char) : weight symbol ≤ weigh weight (g.image symbol) := by
  cases hrule : g.rule? symbol with
  | some replacement =>
    rw [image_of_rule hrule]
    exact hrules (symbol, replacement) (SortedMap.mem_toList_of_get? hrule)
  | none =>
    rw [image_of_terminal hrule, weigh, String.toList_singleton, List.map_singleton,
      List.sum_singleton]

theorem weigh_le_rewrite (hrules : ∀ rule ∈ g.toList, weight rule.1 ≤ weigh weight rule.2)
    (word : String) : weigh weight word ≤ weigh weight (g.rewrite word) := by
  rw [weigh_rewrite]
  exact List.sum_le_sum fun symbol _ => weight_le_image hrules symbol

theorem weigh_expand_monotone (hrules : ∀ rule ∈ g.toList, weight rule.1 ≤ weigh weight rule.2)
    (word : String) : Monotone fun passes => weigh weight (g.expand word passes) := by
  refine monotone_nat_of_le_succ fun passes => ?_
  rw [expand_succ]
  exact weigh_le_rewrite hrules (g.expand word passes)

/-- If no replacement has fewer bytes than its symbol, more passes never make a word smaller, nor
its predicted size, whether or not the limit is reached on the way. If no replacement is empty, more
passes never leave fewer symbols. -/
theorem length_expand_monotone (g : Grammar) :
    ((∀ rule ∈ g.toList, rule.1.utf8Size ≤ rule.2.utf8ByteSize) →
      ∀ (word : String) (passes further : Nat), passes ≤ further →
        (g.expand word passes).utf8ByteSize ≤ (g.expand word further).utf8ByteSize ∧
          g.expandedSize word passes ≤ g.expandedSize word further) ∧
    ((∀ rule ∈ g.toList, rule.2 ≠ "") →
      ∀ (word : String) (passes further : Nat), passes ≤ further →
        (g.expand word passes).length ≤ (g.expand word further).length) := by
  refine ⟨fun hbytes word passes further hle => ?_, fun hsome word passes further hle => ?_⟩
  · have hrules : ∀ rule ∈ g.toList, rule.1.utf8Size ≤ weigh Char.utf8Size rule.2 := by
      intro rule hmem
      rw [weigh_utf8Size]
      exact hbytes rule hmem
    have hsize : (g.expand word passes).utf8ByteSize ≤ (g.expand word further).utf8ByteSize := by
      rw [← weigh_utf8Size, ← weigh_utf8Size]
      exact weigh_expand_monotone hrules word hle
    exact ⟨hsize, expandedSize_mono hsize⟩
  · have hrules : ∀ rule ∈ g.toList, 1 ≤ weigh (fun _ => 1) rule.2 := by
      intro rule hmem
      rw [weigh_one, Nat.one_le_iff_ne_zero, ne_eq, String.length_eq_zero_iff]
      exact hsome rule hmem
    rw [← weigh_one, ← weigh_one]
    exact weigh_expand_monotone hrules word hle

/-- One symbol of two bytes that writes another and keeps itself. The prediction is exact after 120
passes and cut after 150. -/
theorem length_expand_monotone_cut :
    let g := Grammar.ofRules [('a', "aa"), ('é', "aé")]
    (∀ rule ∈ g.toList, rule.1.utf8Size ≤ rule.2.utf8ByteSize) ∧
      (∀ rule ∈ g.toList, rule.2 ≠ "") ∧
      g.expandedSize "é" 120 = 2 ^ 120 + 1 ∧ g.expandedSize "é" 150 = 2 ^ 128 - 1 ∧
      (g.expand "é" 120).utf8ByteSize ≤ (g.expand "é" 150).utf8ByteSize ∧
      g.expandedSize "é" 120 ≤ g.expandedSize "é" 150 ∧
      (g.expand "é" 120).length ≤ (g.expand "é" 150).length := by
  intro g
  have hbytes : ∀ rule ∈ g.toList, rule.1.utf8Size ≤ rule.2.utf8ByteSize := by decide
  have hsome : ∀ rule ∈ g.toList, rule.2 ≠ "" := by decide
  obtain ⟨hgrows, hlonger⟩ := length_expand_monotone g
  obtain ⟨hsize, hpredicted⟩ := hgrows hbytes "é" 120 150 (by decide)
  exact ⟨hbytes, hsome, by decide +kernel, by decide +kernel, hsize, hpredicted,
    hlonger hsome "é" 120 150 (by decide)⟩

end LSystem.Grammar
