import LSystem.Grammar.Growth
import LSystem.Proofs.Grammar.Substitution
import LSystem.Proofs.SortedMap

/-!
# How fast words can grow

No pass writes more symbols for a symbol than the longest replacement has, so the number of symbols
grows at most by that factor with every pass (`length_expand_le`), and by exactly that factor if
every symbol that can occur has so long a replacement. A symbol takes up to four bytes, and one byte
where only ASCII occurs.

The bound that is reported is cut at the limit twice, first as a power and then as a product. That
is the same as cutting the product once (`Count.pow_eq_min`, `Count.mul_min`), also for the empty
word, whose bound is zero however large the power is.

The main statement is `growth_within_bound`.
-/

namespace LSystem

namespace Count

/-- A power of a positive base is cut at the limit only, though its exponent is cut before. -/
theorem pow_eq_min {base : Nat} (hbase : 0 < base) (exponent : Nat) :
    pow base exponent = min (base ^ exponent) limit := by
  rw [pow, Nat.pow_eq]
  rcases Nat.le_total exponent 128 with hsmall | hlarge
  · rw [Nat.min_eq_left hsmall]
  · rw [Nat.min_eq_right hlarge]
    rcases Nat.eq_or_lt_of_le hbase with hone | htwo
    · rw [← hone, Nat.one_pow, Nat.one_pow]
    · have hcut : limit ≤ base ^ 128 :=
        Nat.le_trans (by decide : limit ≤ 2 ^ 128) (Nat.pow_le_pow_left htwo 128)
      have hwhole : base ^ 128 ≤ base ^ exponent := Nat.pow_le_pow_right hbase hlarge
      rw [Nat.min_eq_right hcut, Nat.min_eq_right (Nat.le_trans hcut hwhole)]

/-- A factor may be cut at the limit before it is multiplied. -/
theorem mul_min (a b : Nat) : mul (min a limit) b = min (a * b) limit := by
  rw [mul]
  rcases Nat.le_total a limit with hsmall | hlarge
  · rw [Nat.min_eq_left hsmall]
  · rw [Nat.min_eq_right hlarge]
    rcases Nat.eq_zero_or_pos b with rfl | hb
    · rw [Nat.mul_zero, Nat.mul_zero]
    · have hcut : limit ≤ limit * b := Nat.le_mul_of_pos_right limit hb
      have hwhole : limit * b ≤ a * b := Nat.mul_le_mul_right b hlarge
      rw [Nat.min_eq_right hcut, Nat.min_eq_right (Nat.le_trans hcut hwhole)]

end Count

/-! ### Bytes -/

/-- A symbol that takes one byte. -/
def Ascii (symbol : Char) : Prop := symbol.toNat < 128

instance : DecidablePred Ascii := fun symbol => inferInstanceAs (Decidable (symbol.toNat < 128))

theorem Ascii.utf8Size_eq {symbol : Char} (hascii : Ascii symbol) : symbol.utf8Size = 1 :=
  Char.utf8Size_eq_one_iff.2 (UInt32.le_iff_toNat_le.2 (Nat.le_of_lt_succ hascii))

theorem utf8ByteSize_le (word : String) : word.utf8ByteSize ≤ 4 * word.length := by
  rw [← String.utf8Len_toList, ← String.length_toList]
  induction word.toList with
  | nil => exact Nat.le_refl 0
  | cons symbol symbols ih =>
    have hsymbol := symbol.utf8Size_le_four
    rw [String.utf8Len_cons, List.length_cons]
    omega

theorem utf8ByteSize_of_ascii {word : String} (hascii : ∀ symbol ∈ word.toList, Ascii symbol) :
    word.utf8ByteSize = word.length := by
  rw [← String.utf8Len_toList, ← String.length_toList]
  generalize word.toList = symbols at hascii ⊢
  induction symbols with
  | nil => rfl
  | cons symbol symbols ih =>
    obtain ⟨hsymbol, hsymbols⟩ := List.forall_mem_cons.1 hascii
    rw [String.utf8Len_cons, List.length_cons, ih hsymbols, hsymbol.utf8Size_eq]

namespace Grammar

variable {g : Grammar}

/-! ### The expansion factor -/

theorem maxExpansionFactor_eq (g : Grammar) :
    g.maxExpansionFactor = max 1 ((g.toList.map fun rule => rule.2.length).max?.getD 1) := by
  rw [maxExpansionFactor, ← List.foldl_max, List.foldl_map]

theorem maxExpansionFactor_pos (g : Grammar) : 0 < g.maxExpansionFactor := by
  rw [maxExpansionFactor_eq]
  exact Nat.le_max_left _ _

theorem length_le_maxExpansionFactor {rule : Char × String} (hmem : rule ∈ g.toList) :
    rule.2.length ≤ g.maxExpansionFactor := by
  have hlength : rule.2.length ∈ g.toList.map fun rule => rule.2.length :=
    List.mem_map_of_mem hmem
  rw [maxExpansionFactor_eq]
  exact Nat.le_trans (List.le_max?_getD_of_mem hlength) (Nat.le_max_right _ _)

theorem length_image_le (g : Grammar) (symbol : Char) :
    (g.image symbol).length ≤ g.maxExpansionFactor := by
  cases hrule : g.rule? symbol with
  | some replacement =>
    rw [image_of_rule hrule]
    exact length_le_maxExpansionFactor (SortedMap.mem_toList_of_get? hrule)
  | none =>
    rw [image_of_terminal hrule, String.length_singleton]
    exact g.maxExpansionFactor_pos

theorem growthBound_eq (g : Grammar) (word : String) (passes : Nat) :
    g.growthBound word passes =
      min (g.maxExpansionFactor ^ passes * word.length) Count.limit := by
  rw [growthBound, Count.pow_eq_min g.maxExpansionFactor_pos, Count.mul_min]

/-! ### Symbols -/

/-- A symbol of the word or of a replacement. -/
def Occurs (g : Grammar) (word : String) (symbol : Char) : Prop :=
  symbol ∈ word.toList ∨ ∃ rule ∈ g.toList, symbol ∈ rule.2.toList

/-- No other symbols are ever written. -/
theorem occurs_of_mem_expand {word : String} {passes : Nat} {symbol : Char}
    (hmem : symbol ∈ (g.expand word passes).toList) : g.Occurs word symbol := by
  induction passes generalizing symbol with
  | zero => exact .inl hmem
  | succ passes ih =>
    rw [expand_succ, toList_rewrite, List.mem_flatMap] at hmem
    obtain ⟨source, hsource, hmem⟩ := hmem
    cases hrule : g.rule? source with
    | some replacement =>
      rw [image_of_rule hrule] at hmem
      exact .inr ⟨(source, replacement), SortedMap.mem_toList_of_get? hrule, hmem⟩
    | none =>
      rw [image_of_terminal hrule, String.toList_singleton, List.mem_singleton] at hmem
      rw [hmem]
      exact ih hsource

theorem length_rewrite (g : Grammar) (word : String) :
    (g.rewrite word).length = (word.toList.map fun symbol => (g.image symbol).length).sum := by
  rw [← String.length_toList, toList_rewrite, List.length_flatMap]
  rfl

theorem length_rewrite_le (g : Grammar) (word : String) :
    (g.rewrite word).length ≤ g.maxExpansionFactor * word.length := by
  have hsum := List.sum_le_card_nsmul (word.toList.map fun symbol => (g.image symbol).length)
    g.maxExpansionFactor (by simpa using fun symbol _ => g.length_image_le symbol)
  rw [List.length_map, String.length_toList, smul_eq_mul] at hsum
  rw [length_rewrite, Nat.mul_comm]
  exact hsum

theorem length_expand_le (g : Grammar) (word : String) (passes : Nat) :
    (g.expand word passes).length ≤ g.maxExpansionFactor ^ passes * word.length := by
  induction passes with
  | zero => rw [expand, Nat.pow_zero, Nat.one_mul]
  | succ passes ih =>
    calc (g.expand word (passes + 1)).length
        = (g.rewrite (g.expand word passes)).length := by rw [expand_succ]
      _ ≤ g.maxExpansionFactor * (g.expand word passes).length := g.length_rewrite_le _
      _ ≤ g.maxExpansionFactor * (g.maxExpansionFactor ^ passes * word.length) :=
        Nat.mul_le_mul_left _ ih
      _ = g.maxExpansionFactor ^ (passes + 1) * word.length := by
        rw [Nat.pow_succ', Nat.mul_assoc]

/-- A symbol whose replacement is as long as the expansion factor. -/
def Spreads (g : Grammar) (symbol : Char) : Prop :=
  ∃ replacement, g.rule? symbol = some replacement ∧ replacement.length = g.maxExpansionFactor

theorem length_rewrite_of_spreads {word : String}
    (hword : ∀ symbol ∈ word.toList, g.Spreads symbol) :
    (g.rewrite word).length = g.maxExpansionFactor * word.length := by
  have himages : (word.toList.map fun symbol => (g.image symbol).length) =
      List.replicate word.toList.length g.maxExpansionFactor := by
    rw [List.map_eq_replicate_iff]
    intro symbol hmem
    obtain ⟨replacement, hrule, hlength⟩ := hword symbol hmem
    rw [image_of_rule hrule, hlength]
  rw [length_rewrite, himages, List.sum_const_nat, String.length_toList, Nat.mul_comm]

theorem length_expand_of_spreads {word : String}
    (hspreads : ∀ symbol, g.Occurs word symbol → g.Spreads symbol) (passes : Nat) :
    (g.expand word passes).length = g.maxExpansionFactor ^ passes * word.length := by
  induction passes with
  | zero => rw [expand, Nat.pow_zero, Nat.one_mul]
  | succ passes ih =>
    have hexpanded : ∀ symbol ∈ (g.expand word passes).toList, g.Spreads symbol :=
      fun symbol hmem => hspreads symbol (occurs_of_mem_expand hmem)
    rw [expand_succ, length_rewrite_of_spreads hexpanded, ih, Nat.pow_succ', Nat.mul_assoc]

/-! ### The bound -/

/-- The growth bound is the power of the expansion factor times the number of symbols, or the
largest number with 128 bits if that is smaller. An expansion has at most as many symbols as the
product says, and at most four times as many bytes, or no more than the product where all that can
occur is ASCII. If every symbol that can occur has a replacement of the largest length, the number
of symbols is the product. -/
theorem growth_within_bound (g : Grammar) (word : String) (passes : Nat) :
    let bound := g.maxExpansionFactor ^ passes * word.length
    let expanded := g.expand word passes
    g.growthBound word passes = min bound (2 ^ 128 - 1) ∧
      expanded.length ≤ bound ∧
      (bound ≤ 2 ^ 128 - 1 → expanded.length ≤ g.growthBound word passes) ∧
      expanded.utf8ByteSize ≤ 4 * bound ∧
      ((∀ symbol, g.Occurs word symbol → Ascii symbol) → expanded.utf8ByteSize ≤ bound) ∧
      ((∀ symbol, g.Occurs word symbol → g.Spreads symbol) → expanded.length = bound) := by
  intro bound expanded
  have hbound : g.growthBound word passes = min bound (2 ^ 128 - 1) := g.growthBound_eq word passes
  have hlength : expanded.length ≤ bound := g.length_expand_le word passes
  refine ⟨hbound, hlength, fun hsmall => ?_, ?_, fun hascii => ?_, fun hspreads => ?_⟩
  · rwa [hbound, Nat.min_eq_left hsmall]
  · exact Nat.le_trans (utf8ByteSize_le expanded) (Nat.mul_le_mul_left 4 hlength)
  · rwa [utf8ByteSize_of_ascii fun symbol hmem => hascii symbol (occurs_of_mem_expand hmem)]
  · exact length_expand_of_spreads hspreads passes

/-- Two symbols that each become three. After eighty passes the bound is still told exactly and is
reached; one pass later it is cut. -/
theorem growth_within_bound_threefold :
    let g := Grammar.ofRules [('F', "F+F"), ('+', "+F+")]
    (∀ symbol, g.Occurs "F+" symbol → Ascii symbol) ∧
      (∀ symbol, g.Occurs "F+" symbol → g.Spreads symbol) ∧
      g.maxExpansionFactor ^ 80 * "F+".length ≤ 2 ^ 128 - 1 ∧
      g.growthBound "F+" 80 = 3 ^ 80 * 2 ∧
      (g.expand "F+" 80).length = 3 ^ 80 * 2 ∧
      (g.expand "F+" 80).length ≤ g.growthBound "F+" 80 ∧
      (g.expand "F+" 80).utf8ByteSize ≤ 3 ^ 80 * 2 ∧
      g.growthBound "F+" 81 = 2 ^ 128 - 1 := by
  intro g
  have hfactor : g.maxExpansionFactor = 3 := by decide
  have hoccurs : ∀ symbol, g.Occurs "F+" symbol → symbol = 'F' ∨ symbol = '+' := by
    have hrules : g.toList = [('+', "+F+"), ('F', "F+F")] := by rfl
    rintro symbol (hword | ⟨rule, hrule, hmem⟩)
    · simpa using hword
    · rw [hrules] at hrule
      rcases List.mem_pair.1 hrule with rfl | rfl
      · have hplus : symbol = '+' ∨ symbol = 'F' ∨ symbol = '+' := by simpa using hmem
        tauto
      · have hstep : symbol = 'F' ∨ symbol = '+' ∨ symbol = 'F' := by simpa using hmem
        tauto
  have hascii : ∀ symbol, g.Occurs "F+" symbol → Ascii symbol := by
    intro symbol hsymbol
    rcases hoccurs symbol hsymbol with rfl | rfl <;> decide
  have hspreads : ∀ symbol, g.Occurs "F+" symbol → g.Spreads symbol := by
    intro symbol hsymbol
    rcases hoccurs symbol hsymbol with rfl | rfl
    · exact ⟨"F+F", rfl, hfactor.symm⟩
    · exact ⟨"+F+", rfl, hfactor.symm⟩
  have hsmall : g.maxExpansionFactor ^ 80 * "F+".length ≤ 2 ^ 128 - 1 := by
    rw [hfactor]
    decide
  obtain ⟨hbound, -, hwithin, -, hbytes, hlength⟩ := growth_within_bound g "F+" 80
  obtain ⟨hcut, -⟩ := growth_within_bound g "F+" 81
  have hwithin := hwithin hsmall
  have hbytes := hbytes hascii
  have hlength := hlength hspreads
  rw [Nat.min_eq_left hsmall] at hbound
  rw [hfactor] at hbound hcut hbytes hlength
  exact ⟨hascii, hspreads, hsmall, hbound, hlength, hwithin, hbytes, hcut.trans (by decide)⟩

end Grammar

end LSystem
