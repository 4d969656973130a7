import LSystem.Proofs.Grammar.Substitution

/-!
# Passes and descent

An expansion rewrites flat words, pass by pass. Seen from a single symbol the same thing is a
descent: the symbol is replaced, and each symbol of the replacement is expanded one level less, on
its own, until no level is left or a terminal is met. No pass and no symbol can tell the two apart
(`toList_expand`), so nothing that a pass writes can have been read by the same pass.

The main statement is `expand_iterates_substitution`: expanding is a substitution of words for
symbols, applied again and again.
-/

namespace LSystem.Grammar

/-- What a symbol becomes, found by descending into its replacement symbol by symbol. -/
def descend (g : Grammar) : (depth : Nat) → (symbol : Char) → List Char
  | 0, symbol => [symbol]
  | depth + 1, symbol =>
    match g.rule? symbol with
    | some replacement => replacement.toList.flatMap (g.descend depth)
    | none => [symbol]

variable {g : Grammar}

theorem descend_of_terminal {symbol : Char} (hterminal : g.rule? symbol = none) (depth : Nat) :
    g.descend depth symbol = [symbol] := by
  cases depth with
  | zero => rfl
  | succ depth => rw [descend, hterminal]

/-- Descending one level deeper is rewriting first and descending then. -/
theorem flatMap_descend_image (depth : Nat) (symbol : Char) :
    (g.image symbol).toList.flatMap (g.descend depth) = g.descend (depth + 1) symbol := by
  cases hrule : g.rule? symbol with
  | some replacement => rw [image_of_rule hrule, descend, hrule]
  | none =>
    rw [image_of_terminal hrule, String.toList_singleton, List.flatMap_singleton,
      descend_of_terminal hrule, descend_of_terminal hrule]

/-- As many passes as levels give, for each symbol of the word, what the descent finds. -/
theorem toList_expand (word : String) (passes : Nat) :
    (g.expand word passes).toList = word.toList.flatMap (g.descend passes) := by
  induction passes generalizing word with
  | zero =>
    have hsame : g.descend 0 = fun symbol => [symbol] := rfl
    rw [expand, hsame, List.flatMap_singleton']
  | succ passes ih =>
    have himages : (fun symbol => (g.image symbol).toList.flatMap (g.descend passes)) =
        g.descend (passes + 1) := by
      funext symbol
      exact flatMap_descend_image passes symbol
    rw [expand, ih, toList_rewrite, List.flatMap_assoc, himages]

/-- An expansion joins the expansions of the symbols. -/
theorem expand_eq_join (word : String) (passes : Nat) :
    g.expand word passes =
      String.join (word.toList.map fun symbol => g.expand (.singleton symbol) passes) := by
  obtain ⟨symbols, rfl⟩ : ∃ symbols, word = String.ofList symbols := ⟨word.toList, by simp⟩
  rw [String.toList_ofList]
  induction symbols with
  | nil => simp
  | cons symbol symbols ih => rw [expand_ofList_cons, ih, List.map_cons, String.join_cons]

theorem expand_singleton_of_rule {symbol : Char} {replacement : String}
    (hrule : g.rule? symbol = some replacement) (depth : Nat) :
    g.expand (.singleton symbol) (depth + 1) =
      String.join (replacement.toList.map fun inner => g.expand (.singleton inner) depth) := by
  rw [expand_singleton_succ, image_of_rule hrule, expand_eq_join]

theorem expand_singleton_of_terminal {symbol : Char} (hterminal : g.rule? symbol = none)
    (depth : Nat) : g.expand (.singleton symbol) depth = .singleton symbol := by
  induction depth with
  | zero => rfl
  | succ depth ih => rw [expand_singleton_succ, image_of_terminal hterminal, ih]

/-- Expanding applies a substitution again and again: it distributes over the concatenation of
words, passes add up, and one pass more may come last or first. A single symbol becomes what the
symbols of its replacement become one level below, and a terminal stays, so that passes over flat
words and the descent from each symbol end in the same word. -/
theorem expand_iterates_substitution (g : Grammar) :
    (∀ front back passes,
      g.expand (front ++ back) passes = g.expand front passes ++ g.expand back passes) ∧
    (∀ word passes further,
      g.expand word (passes + further) = g.expand (g.expand word passes) further) ∧
    (∀ word passes,
      g.expand word (passes + 1) = g.rewrite (g.expand word passes) ∧
      g.expand word (passes + 1) = g.expand (g.rewrite word) passes) ∧
    (∀ symbol depth,
      match g.rule? symbol with
      | some replacement =>
        g.expand (.singleton symbol) (depth + 1) =
          String.join (replacement.toList.map fun inner => g.expand (.singleton inner) depth)
      | none => g.expand (.singleton symbol) depth = .singleton symbol) ∧
    (∀ word passes, (g.expand word passes).toList = word.toList.flatMap (g.descend passes)) := by
  refine ⟨g.expand_append, g.expand_add, fun word passes => ⟨g.expand_succ word passes, rfl⟩,
    fun symbol depth => ?_, toList_expand⟩
  cases hrule : g.rule? symbol with
  | some replacement => exact expand_singleton_of_rule hrule depth
  | none => exact expand_singleton_of_terminal hrule depth

end LSystem.Grammar
