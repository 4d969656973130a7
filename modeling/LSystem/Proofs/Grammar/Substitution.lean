import LSystem.Grammar.Rewriting
import Mathlib

/-!
# Rewriting is a substitution

A pass replaces each symbol by its image, so it distributes over the concatenation of words, and so
does any number of passes. An expansion is therefore known from what the single symbols become
(`expand_ofList_cons`), and so is its size (`utf8ByteSize_expand`).
-/

namespace LSystem.Grammar

variable (g : Grammar)

variable {g} in
theorem image_of_rule {symbol : Char} {replacement : String}
    (hrule : g.rule? symbol = some replacement) : g.image symbol = replacement := by
  rw [image, hrule, Option.getD_some]

variable {g} in
theorem image_of_terminal {symbol : Char} (hterminal : g.rule? symbol = none) :
    g.image symbol = .singleton symbol := by
  rw [image, hterminal, Option.getD_none]

/-- What is written before a pass stays, and the pass writes behind it. -/
theorem rewriteInto_eq (input output : String) :
    g.rewriteInto input output = output ++ g.rewrite input := by
  suffices h : ∀ (symbols : List Char) (written : String),
      symbols.foldl (fun written symbol => written ++ g.image symbol) written =
        written ++ symbols.foldl (fun written symbol => written ++ g.image symbol) "" from
    h input.toList output
  intro symbols
  induction symbols with
  | nil => intro written; simp
  | cons symbol symbols ih =>
    intro written
    rw [List.foldl_cons, List.foldl_cons, ih, ih ("" ++ g.image symbol), String.empty_append,
      String.append_assoc]

theorem rewrite_append (front back : String) :
    g.rewrite (front ++ back) = g.rewrite front ++ g.rewrite back := by
  rw [← rewriteInto_eq, rewrite, rewriteInto, String.toList_append, List.foldl_append]
  rfl

/-- A pass writes the images of the symbols, one behind the other. -/
theorem toList_rewrite (word : String) :
    (g.rewrite word).toList = word.toList.flatMap fun symbol => (g.image symbol).toList := by
  suffices h : ∀ (symbols : List Char) (written : String),
      (symbols.foldl (fun written symbol => written ++ g.image symbol) written).toList =
        written.toList ++ symbols.flatMap fun symbol => (g.image symbol).toList from
    h word.toList ""
  intro symbols
  induction symbols with
  | nil => intro written; simp
  | cons symbol symbols ih =>
    intro written
    rw [List.foldl_cons, ih, String.toList_append, List.flatMap_cons, List.append_assoc]

@[simp]
theorem rewrite_singleton (symbol : Char) : g.rewrite (.singleton symbol) = g.image symbol := by
  simp [rewrite, rewriteInto]

theorem expand_append (front back : String) (passes : Nat) :
    g.expand (front ++ back) passes = g.expand front passes ++ g.expand back passes := by
  induction passes generalizing front back with
  | zero => rfl
  | succ passes ih => rw [expand, expand, expand, rewrite_append, ih]

@[simp]
theorem expand_empty (passes : Nat) : g.expand "" passes = "" := by
  induction passes with
  | zero => rfl
  | succ passes ih => exact ih

theorem expand_ofList_cons (symbol : Char) (symbols : List Char) (passes : Nat) :
    g.expand (.ofList (symbol :: symbols)) passes =
      g.expand (.singleton symbol) passes ++ g.expand (.ofList symbols) passes := by
  rw [String.ofList_cons, expand_append]

/-- One pass more on a single symbol: its replacement is expanded, and a terminal stays. -/
theorem expand_singleton_succ (symbol : Char) (passes : Nat) :
    g.expand (.singleton symbol) (passes + 1) = g.expand (g.image symbol) passes := by
  rw [expand, rewrite_singleton]

/-- Passes can be made in two goes: the second goes on with what the first has written. -/
theorem expand_add (word : String) (passes further : Nat) :
    g.expand word (passes + further) = g.expand (g.expand word passes) further := by
  induction passes generalizing word with
  | zero => rw [Nat.zero_add, expand]
  | succ passes ih => rw [Nat.succ_add, expand, expand, ih]

/-- The last pass rewrites what the passes before it have written. -/
theorem expand_succ (word : String) (passes : Nat) :
    g.expand word (passes + 1) = g.rewrite (g.expand word passes) := by
  rw [expand_add, expand, expand]

/-! ### Sizes -/

/-- The number of bytes that a symbol takes after some passes. -/
def symbolSizeAfter (passes : Nat) (symbol : Char) : Nat :=
  (g.expand (.singleton symbol) passes).utf8ByteSize

theorem symbolSizeAfter_succ (passes : Nat) (symbol : Char) :
    g.symbolSizeAfter (passes + 1) symbol = (g.expand (g.image symbol) passes).utf8ByteSize := by
  rw [symbolSizeAfter, expand_singleton_succ]

/-- A word takes as many bytes as its symbols take together. -/
theorem utf8ByteSize_expand (word : String) (passes : Nat) :
    (g.expand word passes).utf8ByteSize =
      (word.toList.map (g.symbolSizeAfter passes)).sum := by
  obtain ⟨symbols, rfl⟩ : ∃ symbols, word = String.ofList symbols := ⟨word.toList, by simp⟩
  rw [String.toList_ofList]
  induction symbols with
  | nil => simp
  | cons symbol symbols ih =>
    rw [expand_ofList_cons, String.utf8ByteSize_append, ih, List.map_cons, List.sum_cons,
      symbolSizeAfter]

end LSystem.Grammar
