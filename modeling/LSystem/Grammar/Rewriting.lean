import LSystem.Grammar.Basic

/-!
# Rewriting words

One pass replaces every symbol of a word at once, and an expansion repeats the pass. What a symbol
becomes depends on nothing but the symbol, so a pass is the concatenation of the images of the
symbols: nothing that a pass writes is read by the same pass.
-/

namespace LSystem.Grammar

/-- Appends one rewriting pass over `input` to `output`. -/
def rewriteInto (g : Grammar) (input output : String) : String :=
  input.toList.foldl (fun written symbol => written ++ g.image symbol) output

def rewrite (g : Grammar) (word : String) : String := g.rewriteInto word ""

/-- The word after the given number of passes. Each pass rewrites all that the pass before wrote. -/
def expand (g : Grammar) (word : String) : Nat → String
  | 0 => word
  | passes + 1 => g.expand (g.rewrite word) passes

/-- The number of bytes in UTF-8 that one pass writes for a symbol. -/
def symbolSize (g : Grammar) (symbol : Char) : Nat :=
  match g.rule? symbol with
  | some replacement => replacement.utf8ByteSize
  | none => symbol.utf8Size

/-- The number of bytes in UTF-8 that one pass over a word writes, found without writing them. -/
def passSize (g : Grammar) (word : String) : Nat :=
  word.toList.foldl (fun size symbol => size + g.symbolSize symbol) 0

theorem symbolSize_eq_image (g : Grammar) (symbol : Char) :
    g.symbolSize symbol = (g.image symbol).utf8ByteSize := by
  rw [symbolSize, image]
  cases g.rule? symbol <;> simp

end LSystem.Grammar
