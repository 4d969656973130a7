import LSystem.Grammar.Rewriting

/-!
# How long expansions get

Words grow exponentially, so lengths are predicted without building them. A prediction is a count
with a ceiling: sums, products and powers stop at `Count.limit`, and what is reported is the smaller
of the true count and the ceiling.

* `expandedSize` is the exact size of an expansion in bytes. It keeps a table with the size of what
  each symbol becomes, and computes the table for one more pass from the table before.
* `growthBound` bounds the number of symbols by a power of the longest replacement.
-/

namespace LSystem

namespace Count

/-- The largest count that is told apart from larger ones: the largest with 128 bits. -/
def limit : Nat := 0xffffffffffffffffffffffffffffffff

def add (a b : Nat) : Nat := min (a + b) limit

def mul (a b : Nat) : Nat := min (a * b) limit

/-- The power of a positive base, up to the limit. From two up, every base has reached the limit at
the exponent 128, so larger exponents are cut there. -/
def pow (base exponent : Nat) : Nat := min (Nat.pow base (min exponent 128)) limit

def sum (counts : List Nat) : Nat := counts.foldl add 0

end Count

namespace Grammar

/-- The symbols that a word or the grammar mentions. -/
def alphabet (g : Grammar) (word : String) : List Char :=
  word.toList ++ g.toList.map (·.1) ++ g.toList.flatMap (·.2.toList)

/-- For some symbols, the size in bytes of what they become. -/
abbrev SizeTable := SortedMap Char Nat

/-- The size of what a symbol becomes. A symbol outside the table stays as it is. -/
def SizeTable.sizeOf (table : SizeTable) (symbol : Char) : Nat :=
  (table.get? symbol).getD symbol.utf8Size

def SizeTable.sizeOfWord (table : SizeTable) (word : String) : Nat :=
  Count.sum (word.toList.map table.sizeOf)

def SizeTable.initial (alphabet : List Char) : SizeTable :=
  .ofList (alphabet.map fun symbol => (symbol, symbol.utf8Size))

def nextSizes (g : Grammar) (table : SizeTable) : SizeTable :=
  table.mapValues fun symbol size =>
    match g.rule? symbol with
    | some replacement => table.sizeOfWord replacement
    | none => size

def sizesAfter (g : Grammar) (table : SizeTable) : Nat → SizeTable
  | 0 => table
  | passes + 1 => g.sizesAfter (g.nextSizes table) passes

/-- The size in bytes of the expansion of a word, up to the limit. -/
def expandedSize (g : Grammar) (word : String) (passes : Nat) : Nat :=
  (g.sizesAfter (.initial (g.alphabet word)) passes).sizeOfWord word

/-- The largest number of symbols that a production writes, and at least one. -/
def maxExpansionFactor (g : Grammar) : Nat :=
  g.toList.foldl (fun factor rule => max factor rule.2.length) 1

/-- A bound on the number of symbols of an expansion, up to the limit. -/
def growthBound (g : Grammar) (word : String) (passes : Nat) : Nat :=
  Count.mul (Count.pow g.maxExpansionFactor passes) word.length

end Grammar

end LSystem
