import LSystem.Proofs.Grammar.Sizes

/-!
# Buffers of the right size

Before a pass the number of bytes that it will write can be found from the word alone, by adding up
what it writes for each symbol (`passSize`). A buffer that is made for this number is full when the
pass is over, and the pass needs no other. So each word of an expansion has a buffer of its own size
(`buffers_eq`).

The size of one pass is also what the table of sizes predicts for it, up to the limit. The main
statement is `passSize_exact`.
-/

namespace LSystem.Grammar

/-- A text that is being written, and the number of bytes that were set aside for it. -/
structure Buffer where
  capacity : Nat
  text : String
deriving DecidableEq

/-- The buffers of some passes: each is made for the size found from the word before it, which a
pass then rewrites into it. -/
def buffers (g : Grammar) (word : String) : Nat → List Buffer
  | 0 => []
  | passes + 1 =>
    let buffer : Buffer := ⟨g.passSize word, g.rewriteInto word ""⟩
    buffer :: g.buffers buffer.text passes

/-- One pass writes as many bytes as were found for it. -/
theorem passSize_eq (g : Grammar) (word : String) :
    g.passSize word = (g.rewrite word).utf8ByteSize := by
  suffices h : ∀ (symbols : List Char) (written : String),
      (symbols.foldl (fun written symbol => written ++ g.image symbol) written).utf8ByteSize =
        symbols.foldl (fun size symbol => size + g.symbolSize symbol) written.utf8ByteSize from
    (h word.toList "").symm
  intro symbols
  induction symbols with
  | nil => exact fun _ => rfl
  | cons symbol symbols ih =>
    intro written
    rw [List.foldl_cons, List.foldl_cons, ih, String.utf8ByteSize_append, symbolSize_eq_image]

/-- The buffer of each pass is made for exactly the word that the expansion has after it. -/
theorem buffers_eq (g : Grammar) (word : String) (passes : Nat) :
    g.buffers word passes =
      (List.range passes).map fun k =>
        ⟨(g.expand word (k + 1)).utf8ByteSize, g.expand word (k + 1)⟩ := by
  induction passes generalizing word with
  | zero => rfl
  | succ passes ih =>
    rw [buffers, List.range_succ_eq_map, List.map_cons, List.map_map, passSize_eq, ih]
    rfl

/-- An erased symbol, a terminal of two bytes and a replacement of five. -/
example :
    (Grammar.ofRules [('F', "é→"), ('X', "")]).buffers "FéX" 2 = [⟨7, "é→é"⟩, ⟨7, "é→é"⟩] := by
  decide +kernel

/-- A pass leaves alone what stands in the text that it writes to, and appends the rewritten word. It
appends as many bytes as were found for it before, which is what is predicted for one pass unless
the limit is reached. In an expansion the buffer of each pass is therefore full when the pass is
over, and it has the word of the next generation in it. -/
theorem passSize_exact (g : Grammar) :
    (∀ word output : String, g.rewriteInto word output = output ++ g.rewrite word) ∧
    (∀ word : String, g.passSize word = (g.rewrite word).utf8ByteSize ∧
      g.expandedSize word 1 = min (g.passSize word) (2 ^ 128 - 1)) ∧
    ∀ (word : String) (passes : Nat),
      g.buffers word passes =
        (List.range passes).map fun k =>
          ⟨(g.expand word (k + 1)).utf8ByteSize, g.expand word (k + 1)⟩ := by
  refine ⟨g.rewriteInto_eq, fun word => ⟨g.passSize_eq word, ?_⟩, g.buffers_eq⟩
  rw [expandedSize, sizeOfWord_sizesAfter, passSize_eq]
  rfl

end LSystem.Grammar
