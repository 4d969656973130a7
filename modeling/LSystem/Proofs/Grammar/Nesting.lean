import LSystem.Proofs.Grammar.Substitution
import LSystem.Proofs.Nesting
import LSystem.Proofs.SortedMap

/-!
# Grammars that keep words nested

A grammar leaves brackets alone if it has no production for them, or only the one that changes
nothing. If all its other replacements nest, a pass keeps words nested (`nestsFrom_rewrite`): what
is written for a symbol leaves at least as many branches open as the symbol does, so a closing
symbol that finds a branch open before the pass finds one open after it. Where a first part of the
new word ends inside a replacement, the nesting of the replacement itself is what counts.

If the other replacements also have as many closing as opening symbols, a pass keeps the surplus of
opening symbols (`opened_rewrite_add`).
-/

namespace LSystem.Grammar

/-- Brackets are rewritten to themselves, if at all, and every other replacement has the property.
-/
def Respects (g : Grammar) (b : Brackets) (property : List Char → Prop) : Prop :=
  ∀ rule ∈ g.toList,
    if b.contains rule.1 then rule.2 = .singleton rule.1 else property rule.2.toList

instance (g : Grammar) (b : Brackets) (property : List Char → Prop) [DecidablePred property] :
    Decidable (g.Respects b property) :=
  inferInstanceAs (Decidable (∀ rule ∈ g.toList, _))

variable {g : Grammar} {b : Brackets} {property : List Char → Prop}

theorem Respects.image_cases (h : g.Respects b property) (symbol : Char) :
    g.image symbol = .singleton symbol ∨
      b.contains symbol = false ∧ property (g.image symbol).toList := by
  cases hrule : g.rule? symbol with
  | none => exact .inl (image_of_terminal hrule)
  | some replacement =>
    have himage := image_of_rule hrule
    have hentry := h (symbol, replacement) (SortedMap.mem_toList_of_get? hrule)
    rw [himage]
    cases hbracket : b.contains symbol with
    | true => exact .inl (by simpa [hbracket] using hentry)
    | false => exact .inr ⟨rfl, by simpa [hbracket] using hentry⟩

theorem toList_rewrite_cons (symbol : Char) (symbols : List Char) :
    (g.rewrite (.ofList (symbol :: symbols))).toList =
      (g.image symbol).toList ++ (g.rewrite (.ofList symbols)).toList := by
  rw [String.ofList_cons, rewrite_append, rewrite_singleton, String.toList_append]

/-! ### Nesting -/

/-- A pass keeps words nested, also those that are read with branches open. -/
theorem nestsFrom_rewrite (hg : g.Respects b b.Nests) {depth : Nat} {symbols : List Char}
    (hnests : b.NestsFrom depth symbols) :
    b.NestsFrom depth (g.rewrite (.ofList symbols)).toList := by
  induction symbols generalizing depth with
  | nil => exact hnests
  | cons symbol symbols ih =>
    obtain ⟨hopen, hrest⟩ := Brackets.nestsFrom_cons.1 hnests
    rw [toList_rewrite_cons, Brackets.nestsFrom_append]
    rcases hg.image_cases symbol with himage | ⟨hplain, himage⟩
    · rw [himage, String.toList_singleton]
      exact ⟨Brackets.nestsFrom_singleton.2 hopen, ih hrest⟩
    · -- The image may leave more branches open than the symbol, which leaves as many as before.
      have hwhole := himage _ (List.prefix_refl _)
      obtain ⟨hopened, hclosed⟩ := Brackets.counts_singleton hplain
      refine ⟨(Brackets.nestsFrom_zero_iff.2 himage).mono (Nat.zero_le _), (ih hrest).mono ?_⟩
      omega

theorem nests_expand (hg : g.Respects b b.Nests) {word : String} (hnests : b.Nests word.toList)
    (passes : Nat) : b.Nests (g.expand word passes).toList := by
  induction passes generalizing word with
  | zero => exact hnests
  | succ passes ih =>
    apply ih
    have hrewrite := nestsFrom_rewrite hg (Brackets.nestsFrom_zero_iff.2 hnests)
    rwa [String.ofList_toList, Brackets.nestsFrom_zero_iff] at hrewrite

/-! ### Balance -/

/-- A pass keeps the surplus of opening over closing symbols. -/
theorem opened_rewrite_add (hg : g.Respects b b.Balances) (symbols : List Char) :
    b.opened (g.rewrite (.ofList symbols)).toList + b.closed symbols =
      b.closed (g.rewrite (.ofList symbols)).toList + b.opened symbols := by
  induction symbols with
  | nil => rfl
  | cons symbol symbols ih =>
    rw [toList_rewrite_cons, ← List.singleton_append]
    simp only [Brackets.opened_append, Brackets.closed_append]
    rcases hg.image_cases symbol with himage | ⟨hplain, himage⟩
    · rw [himage, String.toList_singleton]
      omega
    · obtain ⟨hopened, hclosed⟩ := Brackets.counts_singleton hplain
      rw [Brackets.Balances] at himage
      omega

theorem balances_expand (hg : g.Respects b b.Balances) {word : String}
    (hbalances : b.Balances word.toList) (passes : Nat) :
    b.Balances (g.expand word passes).toList := by
  induction passes generalizing word with
  | zero => exact hbalances
  | succ passes ih =>
    apply ih
    have hrewrite := opened_rewrite_add hg word.toList
    rw [String.ofList_toList] at hrewrite
    rw [Brackets.Balances] at hbalances ⊢
    omega

end LSystem.Grammar
