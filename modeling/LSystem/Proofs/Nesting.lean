import Mathlib

/-!
# Brackets in words

Some symbols of a word open a branch and some close one. A word nests if it can be read from left to
right without ever closing a branch that was not opened; branches may stay open at its end. In terms
of counts, no first part of the word has more closing than opening symbols.

The second part of a word is read with the branches of the first part open. `NestsFrom` takes these
into account, and that is the form in which nesting splits along concatenations
(`nestsFrom_append`). A word that does not nest breaks at one symbol, the last of the shortest first
part with too many closing symbols (`exists_breaksAt`).
-/

namespace LSystem

/-- Which symbols open a branch, and which close one. -/
structure Brackets where
  opens : Char → Bool
  closes : Char → Bool

namespace Brackets

/-- The brackets `[` and `]`. -/
def square : Brackets := ⟨(· == '['), (· == ']')⟩

variable (b : Brackets)

def contains (symbol : Char) : Bool := b.opens symbol || b.closes symbol

def opened (symbols : List Char) : Nat := symbols.countP b.opens

def closed (symbols : List Char) : Nat := symbols.countP b.closes

/-- No first part has more closing than opening symbols. -/
def Nests (symbols : List Char) : Prop :=
  ∀ front, front <+: symbols → b.closed front ≤ b.opened front

/-- As many symbols close a branch as open one. -/
def Balances (symbols : List Char) : Prop := b.opened symbols = b.closed symbols

/-- The symbol behind `before` closes a branch when none is open, and nothing in `before` does:
`before` with this symbol is the shortest first part with more closing than opening symbols. -/
structure BreaksAt (before : List Char) (symbol : Char) : Prop where
  nests : b.Nests before
  overdrawn : b.opened (before ++ [symbol]) < b.closed (before ++ [symbol])

/-- The symbols nest when they are read with `depth` branches open. -/
def NestsFrom (depth : Nat) (symbols : List Char) : Prop :=
  ∀ front, front <+: symbols → b.closed front ≤ depth + b.opened front

variable {b}

instance (symbols : List Char) : Decidable (b.Nests symbols) :=
  decidable_of_iff (∀ front ∈ symbols.inits, b.closed front ≤ b.opened front) (by
    simp only [List.mem_inits, Nests])

instance (symbols : List Char) : Decidable (b.Balances symbols) :=
  inferInstanceAs (Decidable (_ = _))

@[simp]
theorem opened_append (front back : List Char) :
    b.opened (front ++ back) = b.opened front + b.opened back := List.countP_append

@[simp]
theorem closed_append (front back : List Char) :
    b.closed (front ++ back) = b.closed front + b.closed back := List.countP_append

/-- Symbols that are no brackets do not count. -/
theorem counts_singleton {symbol : Char} (h : b.contains symbol = false) :
    b.opened [symbol] = 0 ∧ b.closed [symbol] = 0 := by
  obtain ⟨hopens, hcloses⟩ := Bool.or_eq_false_iff.1 h
  exact ⟨by simp [opened, hopens], by simp [closed, hcloses]⟩

theorem nestsFrom_zero_iff {symbols : List Char} : b.NestsFrom 0 symbols ↔ b.Nests symbols := by
  simp only [NestsFrom, Nests, Nat.zero_add]

theorem nestsFrom_nil (depth : Nat) : b.NestsFrom depth [] := by
  intro front hfront
  rw [List.prefix_nil.1 hfront]
  exact Nat.zero_le _

theorem NestsFrom.closed_le {depth : Nat} {symbols : List Char} (h : b.NestsFrom depth symbols) :
    b.closed symbols ≤ depth + b.opened symbols := h symbols (List.prefix_refl symbols)

theorem NestsFrom.mono {depth deeper : Nat} {symbols : List Char} (h : b.NestsFrom depth symbols)
    (hle : depth ≤ deeper) : b.NestsFrom deeper symbols := by
  intro front hfront
  have hcount := h front hfront
  omega

/-- The second part of a word is read with what the first part leaves open. -/
theorem nestsFrom_append {depth : Nat} {front back : List Char} :
    b.NestsFrom depth (front ++ back) ↔
      b.NestsFrom depth front ∧
        b.NestsFrom (depth + b.opened front - b.closed front) back := by
  constructor
  · intro h
    have hfront : b.NestsFrom depth front := fun part hpart =>
      h part (List.prefix_append_of_prefix hpart)
    refine ⟨hfront, fun part hpart => ?_⟩
    have hcount := h (front ++ part) ((List.prefix_append_right_inj front).2 hpart)
    rw [opened_append, closed_append] at hcount
    omega
  · rintro ⟨hfront, hback⟩ part ⟨rest, hpart⟩
    rcases List.append_eq_append_iff.1 hpart with ⟨more, rfl, -⟩ | ⟨more, rfl, rfl⟩
    · exact hfront part (List.prefix_append part more)
    · have hwhole := hfront.closed_le
      have hcount := hback more (List.prefix_append more rest)
      rw [opened_append, closed_append]
      omega

theorem nestsFrom_singleton {depth : Nat} {symbol : Char} :
    b.NestsFrom depth [symbol] ↔ b.closed [symbol] ≤ depth + b.opened [symbol] := by
  constructor
  · exact NestsFrom.closed_le
  · intro h front hfront
    rcases List.prefix_cons_iff.1 hfront with rfl | ⟨rest, rfl, hrest⟩
    · exact Nat.zero_le _
    · rwa [List.prefix_nil.1 hrest]

theorem nestsFrom_cons {depth : Nat} {symbol : Char} {symbols : List Char} :
    b.NestsFrom depth (symbol :: symbols) ↔
      b.closed [symbol] ≤ depth + b.opened [symbol] ∧
        b.NestsFrom (depth + b.opened [symbol] - b.closed [symbol]) symbols := by
  rw [← List.singleton_append, nestsFrom_append, nestsFrom_singleton]

theorem not_nests_iff {symbols : List Char} :
    ¬b.Nests symbols ↔ ∃ front, front <+: symbols ∧ b.opened front < b.closed front := by
  simp only [Nests, not_forall, Nat.not_le, exists_prop]

/-- Symbols that do not nest break at one of them. -/
theorem exists_breaksAt {symbols : List Char} (h : ¬b.Nests symbols) :
    ∃ before symbol after, symbols = before ++ symbol :: after ∧ b.BreaksAt before symbol := by
  induction symbols using List.reverseRecOn with
  | nil => exact absurd (nestsFrom_zero_iff.1 (nestsFrom_nil 0)) h
  | append_singleton symbols symbol ih =>
    by_cases hnests : b.Nests symbols
    · refine ⟨symbols, symbol, [], rfl, hnests, ?_⟩
      by_contra hle
      refine h fun front hfront => ?_
      rcases List.prefix_concat_iff.1 hfront with rfl | hfront
      · exact Nat.not_lt.1 hle
      · exact hnests front hfront
    · obtain ⟨before, first, after, rfl, hbreaks⟩ := ih hnests
      exact ⟨before, first, after ++ [symbol], by simp, hbreaks⟩

theorem exists_word_breaksAt {word : String} (h : ¬b.Nests word.toList) :
    ∃ before symbol after, word = before ++ .singleton symbol ++ after ∧
      b.BreaksAt before.toList symbol := by
  obtain ⟨before, symbol, after, hword, hbreaks⟩ := exists_breaksAt h
  refine ⟨.ofList before, symbol, .ofList after, ?_, by rwa [String.toList_ofList]⟩
  apply String.toList_injective
  simp [hword]

/-- At the break no branch is open, and the symbol closes one. -/
theorem BreaksAt.opened_eq_closed {before : List Char} {symbol : Char}
    (h : b.BreaksAt before symbol) : b.opened before = b.closed before := by
  have hnests := h.nests before (List.prefix_refl before)
  have hoverdrawn := h.overdrawn
  have hone : b.closed [symbol] ≤ 1 := List.countP_le_length
  rw [opened_append, closed_append] at hoverdrawn
  omega

theorem BreaksAt.closes {before : List Char} {symbol : Char} (h : b.BreaksAt before symbol) :
    b.closes symbol = true := by
  have hoverdrawn := h.overdrawn
  rw [opened_append, closed_append, h.opened_eq_closed] at hoverdrawn
  cases hcloses : b.closes symbol with
  | true => rfl
  | false => simp [closed, hcloses] at hoverdrawn

end Brackets

end LSystem
