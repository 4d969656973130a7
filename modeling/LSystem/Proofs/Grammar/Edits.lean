import LSystem.Grammar.Basic
import LSystem.Proofs.SortedMap
import Mathlib.Data.Set.Card

/-!
# Editing grammars

A grammar says of every symbol by what it is replaced, or that it is a terminal, and there is no more
to it: two grammars that say the same are the same (`eq_iff_rule?`). An edit settles what is said of
some symbols and leaves the others alone, so what a grammar says after any number of edits is what
the last edit settled that concerned the symbol (`rule?_editAll`). Whether a production was there
before makes no difference, nor whether it was given alone or in a list.

The main statement is `editAll_finiteMap`.
-/

namespace LSystem.Grammar

/-- A change of a grammar. -/
inductive Edit where
  | withRule (symbol : Char) (replacement : String)
  | setRule (symbol : Char) (replacement : String)
  | removeRule (symbol : Char)
  /-- Starts again, with the given productions. -/
  | ofRules (rules : List (Char × String))

namespace Edit

/-- What the edit settles about a symbol: its replacement, or that it is a terminal. There is no
answer for a symbol that the edit does not concern. -/
def settles (edit : Edit) (symbol : Char) : Option (Option String) :=
  match edit with
  | .withRule changed replacement | .setRule changed replacement =>
    if symbol = changed then some (some replacement) else none
  | .removeRule changed => if symbol = changed then some none else none
  | .ofRules rules => some (rules.reverse.lookup symbol)

/-- The symbol that the edit names, if it is about a single one. -/
def symbol? : Edit → Option Char
  | .withRule symbol _ | .setRule symbol _ | .removeRule symbol => some symbol
  | .ofRules _ => none

variable {edit : Edit} {symbol other : Char}

theorem settles_of_ne (hnamed : edit.symbol? = some symbol) (hne : other ≠ symbol) :
    edit.settles other = none := by
  cases edit with
  | withRule _ _ | setRule _ _ | removeRule _ =>
    cases hnamed
    exact if_neg hne
  | ofRules _ => exact nomatch hnamed

end Edit

def edit (g : Grammar) : Edit → Grammar
  | .withRule symbol replacement => g.withRule symbol replacement
  | .setRule symbol replacement => (g.setRule symbol replacement).2
  | .removeRule symbol => (g.removeRule symbol).2
  | .ofRules rules => ofRules rules

def editAll (g : Grammar) (edits : List Edit) : Grammar := edits.foldl edit g

variable {g h : Grammar} {symbol other : Char}

/-! ### One edit -/

theorem rule?_setRule (g : Grammar) (symbol other : Char) (replacement : String) :
    (g.setRule symbol replacement).2.rule? other =
      if other = symbol then some replacement else g.rule? other :=
  g.rules.get?_insert symbol other replacement

theorem rule?_removeRule (g : Grammar) (symbol other : Char) :
    (g.removeRule symbol).2.rule? other = if other = symbol then none else g.rule? other :=
  g.rules.get?_extract symbol other

theorem rule?_edit (g : Grammar) (edit : Edit) (symbol : Char) :
    (g.edit edit).rule? symbol = (edit.settles symbol).getD (g.rule? symbol) := by
  cases edit with
  | withRule changed replacement | setRule changed replacement =>
    refine (rule?_setRule g changed symbol replacement).trans ?_
    rw [Edit.settles]
    split <;> rfl
  | removeRule changed =>
    refine (rule?_removeRule g changed symbol).trans ?_
    rw [Edit.settles]
    split <;> rfl
  | ofRules rules => exact SortedMap.get?_ofList rules symbol

/-! ### All edits -/

/-- The last edit that concerned a symbol counts. -/
theorem rule?_editAll (g : Grammar) (edits : List Edit) (symbol : Char) :
    (g.editAll edits).rule? symbol =
      (edits.reverse.findSome? (·.settles symbol)).getD (g.rule? symbol) := by
  induction edits using List.reverseRecOn with
  | nil => rfl
  | append_singleton edits last ih =>
    rw [editAll, List.foldl_append, List.foldl_cons, List.foldl_nil, rule?_edit, List.reverse_append,
      List.reverse_singleton, List.singleton_append, List.findSome?_cons]
    cases last.settles symbol with
    | some settled => rfl
    | none => exact ih

/-! ### Grammars as finite maps -/

theorem eq_iff_rule? : g = h ↔ ∀ symbol, g.rule? symbol = h.rule? symbol := by
  constructor
  · rintro rfl symbol
    rfl
  · intro hrule
    cases g
    cases h
    exact congrArg Grammar.mk (SortedMap.ext_get? hrule)

theorem edit_comm {edit further : Edit} (hedit : edit.symbol? = some symbol)
    (hfurther : further.symbol? = some other) (hne : symbol ≠ other) (g : Grammar) :
    (g.edit edit).edit further = (g.edit further).edit edit := by
  rw [eq_iff_rule?]
  intro c
  rw [rule?_edit, rule?_edit, rule?_edit, rule?_edit]
  by_cases hc : c = symbol
  · subst hc
    rw [Edit.settles_of_ne hfurther hne]
    rfl
  · rw [Edit.settles_of_ne hedit hc]
    rfl

theorem mem_toList_iff {replacement : String} :
    (symbol, replacement) ∈ g.toList ↔ g.rule? symbol = some replacement :=
  SortedMap.get?_eq_some_iff.symm

/-- The productions are listed by the code points of their symbols. -/
theorem codes_increase (g : Grammar) : (g.toList.map (·.1.toNat)).Pairwise (· < ·) :=
  List.pairwise_map.2 (g.rules.ordered.imp fun hlt => UInt32.lt_iff_toNat_lt.1 hlt)

theorem encard_symbols (g : Grammar) :
    {symbol | (g.rule? symbol).isSome = true}.encard = g.size := by
  have hset : {symbol | (g.rule? symbol).isSome = true} =
      ((g.toList.map Prod.fst).toFinset : Set Char) := by
    ext symbol
    simp [Option.isSome_iff_exists, ← mem_toList_iff]
  have hkeys : (g.toList.map Prod.fst).Nodup := g.rules.nodup_keys
  rw [hset, Set.encard_coe_eq_coe_finsetCard, List.toFinset_card_of_nodup hkeys, List.length_map]
  rfl

/-- A grammar is a finite map from symbols to replacements.

* After any edits it says of a symbol what the last edit settled that concerned it.
* Setting and removing a production give what the grammar said of the symbol before, and an edit of
  one symbol leaves all others alone.
* The productions are listed once each, by code point, and counted by `size`.
* Grammars that say the same of every symbol are the same, so edits of different symbols may change
  places. -/
theorem editAll_finiteMap :
    (∀ (g : Grammar) (edits : List Edit) (symbol : Char),
      (g.editAll edits).rule? symbol =
        (edits.reverse.findSome? (·.settles symbol)).getD (g.rule? symbol)) ∧
    (∀ (g : Grammar) (symbol : Char),
      (∀ replacement, (g.setRule symbol replacement).1 = g.rule? symbol) ∧
        (g.removeRule symbol).1 = g.rule? symbol) ∧
    (∀ (g : Grammar) (edit : Edit) (symbol other : Char), edit.symbol? = some symbol →
      other ≠ symbol → (g.edit edit).rule? other = g.rule? other) ∧
    (∀ g : Grammar,
      (g.toList.map (·.1.toNat)).Pairwise (· < ·) ∧
        (∀ symbol replacement,
          (symbol, replacement) ∈ g.toList ↔ g.rule? symbol = some replacement) ∧
        {symbol | (g.rule? symbol).isSome = true}.encard = g.size ∧
        (g.isEmpty = true ↔ g.size = 0)) ∧
    (∀ g h : Grammar, g = h ↔ ∀ symbol, g.rule? symbol = h.rule? symbol) ∧
    ∀ (g : Grammar) (edit further : Edit) (symbol other : Char), edit.symbol? = some symbol →
      further.symbol? = some other → symbol ≠ other →
        (g.edit edit).edit further = (g.edit further).edit edit := by
  refine ⟨rule?_editAll, fun g symbol => ⟨g.rules.fst_exchange symbol, g.rules.fst_extract symbol⟩,
    fun g edit symbol other hedit hne => ?_, fun g => ?_, fun _ _ => eq_iff_rule?,
    fun g edit further symbol other hedit hfurther hne => edit_comm hedit hfurther hne g⟩
  · rw [rule?_edit, Edit.settles_of_ne hedit hne]
    rfl
  · refine ⟨g.codes_increase, fun _ _ => mem_toList_iff, g.encard_symbols, ?_⟩
    exact List.isEmpty_iff_length_eq_zero

/-- A list with two productions of `F` does away with `X`; then `L` is removed, and `é` set twice. -/
theorem editAll_finiteMap_history :
    let edits : List Edit :=
      [.withRule 'X' "Y", .ofRules [('F', "FF"), ('L', "L"), ('F', "F[+F]")], .setRule 'é' "",
        .removeRule 'L', .setRule 'é' "éL"]
    let g := Grammar.empty.editAll edits
    g.rule? 'F' = some "F[+F]" ∧ g.rule? 'L' = none ∧ g.rule? 'X' = none ∧
      (g.setRule 'é' "").1 = some "éL" ∧ g.toList = [('F', "F[+F]"), ('é', "éL")] ∧
      (Edit.removeRule 'é').symbol? = some 'é' ∧ 'F' ≠ 'é' ∧
      (g.edit (.removeRule 'é')).rule? 'F' = g.rule? 'F' ∧
      (Edit.setRule 'F' "L").symbol? = some 'F' ∧
      (g.edit (.setRule 'F' "L")).edit (.removeRule 'é') =
        (g.edit (.removeRule 'é')).edit (.setRule 'F' "L") := by
  intro edits g
  obtain ⟨hhistory, hprevious, hothers, -, -, hcomm⟩ := editAll_finiteMap
  have hF : g.rule? 'F' = some "F[+F]" := hhistory .empty edits 'F'
  have hne : 'F' ≠ 'é' := by decide
  exact ⟨hF, hhistory .empty edits 'L', hhistory .empty edits 'X', (hprevious g 'é').1 "",
    by decide +kernel, rfl, hne, hothers g (.removeRule 'é') 'é' 'F' rfl hne, rfl,
    hcomm g (.setRule 'F' "L") (.removeRule 'é') 'F' 'é' rfl rfl hne⟩

end LSystem.Grammar
