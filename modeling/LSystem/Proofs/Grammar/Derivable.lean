import LSystem.Proofs.Grammar.Edits
import LSystem.Proofs.Grammar.Sizes

/-!
# What a word can turn into

Not every production of a grammar plays a role for a given word. The symbols that can turn up are
those of the word and, with each of them, those of its replacement (`Derivable`); no pass leaves this
set (`derivable_of_mem_expand`). So two grammars that do the same with these symbols write the same
words, pass by pass, however they differ elsewhere. Doing the same is a matter of images: a
production that replaces a symbol by itself does what no production does.

The predicted size is computed from a table that has entries for all productions, those without a
role included. They have no influence either, for the prediction depends on the expansion alone.

The main statement is `growsAlike_of_image_eq`.
-/

namespace LSystem.Grammar

/-- The symbols of a word, and with each symbol those of its replacement. -/
inductive Derivable (g : Grammar) (word : String) : Char → Prop
  | given {symbol : Char} (hmem : symbol ∈ word.toList) : Derivable g word symbol
  | written {source symbol : Char} {replacement : String} (hsource : Derivable g word source)
      (hrule : g.rule? source = some replacement) (hmem : symbol ∈ replacement.toList) :
      Derivable g word symbol

/-- Two grammars that make the same of a word in any number of passes, and predict the same size. -/
def GrowsAlike (g h : Grammar) (word : String) : Prop :=
  ∀ passes, g.expand word passes = h.expand word passes ∧
    g.expandedSize word passes = h.expandedSize word passes

variable {g h : Grammar} {word : String} {symbol : Char}

/-! ### One pass -/

theorem Derivable.mem_image (hsymbol : g.Derivable word symbol) {other : Char}
    (hmem : other ∈ (g.image symbol).toList) : g.Derivable word other := by
  cases hrule : g.rule? symbol with
  | some replacement =>
    rw [image_of_rule hrule] at hmem
    exact .written hsymbol hrule hmem
  | none =>
    rw [image_of_terminal hrule, String.toList_singleton, List.mem_singleton] at hmem
    rwa [hmem]

/-- On a word of derivable symbols a pass looks at the images of derivable symbols only. -/
theorem rewrite_congr (himage : ∀ symbol, g.Derivable word symbol → g.image symbol = h.image symbol)
    {current : String} (hcurrent : ∀ symbol ∈ current.toList, g.Derivable word symbol) :
    g.rewrite current = h.rewrite current := by
  apply String.toList_injective
  rw [toList_rewrite, toList_rewrite]
  apply List.flatMap_congr
  intro symbol hmem
  rw [himage symbol (hcurrent symbol hmem)]

/-! ### All passes -/

/-- No pass writes a symbol that is not derivable. -/
theorem derivable_of_mem_expand {passes : Nat} (hmem : symbol ∈ (g.expand word passes).toList) :
    g.Derivable word symbol := by
  induction passes generalizing symbol with
  | zero => exact .given hmem
  | succ passes ih =>
    rw [expand_succ, toList_rewrite, List.mem_flatMap] at hmem
    obtain ⟨source, hsource, hmem⟩ := hmem
    exact (ih hsource).mem_image hmem

theorem expand_congr (himage : ∀ symbol, g.Derivable word symbol → g.image symbol = h.image symbol)
    (passes : Nat) : g.expand word passes = h.expand word passes := by
  induction passes with
  | zero => rfl
  | succ passes ih =>
    rw [expand_succ, expand_succ, ← ih]
    exact rewrite_congr himage fun symbol hmem => derivable_of_mem_expand hmem

theorem growsAlike_of_derivable
    (himage : ∀ symbol, g.Derivable word symbol → g.image symbol = h.image symbol) :
    g.GrowsAlike h word := fun passes =>
  ⟨expand_congr himage passes, expandedSize_congr (expand_congr himage passes)⟩

/-! ### Changing productions -/

theorem image_setRule (g : Grammar) (symbol other : Char) (replacement : String) :
    (g.setRule symbol replacement).2.image other =
      if other = symbol then replacement else g.image other := by
  rw [image, rule?_setRule, image]
  split <;> rfl

theorem image_removeRule (g : Grammar) (symbol other : Char) :
    (g.removeRule symbol).2.image other =
      if other = symbol then .singleton symbol else g.image other := by
  rw [image, rule?_removeRule, image]
  by_cases hother : other = symbol
  · simp [hother]
  · simp [hother]

/-- If two grammars replace all derivable symbols alike, they make the same of the word in any number
of passes and predict the same size. So productions of symbols that are not derivable may be added,
changed and removed, and productions that replace a symbol by itself may be added and removed. -/
theorem growsAlike_of_image_eq :
    (∀ (g h : Grammar) (word : String),
      (∀ symbol, g.Derivable word symbol → g.image symbol = h.image symbol) →
        g.GrowsAlike h word) ∧
    (∀ (g : Grammar) (word : String) (symbol : Char), ¬g.Derivable word symbol →
      (∀ replacement, g.GrowsAlike (g.setRule symbol replacement).2 word) ∧
        g.GrowsAlike (g.removeRule symbol).2 word) ∧
    ∀ (g : Grammar) (symbol : Char), g.image symbol = .singleton symbol →
      ∀ word, g.GrowsAlike (g.setRule symbol (.singleton symbol)).2 word ∧
        g.GrowsAlike (g.removeRule symbol).2 word := by
  refine ⟨fun g h word himage => growsAlike_of_derivable himage, fun g word symbol hnone => ?_,
    fun g symbol hidentity word => ?_⟩
  · have hother : ∀ other, g.Derivable word other → other ≠ symbol := by
      rintro other hderivable rfl
      exact hnone hderivable
    refine ⟨fun replacement => growsAlike_of_derivable fun other hderivable => ?_,
      growsAlike_of_derivable fun other hderivable => ?_⟩
    · rw [image_setRule, if_neg (hother other hderivable)]
    · rw [image_removeRule, if_neg (hother other hderivable)]
  · refine ⟨growsAlike_of_derivable fun other _ => ?_, growsAlike_of_derivable fun other _ => ?_⟩
    · rw [image_setRule]
      split
      · next hsame => rw [hsame, hidentity]
      · rfl
    · rw [image_removeRule]
      split
      · next hsame => rw [hsame, hidentity]
      · rfl

/-- `X` and `Y` write each other and never turn up from `F`, and `L` replaces itself. -/
theorem growsAlike_of_image_eq_unused :
    let g := Grammar.ofRules [('F', "FLF"), ('L', "L"), ('X', "FY"), ('Y', "XX")]
    let h := Grammar.ofRules [('F', "FLF"), ('Y', "")]
    (∀ symbol, g.Derivable "F" symbol → g.image symbol = h.image symbol) ∧ g.GrowsAlike h "F" ∧
      ¬g.Derivable "F" 'X' ∧ g.GrowsAlike (g.setRule 'X' "XXX").2 "F" ∧
      g.image 'L' = .singleton 'L' ∧ g.GrowsAlike (g.removeRule 'L').2 "XF" := by
  intro g h
  have hstep : g.image 'F' = "FLF" := rfl
  have hidentity : g.image 'L' = .singleton 'L' := rfl
  have hderivable : ∀ symbol, g.Derivable "F" symbol → symbol = 'F' ∨ symbol = 'L' := by
    intro symbol hsymbol
    induction hsymbol with
    | given hmem => exact .inl (List.mem_singleton.1 hmem)
    | @written source symbol replacement _ hrule hmem ih =>
      rw [← image_of_rule hrule] at hmem
      rcases ih with rfl | rfl
      · rw [hstep] at hmem
        have hsymbols : symbol = 'F' ∨ symbol = 'L' ∨ symbol = 'F' := by simpa using hmem
        tauto
      · rw [hidentity, String.toList_singleton] at hmem
        exact .inr (List.mem_singleton.1 hmem)
  have himage : ∀ symbol, g.Derivable "F" symbol → g.image symbol = h.image symbol := by
    intro symbol hsymbol
    rcases hderivable symbol hsymbol with rfl | rfl <;> rfl
  have hnone : ¬g.Derivable "F" 'X' := fun hsymbol =>
    absurd (hderivable 'X' hsymbol) (by decide)
  obtain ⟨halike, hunused, hneutral⟩ := growsAlike_of_image_eq
  exact ⟨himage, halike g h "F" himage, hnone, (hunused g "F" 'X' hnone).1 "XXX", hidentity,
    (hneutral g 'L' hidentity "XF").2⟩

end LSystem.Grammar
