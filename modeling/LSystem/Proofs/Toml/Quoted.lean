import LSystem.Proofs.Toml.Spacing
import LSystem.Toml.Quoted
import Mathlib

/-!
# Quoted strings are read back

Each style is read back on its own (`quoted?_encode`), whatever it was chosen for, as long as a
literal style is not used for characters that it cannot hold; the choice of a style sees to that
(`fits_ofValue`, `fits_ofKey`). Over several lines the reader looks for three quotes at each
character. It must not find them too early: neither strings that are written literally nor those
with escapes show three quotes in a row before their end.
-/

namespace LSystem.Toml

/-! ### Characters -/

theorem isText_of_not_isControl {c : Char} (hcontrol : isControl c = false) (hfeed : c ≠ '\n') :
    isText c = true := by
  simp only [isControl, Bool.or_eq_false_iff, Bool.and_eq_false_iff, decide_eq_false_iff_not,
    bne_eq_false_iff_eq, beq_eq_false_iff_ne, hfeed, or_false] at hcontrol
  obtain ⟨hlow, hdelete⟩ := hcontrol
  rw [isText, Bool.or_eq_true, Bool.and_eq_true, beq_iff_eq, decide_eq_true_eq, bne_iff_ne]
  rcases hlow with hlow | htab
  · exact .inr ⟨Char.not_lt.1 hlow, hdelete⟩
  · exact .inl htab

theorem toNat_lt_of_isControl {c : Char} (hcontrol : isControl c = true) : c.toNat < 128 := by
  simp only [isControl, Bool.or_eq_true, Bool.and_eq_true, decide_eq_true_eq, beq_iff_eq]
    at hcontrol
  rcases hcontrol with ⟨⟨hlow, _⟩, _⟩ | rfl
  · have hnat : c.toNat < 32 := hlow
    omega
  · decide

/-! ### Escapes -/

theorem hexEscape?_control {c : Char} (hcontrol : isControl c = true) (back : List Char) :
    hexEscape? 4 ('0' :: '0' :: hexDigit (c.toNat / 16) :: hexDigit (c.toNat % 16) :: back) =
      some (c, back) := by
  have hall : ∀ n < 128, [(hexDigit (n / 16)), (hexDigit (n % 16))].all (Number.isDigitIn 16) ∧
      Number.ofDigits 16 ['0', '0', hexDigit (n / 16), hexDigit (n % 16)] = n := by decide
  obtain ⟨hdigits, hvalue⟩ := hall c.toNat (toNat_lt_of_isControl hcontrol)
  have hzero : Number.isDigitIn 16 '0' = true := by decide
  have hvalid : c.toNat.isValidChar := c.valid
  simp only [List.all_cons, List.all_nil, Bool.and_true, Bool.and_eq_true] at hdigits
  simp [hexEscape?, hvalue, hdigits, hzero, hvalid]

/-- A character of a string with escapes is either written as it is, or as a backslash and
characters that are read as this character and not as the end of a line. -/
theorem escaped_cases (c : Char) :
    (escaped c = [c] ∧ isText c = true ∧ c ≠ '"' ∧ c ≠ '\\') ∨
      ∃ code, escaped c = '\\' :: code ∧ ∀ back, escape? (code ++ back) = some (c, back) ∧
        joinedLine? (code ++ back) = none := by
  by_cases hquote : c = '"'
  · subst hquote
    exact .inr ⟨['"'], rfl, fun back => ⟨rfl, rfl⟩⟩
  by_cases hbackslash : c = '\\'
  · subst hbackslash
    exact .inr ⟨['\\'], rfl, fun back => ⟨rfl, rfl⟩⟩
  by_cases hbell : c = '\x08'
  · subst hbell
    exact .inr ⟨['b'], rfl, fun back => ⟨rfl, rfl⟩⟩
  by_cases htab : c = '\t'
  · subst htab
    exact .inr ⟨['t'], rfl, fun back => ⟨rfl, rfl⟩⟩
  by_cases hfeed : c = '\n'
  · subst hfeed
    exact .inr ⟨['n'], rfl, fun back => ⟨rfl, rfl⟩⟩
  by_cases hform : c = '\x0c'
  · subst hform
    exact .inr ⟨['f'], rfl, fun back => ⟨rfl, rfl⟩⟩
  by_cases hreturn : c = '\r'
  · subst hreturn
    exact .inr ⟨['r'], rfl, fun back => ⟨rfl, rfl⟩⟩
  simp only [escaped, hquote, hbackslash, hbell, htab, hfeed, hform, hreturn, if_false]
  cases hcontrol : isControl c with
  | false => exact .inl ⟨rfl, isText_of_not_isControl hcontrol hfeed, hquote, hbackslash⟩
  | true => exact .inr ⟨_, rfl, fun back => ⟨hexEscape?_control hcontrol back, rfl⟩⟩

/-! ### One line -/

theorem basicBody_escape {code back : List Char} {c : Char}
    (hread : escape? code = some (c, back)) :
    basicBody ('\\' :: code) = (basicBody back).map fun (s, rest) => (c :: s, rest) := by
  rw [basicBody]
  simp only [show ('\\' : Char) ≠ '"' by decide, if_false, if_true]
  split
  · next hnone => exact absurd (hread.symm.trans hnone) (Option.some_ne_none _)
  · next hsome =>
    rw [hread] at hsome
    cases hsome
    rfl

theorem basicBody_text {c : Char} (htext : isText c = true) (hquote : c ≠ '"')
    (hbackslash : c ≠ '\\') (back : List Char) :
    basicBody (c :: back) = (basicBody back).map fun (s, rest) => (c :: s, rest) := by
  rw [basicBody, if_neg hquote, if_neg hbackslash, if_pos htext]

theorem basicBody_escaped (c : Char) (back : List Char) :
    basicBody (escaped c ++ back) = (basicBody back).map fun (s, rest) => (c :: s, rest) := by
  rcases escaped_cases c with ⟨hplain, htext, hquote, hbackslash⟩ | ⟨code, hcode, hread⟩
  · rw [hplain]
    exact basicBody_text htext hquote hbackslash back
  · rw [hcode]
    exact basicBody_escape (hread back).1

theorem basicBody_encode (s rest : List Char) :
    basicBody (s.flatMap escaped ++ '"' :: rest) = some (s, rest) := by
  induction s with
  | nil => rw [List.flatMap_nil, List.nil_append, basicBody, if_pos rfl]
  | cons c s ih =>
    rw [List.flatMap_cons, List.append_assoc, basicBody_escaped, ih]
    rfl

theorem literalBody_encode {s : List Char} (htext : ∀ c ∈ s, isText c = true ∧ c ≠ '\'')
    (rest : List Char) : literalBody (s ++ '\'' :: rest) = some (s, rest) := by
  induction s with
  | nil => rfl
  | cons c s ih =>
    obtain ⟨htext', hquote⟩ := htext c (by simp)
    rw [List.cons_append, literalBody, if_neg hquote, if_pos htext',
      ih (fun d hmem => htext d (List.mem_cons_of_mem c hmem))]
    rfl

/-! ### Runs of quotes -/

section Runs

variable {quote : Char}

/-- How many quotes stand in front. -/
def leadingRun (quote : Char) (cs : List Char) : Nat := (cs.takeWhile (· == quote)).length

theorem leadingRun_cons_self (cs : List Char) :
    leadingRun quote (quote :: cs) = leadingRun quote cs + 1 := by
  rw [leadingRun, List.takeWhile_cons_of_pos (by simp), List.length_cons]
  rfl

theorem leadingRun_cons_of_ne {c : Char} (hne : c ≠ quote) (cs : List Char) :
    leadingRun quote (c :: cs) = 0 := by
  rw [leadingRun, List.takeWhile_cons_of_neg (by simp [hne])]
  rfl

/-- Three quotes close a string, and those before them belong to it. -/
theorem closing?_of_forall {s rest : List Char} (hall : ∀ c ∈ s, c = quote)
    (hshort : leadingRun quote s ≤ 2) (hstop : Stops (· == quote) rest) :
    closing? quote (s ++ quote :: quote :: quote :: rest) = some (s, rest) := by
  have hself : ∀ c ∈ s, (c == quote) = true := fun c hmem => by simp [hall c hmem]
  have hrun : leadingRun quote s = s.length := by
    have hwhole := takeWhile_append_of_stops hself (stops_nil _)
    rw [List.append_nil] at hwhole
    rw [leadingRun, hwhole]
  have hfront : ∀ c ∈ s ++ [quote, quote, quote], (c == quote) = true := by
    intro c hmem
    rcases List.mem_append.1 hmem with hmem | hmem
    · exact hself c hmem
    · simpa using hmem
  have htake := takeWhile_append_of_stops hfront hstop
  have hlength : (s ++ [quote, quote, quote]).length = s.length + 3 := by simp
  have hreplicate : s = List.replicate s.length quote := List.eq_replicate_of_mem hall
  rw [List.append_assoc] at htake
  change closing? quote (s ++ ([quote, quote, quote] ++ rest)) = some (s, rest)
  simp only [closing?, htake, hlength]
  rw [if_neg (by omega), Nat.min_eq_left (by omega), Nat.add_sub_cancel, ← hreplicate,
    ← List.append_assoc, ← hlength, List.drop_left]

/-- A string that goes on behind fewer than three quotes is not closed. -/
theorem closing?_of_mem {s : List Char} {c : Char} (hmem : c ∈ s) (hne : c ≠ quote)
    (hshort : leadingRun quote s ≤ 2) (back : List Char) : closing? quote (s ++ back) = none := by
  have hless : (s.takeWhile (· == quote)).length ≠ s.length := by
    intro heq
    have hall : (s.takeWhile (· == quote)).all (· == quote) = true := List.all_takeWhile
    rw [(List.takeWhile_sublist (· == quote)).eq_of_length heq, List.all_eq_true] at hall
    exact hne (eq_of_beq (hall c hmem))
  rw [leadingRun] at hshort
  simp only [closing?, List.takeWhile_append, if_neg hless]
  rw [if_pos (by omega)]

theorem closing?_cases {s rest : List Char} (hshort : leadingRun quote s ≤ 2)
    (hstop : Stops (· == quote) rest) :
    closing? quote (s ++ quote :: quote :: quote :: rest) = some (s, rest) ∧
        (∀ c ∈ s, c = quote) ∨
      closing? quote (s ++ quote :: quote :: quote :: rest) = none ∧ ∃ c ∈ s, c ≠ quote := by
  by_cases hother : ∃ c ∈ s, c ≠ quote
  · obtain ⟨c, hmem, hne⟩ := hother
    exact .inr ⟨closing?_of_mem hmem hne hshort _, c, hmem, hne⟩
  · have hall : ∀ c ∈ s, c = quote :=
      fun c hmem => Classical.byContradiction fun hne => hother ⟨c, hmem, hne⟩
    exact .inl ⟨closing?_of_forall hall hshort hstop, hall⟩

theorem leadingRun_le_longestRun (s : List Char) (run : Nat) :
    run + leadingRun quote s ≤ longestRun quote run s := by
  induction s generalizing run with
  | nil => exact Nat.le_refl run
  | cons c s ih =>
    rw [longestRun]
    split
    · next heq =>
      subst heq
      have hrest := ih (run + 1)
      rw [leadingRun_cons_self]
      omega
    · next hne =>
      rw [leadingRun_cons_of_ne hne]
      omega

theorem longestRun_mono (s : List Char) {fewer more : Nat} (hle : fewer ≤ more) :
    longestRun quote fewer s ≤ longestRun quote more s := by
  induction s generalizing fewer more with
  | nil => exact hle
  | cons c s ih =>
    rw [longestRun, longestRun]
    split
    · exact ih (Nat.succ_le_succ hle)
    · omega

theorem longestRun_tail_le (c : Char) (s : List Char) :
    longestRun quote 0 s ≤ longestRun quote 0 (c :: s) := by
  rw [longestRun]
  split
  · exact longestRun_mono s (Nat.zero_le 1)
  · exact Nat.le_max_right 0 _

end Runs

/-! ### Several lines -/

theorem multilineLiteralBody_encode {s rest : List Char}
    (htext : ∀ c ∈ s, c = '\n' ∨ isText c = true) (hruns : longestRun '\'' 0 s ≤ 2)
    (hstop : Stops (· == '\'') rest) :
    multilineLiteralBody (s ++ '\'' :: '\'' :: '\'' :: rest) = some (s, rest) := by
  induction s with
  | nil =>
    have hclosing := @closing?_of_forall '\'' [] rest (by simp) (by decide) hstop
    rw [List.nil_append] at hclosing ⊢
    rw [multilineLiteralBody, hclosing]
  | cons c s ih =>
    have hleading := @leadingRun_le_longestRun '\'' (c :: s) 0
    have hshort : leadingRun '\'' (c :: s) ≤ 2 := by omega
    rcases closing?_cases hshort hstop with ⟨hclosing, _⟩ | ⟨hclosing, _⟩
    · rw [List.cons_append] at hclosing ⊢
      rw [multilineLiteralBody, hclosing]
    · have hnext := ih (fun d hmem => htext d (List.mem_cons_of_mem c hmem))
        (Nat.le_trans (longestRun_tail_le c s) hruns)
      have hreturn : c ≠ '\r' := by
        rintro rfl
        exact absurd (htext '\r' (by simp)) (by decide)
      have hkept : (decide (c = '\n') || isText c) = true := by simpa using htext c (by simp)
      rw [List.cons_append] at hclosing ⊢
      rw [multilineLiteralBody, hclosing]
      simp only [hreturn, if_false, hkept, if_true, hnext, Option.map_some]

/-! The same with escapes: of the quotes in a row each third one is escaped. -/

theorem exists_escaped_eq_cons (c : Char) :
    ∃ d code, escaped c = d :: code ∧ d ≠ '"' ∧ isText d = true := by
  rcases escaped_cases c with ⟨hplain, htext, hquote, _⟩ | ⟨code, hcode, _⟩
  · exact ⟨c, [], hplain, hquote, htext⟩
  · exact ⟨'\\', code, hcode, by decide, by decide⟩

theorem leadingRun_multilineEscaped (s : List Char) {run : Nat} (hrun : run ≤ 2) :
    run + leadingRun '"' (multilineEscaped run s) ≤ 2 := by
  induction s generalizing run with
  | nil => exact hrun
  | cons c s ih =>
    rw [multilineEscaped]
    split
    · split
      · next hless =>
        have hnext := ih (show run + 1 ≤ 2 from hless)
        rw [leadingRun_cons_self]
        omega
      · rw [leadingRun_cons_of_ne (by decide)]
        omega
    · split
      · rw [leadingRun_cons_of_ne (by decide)]
        omega
      · obtain ⟨d, code, hcode, hne, _⟩ := exists_escaped_eq_cons c
        rw [hcode, List.cons_append, leadingRun_cons_of_ne hne]
        omega

theorem multilineEscaped_of_forall {s : List Char} {run : Nat}
    (hall : ∀ c ∈ multilineEscaped run s, c = '"') : multilineEscaped run s = s := by
  induction s generalizing run with
  | nil => rfl
  | cons c s ih =>
    rw [multilineEscaped] at hall ⊢
    split at hall
    · next hquote =>
      subst hquote
      split at hall
      · next hless =>
        rw [if_pos rfl, if_pos hless, ih (fun d hmem => hall d (List.mem_cons_of_mem _ hmem))]
      · exact absurd (hall '\\' (by simp)) (by decide)
    · split at hall
      · exact absurd (hall '\n' (by simp)) (by decide)
      · obtain ⟨d, code, hcode, hne, _⟩ := exists_escaped_eq_cons c
        exact absurd (hall d (by simp [hcode])) hne

theorem multilineBasicBody_escape {code back : List Char} {c : Char}
    (hclosing : closing? '"' ('\\' :: code) = none) (hjoined : joinedLine? code = none)
    (hread : escape? code = some (c, back)) :
    multilineBasicBody ('\\' :: code) =
      (multilineBasicBody back).map fun (s, rest) => (c :: s, rest) := by
  rw [multilineBasicBody, hclosing]
  simp only [if_true]
  split
  · next hsome => exact absurd (hjoined.symm.trans hsome).symm (Option.some_ne_none _)
  · split
    · next hnone => exact absurd (hread.symm.trans hnone) (Option.some_ne_none _)
    · next hsome =>
      rw [hread] at hsome
      cases hsome
      rfl

theorem multilineBasicBody_text {c : Char} {back : List Char}
    (hclosing : closing? '"' (c :: back) = none) (htext : c = '\n' ∨ isText c = true)
    (hbackslash : c ≠ '\\') :
    multilineBasicBody (c :: back) =
      (multilineBasicBody back).map fun (s, rest) => (c :: s, rest) := by
  have hreturn : c ≠ '\r' := by
    rintro rfl
    exact absurd htext (by decide)
  have hkept : (decide (c = '\n') || isText c) = true := by simpa using htext
  rw [multilineBasicBody, hclosing]
  simp only [hbackslash, hreturn, if_false, hkept, if_true]

theorem multilineBasicBody_escaped {c : Char} {back : List Char}
    (hclosing : closing? '"' (escaped c ++ back) = none) :
    multilineBasicBody (escaped c ++ back) =
      (multilineBasicBody back).map fun (s, rest) => (c :: s, rest) := by
  rcases escaped_cases c with ⟨hplain, htext, _, hbackslash⟩ | ⟨code, hcode, hread⟩
  · rw [hplain, List.singleton_append] at hclosing ⊢
    exact multilineBasicBody_text hclosing (.inr htext) hbackslash
  · rw [hcode, List.cons_append] at hclosing ⊢
    exact multilineBasicBody_escape hclosing (hread back).2 (hread back).1

theorem multilineBasicBody_encode {s rest : List Char} {run : Nat} (hrun : run ≤ 2)
    (hstop : Stops (· == '"') rest) :
    multilineBasicBody (multilineEscaped run s ++ '"' :: '"' :: '"' :: rest) = some (s, rest) := by
  induction s generalizing run with
  | nil =>
    have hclosing := @closing?_of_forall '"' [] rest (by simp) (by decide) hstop
    rw [List.nil_append] at hclosing
    rw [multilineEscaped, List.nil_append, multilineBasicBody, hclosing]
  | cons c s ih =>
    have hleading := leadingRun_multilineEscaped (c :: s) hrun
    have hshort : leadingRun '"' (multilineEscaped run (c :: s)) ≤ 2 := by omega
    rcases closing?_cases hshort hstop with ⟨hclosing, hall⟩ | ⟨hclosing, _⟩
    · rw [multilineEscaped_of_forall hall, List.cons_append] at hclosing ⊢
      rw [multilineBasicBody, hclosing]
    · rw [multilineEscaped] at hclosing ⊢
      by_cases hquote : c = '"'
      · subst hquote
        by_cases hless : run < 2
        · simp only [if_true, hless, List.cons_append] at hclosing ⊢
          rw [multilineBasicBody_text hclosing (by decide) (by decide), ih hless]
          rfl
        · simp only [if_true, hless, if_false, List.cons_append] at hclosing ⊢
          rw [multilineBasicBody_escape hclosing rfl rfl, ih (by decide)]
          rfl
      · by_cases hfeed : c = '\n'
        · subst hfeed
          simp only [hquote, if_false, if_true, List.cons_append] at hclosing ⊢
          rw [multilineBasicBody_text hclosing (.inl rfl) (by decide), ih (by decide)]
          rfl
        · simp only [hquote, hfeed, if_false, List.append_assoc] at hclosing ⊢
          rw [multilineBasicBody_escaped hclosing, ih (by decide)]
          rfl

/-! ### All styles -/

/-- Whether a string can be written in a style. -/
def QuoteStyle.Fits (s : List Char) : QuoteStyle → Prop
  | basic => True
  | literal => ∀ c ∈ s, isText c = true ∧ c ≠ '\''
  | multilineBasic => True
  | multilineLiteral => (∀ c ∈ s, c = '\n' ∨ isText c = true) ∧ longestRun '\'' 0 s ≤ 2

/-- What may stand behind a string: no quotes, which could belong to it. -/
def EndsQuoted : List Char → Prop := Stops fun c => c == '"' || c == '\''

theorem EndsQuoted.double {rest : List Char} (hends : EndsQuoted rest) : Stops (· == '"') rest :=
  fun c hc => (Bool.or_eq_false_iff.1 (hends c hc)).1

theorem EndsQuoted.single {rest : List Char} (hends : EndsQuoted rest) : Stops (· == '\'') rest :=
  fun c hc => (Bool.or_eq_false_iff.1 (hends c hc)).2

theorem quoted?_double {body : List Char} (hbody : ∀ more, body ≠ '"' :: '"' :: more) :
    quoted? ('"' :: body) = (basicBody body).map fun (s, rest) => (String.ofList s, rest) := by
  unfold quoted?
  split
  · next heq => exact absurd (List.cons.inj heq).2 (hbody _)
  · next heq => rw [(List.cons.inj heq).2]
  · next heq => exact absurd (List.cons.inj heq).1 (by decide)
  · next heq => exact absurd (List.cons.inj heq).1 (by decide)
  · next hnot _ _ => exact absurd rfl (hnot body)

theorem quoted?_single {body : List Char} (hbody : ∀ more, body ≠ '\'' :: '\'' :: more) :
    quoted? ('\'' :: body) = (literalBody body).map fun (s, rest) => (String.ofList s, rest) := by
  unfold quoted?
  split
  · next heq => exact absurd (List.cons.inj heq).1 (by decide)
  · next heq => exact absurd (List.cons.inj heq).1 (by decide)
  · next heq => exact absurd (List.cons.inj heq).2 (hbody _)
  · next heq => rw [(List.cons.inj heq).2]
  · next hnot => exact absurd rfl (hnot body)

/-- A quote directly behind the opening one is the closing one, and there is no third. -/
theorem ne_two_quotes {quote : Char} {s rest : List Char} (hs : Stops (· == quote) s)
    (hrest : Stops (· == quote) rest) (more : List Char) :
    s ++ quote :: rest ≠ quote :: quote :: more := by
  intro heq
  cases s with
  | nil =>
    have hquote := hrest quote (by rw [(List.cons.inj heq).2]; rfl)
    simp at hquote
  | cons c s =>
    have hquote := hs c rfl
    simp [(List.cons.inj heq).1] at hquote

theorem skipNewline_multiline {s body : List Char}
    (hbody : '\n' ∉ s → newline? body = none) :
    skipNewline ((if s.contains '\n' then ['\n'] else []) ++ body) = body := by
  split
  · rfl
  · next hfeed =>
    rw [List.nil_append, skipNewline, hbody (by simpa using hfeed)]
    rfl

theorem newline?_of_isText {c : Char} (htext : isText c = true) (cs : List Char) :
    newline? (c :: cs) = none := by
  unfold newline?
  split
  · next heq =>
    rw [(List.cons.inj heq).1] at htext
    exact absurd htext (by decide)
  · next heq =>
    rw [(List.cons.inj heq).1] at htext
    exact absurd htext (by decide)
  · rfl

theorem newline?_multilineEscaped {s : List Char} (hfeed : '\n' ∉ s) (back : List Char) :
    newline? (multilineEscaped 0 s ++ '"' :: back) = none := by
  cases s with
  | nil => exact newline?_of_isText (by decide) back
  | cons c s =>
    have hne : c ≠ '\n' := by
      rintro rfl
      exact hfeed (by simp)
    rw [multilineEscaped]
    split
    · exact newline?_of_isText (by decide) _
    · obtain ⟨d, code, hcode, _, htext⟩ := exists_escaped_eq_cons c
      rw [hcode]
      exact newline?_of_isText htext _

theorem newline?_literal {s : List Char} (htext : ∀ c ∈ s, c = '\n' ∨ isText c = true)
    (hfeed : '\n' ∉ s) (back : List Char) : newline? (s ++ '\'' :: back) = none := by
  cases s with
  | nil => exact newline?_of_isText (by decide) back
  | cons c s =>
    rcases htext c (by simp) with rfl | htext'
    · exact absurd (by simp) hfeed
    · exact newline?_of_isText htext' _

theorem quoted?_encode {style : QuoteStyle} {s rest : List Char} (hfits : style.Fits s)
    (hends : EndsQuoted rest) :
    quoted? (style.encode s ++ rest) = some (String.ofList s, rest) := by
  cases style with
  | basic =>
    have hstart : Stops (· == '"') (s.flatMap escaped) := by
      cases s with
      | nil => exact stops_nil _
      | cons c s =>
        obtain ⟨d, code, hcode, hne, _⟩ := exists_escaped_eq_cons c
        rw [List.flatMap_cons, hcode]
        exact stops_cons (by simp [hne]) _
    have hshape : QuoteStyle.basic.encode s ++ rest =
        '"' :: (s.flatMap escaped ++ '"' :: rest) := by simp [QuoteStyle.encode]
    rw [hshape, quoted?_double (ne_two_quotes hstart hends.double), basicBody_encode]
    rfl
  | literal =>
    have hstart : Stops (· == '\'') s := by
      intro c hc
      simp [(hfits c (List.mem_of_mem_head? hc)).2]
    have hshape : QuoteStyle.literal.encode s ++ rest = '\'' :: (s ++ '\'' :: rest) := by
      simp [QuoteStyle.encode]
    rw [hshape, quoted?_single (ne_two_quotes hstart hends.single), literalBody_encode hfits]
    rfl
  | multilineBasic =>
    have hbody := @multilineBasicBody_encode s rest 0 (by decide) hends.double
    have hshape : QuoteStyle.multilineBasic.encode s ++ rest =
        '"' :: '"' :: '"' :: ((if s.contains '\n' then ['\n'] else []) ++
          (multilineEscaped 0 s ++ '"' :: '"' :: '"' :: rest)) := by
      simp [QuoteStyle.encode, multilineQuoted]
    have hskip := fun hfeed : '\n' ∉ s => newline?_multilineEscaped hfeed ('"' :: '"' :: rest)
    rw [hshape]
    simp only [quoted?, skipNewline_multiline hskip, hbody, Option.map_some]
  | multilineLiteral =>
    have hbody := multilineLiteralBody_encode hfits.1 hfits.2 hends.single
    have hshape : QuoteStyle.multilineLiteral.encode s ++ rest =
        '\'' :: '\'' :: '\'' :: ((if s.contains '\n' then ['\n'] else []) ++
          (s ++ '\'' :: '\'' :: '\'' :: rest)) := by
      simp [QuoteStyle.encode, multilineQuoted]
    have hskip := fun hfeed => newline?_literal hfits.1 hfeed ('\'' :: '\'' :: rest)
    rw [hshape]
    simp only [quoted?, skipNewline_multiline hskip, hbody, Option.map_some]

/-! ### The choice of a style -/

theorem ne_of_longestRun_eq_zero {quote : Char} {s : List Char} {run : Nat}
    (hzero : longestRun quote run s = 0) {c : Char} (hmem : c ∈ s) : c ≠ quote := by
  induction s generalizing run with
  | nil => exact nomatch hmem
  | cons d s ih =>
    rw [longestRun] at hzero
    split at hzero
    · have hle := @leadingRun_le_longestRun quote s (run + 1)
      omega
    · next hne =>
      rcases List.mem_cons.1 hmem with rfl | hmem
      · exact hne
      · have hrest : longestRun quote 0 s = 0 := by omega
        exact ih hrest hmem

theorem fits_literal {s : List Char} (hcontrol : s.any isControl = false)
    (hfeed : s.contains '\n' = false) (hquote : ∀ c ∈ s, c ≠ '\'') :
    QuoteStyle.literal.Fits s := by
  intro c hmem
  refine ⟨isText_of_not_isControl (by simpa using List.any_eq_false.1 hcontrol c hmem) ?_,
    hquote c hmem⟩
  rintro rfl
  simp [hmem] at hfeed

theorem fits_multilineLiteral {s : List Char} (hcontrol : s.any isControl = false)
    (hruns : longestRun '\'' 0 s ≤ 2) : QuoteStyle.multilineLiteral.Fits s := by
  refine ⟨fun c hmem => ?_, hruns⟩
  by_cases hfeed : c = '\n'
  · exact .inl hfeed
  · exact .inr (isText_of_not_isControl (by simpa using List.any_eq_false.1 hcontrol c hmem) hfeed)

theorem fits_ofValue (s : List Char) : (QuoteStyle.ofValue s).Fits s := by
  dsimp only [QuoteStyle.ofValue]
  split
  · trivial
  split
  · next hchosen =>
    simp only [Bool.and_eq_true, Bool.not_eq_true', decide_eq_true_eq] at hchosen
    obtain ⟨⟨hcontrol, hfeed⟩, hruns⟩ := hchosen
    exact fits_literal hcontrol hfeed fun c hmem => ne_of_longestRun_eq_zero hruns hmem
  split
  · trivial
  split
  · next hchosen =>
    simp only [Bool.and_eq_true, Bool.not_eq_true', decide_eq_true_eq] at hchosen
    exact fits_multilineLiteral hchosen.1 hchosen.2
  split
  · trivial
  · trivial

theorem fits_ofKey (s : List Char) : (QuoteStyle.ofKey s).Fits s := by
  dsimp only [QuoteStyle.ofKey]
  split
  · trivial
  split
  · next hchosen =>
    simp only [Bool.and_eq_true, Bool.not_eq_true', List.any_eq_false, Bool.or_eq_true,
      beq_iff_eq, not_or] at hchosen
    obtain ⟨hcontrol, hquote⟩ := hchosen
    intro c hmem
    refine ⟨isText_of_not_isControl (by simpa using (hcontrol c hmem).1) (hcontrol c hmem).2, ?_⟩
    rintro rfl
    simp [hmem] at hquote
  · trivial

theorem quoted?_encodeString (s : String) {rest : List Char} (hends : EndsQuoted rest) :
    quoted? (encodeString s ++ rest) = some (s, rest) := by
  rw [encodeString, quoted?_encode (fits_ofValue s.toList) hends, String.ofList_toList]

end LSystem.Toml
