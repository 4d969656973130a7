import LSystem.Proofs.Toml.Key
import LSystem.Proofs.Toml.Scalar
import LSystem.Toml.Document

/-!
# Values are read back

Plain values are strings, integers of 64 bits, floats, booleans and arrays of plain values. Each is
read back from the front of any text that does not continue it (`value?_encode`), so what is written
behind a value does not matter beyond its first character.
-/

namespace LSystem.Toml

/-- A value that is written without keys and with at most `depth` brackets around each part. -/
inductive Value.Plain : (depth : Nat) → Value → Prop
  | string (depth : Nat) (s : String) : Plain depth (.string s)
  | integer (depth : Nat) {n : Int} (hlow : -0x8000000000000000 ≤ n)
      (hhigh : n < 0x8000000000000000) : Plain depth (.integer n)
  | float (depth : Nat) (x : Float) : Plain depth (.float x)
  | boolean (depth : Nat) (b : Bool) : Plain depth (.boolean b)
  | array {depth : Nat} {items : List Value} (hitems : ∀ v ∈ items, Plain depth v) :
      Plain (depth + 1) (.array items)

/-- What may stand behind a value: neither a character that could continue a word nor a quote. -/
def EndsValue : List Char → Prop :=
  Stops fun c => (isWordChar c || c == ' ') || (c == '"' || c == '\'')

theorem EndsValue.endsWord {rest : List Char} (hends : EndsValue rest) : EndsWord rest :=
  fun c hc => (Bool.or_eq_false_iff.1 (hends c hc)).1

theorem EndsValue.endsQuoted {rest : List Char} (hends : EndsValue rest) : EndsQuoted rest :=
  fun c hc => (Bool.or_eq_false_iff.1 (hends c hc)).2

/-! ### First characters -/

/-- The characters with which plain values start. -/
def isValueStart (c : Char) : Bool := isWordChar c || ['"', '\'', '['].contains c

theorem ne_of_isValueStart {c d : Char} (hstart : isValueStart c = true)
    (hnot : isValueStart d = false) : c ≠ d := by
  rintro rfl
  rw [hstart] at hnot
  exact nomatch hnot

theorem exists_encodeString_eq_cons (s : String) :
    ∃ quote body, encodeString s = quote :: body ∧ (quote = '"' ∨ quote = '\'') := by
  rw [encodeString]
  cases QuoteStyle.ofValue s.toList with
  | basic => exact ⟨_, _, rfl, .inl rfl⟩
  | literal => exact ⟨_, _, rfl, .inr rfl⟩
  | multilineBasic => exact ⟨_, _, rfl, .inl rfl⟩
  | multilineLiteral => exact ⟨_, _, rfl, .inr rfl⟩

theorem double_ne_nil (x : Float) : (floatStyle.double x).toList ≠ [] := by
  intro heq
  have hread := float?_double x
  rw [heq, show float? [] = none from rfl] at hread
  exact nomatch hread

theorem toString_ne_nil (n : Int) : (toString n).toList ≠ [] := by
  rw [toList_toString_int]
  split
  · simp
  · exact Number.decimalDigits_ne_nil n.natAbs

theorem exists_encode_eq_cons {depth : Nat} {v : Value} (hv : v.Plain depth) :
    ∃ c cs, v.encode = c :: cs ∧ isValueStart c = true := by
  have hword : ∀ word : List Char, word ≠ [] → (∀ c ∈ word, isWordChar c = true) →
      ∃ c cs, word = c :: cs ∧ isValueStart c = true := by
    intro word hsome hword
    obtain ⟨c, cs, rfl⟩ := List.exists_cons_of_ne_nil hsome
    exact ⟨c, cs, rfl, by simp [isValueStart, hword c]⟩
  cases hv with
  | string _ s =>
    obtain ⟨quote, body, hbody, hquote⟩ := exists_encodeString_eq_cons s
    refine ⟨quote, body, by rw [Value.encode, hbody], ?_⟩
    rcases hquote with rfl | rfl
    · decide
    · decide
  | integer _ _ _ =>
    rw [Value.encode]
    exact hword _ (toString_ne_nil _) fun c hmem => isWordChar_toString hmem
  | float _ x =>
    rw [Value.encode]
    exact hword _ (double_ne_nil x) fun c hmem => isWordChar_double hmem
  | boolean _ b =>
    rw [Value.encode]
    cases b with
    | false => exact ⟨_, _, rfl, by decide⟩
    | true => exact ⟨_, _, rfl, by decide⟩
  | array _ =>
    rw [Value.encode]
    exact ⟨_, _, rfl, by decide⟩

/-! ### Scalars -/

theorem value?_of_leaf? {depth : Nat} {c : Char} (hbracket : c ≠ '[') (hbrace : c ≠ '{')
    (cs : List Char) : value? depth (c :: cs) = leaf? (c :: cs) := by
  cases depth with
  | zero => rfl
  | succ depth =>
    unfold value?
    split
    · next heq => exact absurd (List.cons.inj heq).1 hbracket
    · next heq => exact absurd (List.cons.inj heq).1 hbrace
    · rfl

theorem value?_encodeString (depth : Nat) (s : String) {rest : List Char}
    (hends : EndsQuoted rest) :
    value? depth (encodeString s ++ rest) = some (.string s, rest) := by
  have hread := quoted?_encodeString s hends
  obtain ⟨quote, body, hbody, hquote⟩ := exists_encodeString_eq_cons s
  rw [hbody, List.cons_append] at hread ⊢
  rcases hquote with rfl | rfl
  · rw [value?_of_leaf? (by decide) (by decide), leaf?, if_pos (by simp), hread]
    rfl
  · rw [value?_of_leaf? (by decide) (by decide), leaf?, if_pos (by simp), hread]
    rfl

theorem value?_word (depth : Nat) {word rest : List Char} {v : Value} (hsome : word ≠ [])
    (hword : ∀ c ∈ word, isWordChar c = true) (hends : EndsWord rest)
    (hread : scalar? word = some v) : value? depth (word ++ rest) = some (v, rest) := by
  have hread' := word?_of_scalar? hword hends hread
  obtain ⟨c, cs, rfl⟩ := List.exists_cons_of_ne_nil hsome
  have hne : ∀ d : Char, isWordChar d = false → c ≠ d := by
    rintro d hnot rfl
    rw [hword c (by simp)] at hnot
    exact nomatch hnot
  have hquotes : ¬(decide ((c :: cs ++ rest).head? = some '"') ||
      decide ((c :: cs ++ rest).head? = some '\'')) = true := by
    simp [hne '"' (by decide), hne '\'' (by decide)]
  rw [List.cons_append] at hread' hquotes ⊢
  rw [value?_of_leaf? (hne '[' (by decide)) (hne '{' (by decide)), leaf?, if_neg hquotes, hread']

/-! ### Arrays -/

theorem endsValue_cons {c : Char} (hword : isWordChar c = false) (hblank : c ≠ ' ')
    (hdouble : c ≠ '"') (hsingle : c ≠ '\'') (cs : List Char) : EndsValue (c :: cs) :=
  stops_cons (by simp [hword, hblank, hdouble, hsingle]) cs

theorem isBlank_of_isValueStart {c : Char} (hstart : isValueStart c = true) :
    isBlank c = false := by
  rw [isBlank, Bool.or_eq_false_iff, beq_eq_false_iff_ne, beq_eq_false_iff_ne]
  exact ⟨ne_of_isValueStart hstart (by decide), ne_of_isValueStart hstart (by decide)⟩

theorem skipGaps_of_isValueStart {c : Char} (hstart : isValueStart c = true) (cs : List Char) :
    skipGaps false (c :: cs) = c :: cs := by
  have hblank := isBlank_of_isValueStart hstart
  have hmark : ['\n', '\r', '#'].contains c = false := by
    have hfeed : c ≠ '\n' := ne_of_isValueStart hstart (by decide)
    have hreturn : c ≠ '\r' := ne_of_isValueStart hstart (by decide)
    have hcomment : c ≠ '#' := ne_of_isValueStart hstart (by decide)
    simp [hfeed, hreturn, hcomment]
  exact skipGaps_of_stops (stops_cons hblank cs) (stops_cons hmark cs)

/-- One item of an array, with what is decided behind it. -/
theorem items?_item {value : List Char → Option (Value × List Char)} {fuel : Nat} {c : Char}
    {cs rest : List Char} {v : Value} (hstart : isValueStart c = true)
    (hread : value (c :: cs) = some (v, rest)) :
    (∀ more, skipGaps false rest = ',' :: more →
      items? value (fuel + 1) (c :: cs) =
        (items? value fuel more).map fun (vs, rest) => (v :: vs, rest)) ∧
    (∀ more, skipGaps false rest = ']' :: more →
      items? value (fuel + 1) (c :: cs) = some ([v], more)) := by
  have hclose : c ≠ ']' := ne_of_isValueStart hstart (by decide)
  constructor
  · intro more hmore
    rw [items?, skipGaps_of_isValueStart hstart]
    split
    · next heq => exact absurd (List.cons.inj heq).1 hclose
    · simp only [hread, hmore]
  · intro more hmore
    rw [items?, skipGaps_of_isValueStart hstart]
    split
    · next heq => exact absurd (List.cons.inj heq).1 hclose
    · simp only [hread, hmore]

theorem items?_blank (value : List Char → Option (Value × List Char)) (fuel : Nat)
    (cs : List Char) : items? value fuel (' ' :: cs) = items? value fuel cs := by
  cases fuel with
  | zero => rfl
  | succ fuel =>
    have hblank : skipGaps false (' ' :: cs) = skipGaps false cs := rfl
    rw [items?, items?, hblank]

theorem items?_encodeItems {depth : Nat} {items : List Value}
    (hitems : ∀ v ∈ items, v.Plain depth ∧ ∀ rest, EndsValue rest →
      value? depth (v.encode ++ rest) = some (v, rest))
    (rest : List Char) {fuel : Nat} (hfuel : items.length < fuel) :
    items? (value? depth) fuel (encodeItems items ++ ']' :: rest) = some (items, rest) := by
  induction items generalizing fuel with
  | nil =>
    cases fuel with
    | zero => exact absurd hfuel (Nat.not_lt_zero _)
    | succ fuel => rfl
  | cons v more ih =>
    cases fuel with
    | zero => exact absurd hfuel (Nat.not_lt_zero _)
    | succ fuel =>
      obtain ⟨hv, hread⟩ := hitems v (by simp)
      obtain ⟨c, cs, hcs, hstart⟩ := exists_encode_eq_cons hv
      cases more with
      | nil =>
        have hread' := hread (']' :: rest)
          (endsValue_cons (by decide) (by decide) (by decide) (by decide) rest)
        rw [encodeItems]
        rw [hcs, List.cons_append] at hread' ⊢
        exact (items?_item hstart hread').2 rest rfl
      | cons w more =>
        have hread' := hread (',' :: ' ' :: (encodeItems (w :: more) ++ ']' :: rest))
          (endsValue_cons (by decide) (by decide) (by decide) (by decide) _)
        have hnext := ih (fun v hmem => hitems v (List.mem_cons_of_mem _ hmem))
          (Nat.lt_of_succ_lt_succ hfuel)
        have hshape : encodeItems (v :: w :: more) ++ ']' :: rest =
            v.encode ++ ',' :: ' ' :: (encodeItems (w :: more) ++ ']' :: rest) := by
          rw [encodeItems]
          simp
        rw [hshape]
        rw [hcs, List.cons_append] at hread' ⊢
        rw [(items?_item hstart hread').1 _ rfl, items?_blank, hnext]
        rfl

theorem length_encodeItems_lt {depth : Nat} {items : List Value}
    (hitems : ∀ v ∈ items, v.Plain depth) (rest : List Char) :
    items.length < ('[' :: (encodeItems items ++ ']' :: rest)).length := by
  have hlength : items.length ≤ (encodeItems items).length := by
    induction items with
    | nil => exact Nat.le_refl 0
    | cons v more ih =>
      obtain ⟨c, cs, hcs, _⟩ := exists_encode_eq_cons (hitems v (by simp))
      have hmore := ih (fun v hmem => hitems v (List.mem_cons_of_mem _ hmem))
      cases more with
      | nil => simp [encodeItems, hcs]
      | cons w more =>
        rw [encodeItems, hcs]
        simp only [List.length_cons, List.length_append, List.cons_append] at hmore ⊢
        omega
  simp only [List.length_cons, List.length_append]
  omega

theorem value?_encode {depth : Nat} {v : Value} (hv : v.Plain depth) {rest : List Char}
    (hends : EndsValue rest) : value? depth (v.encode ++ rest) = some (v, rest) := by
  induction hv generalizing rest with
  | string depth s =>
    rw [Value.encode]
    exact value?_encodeString depth s hends.endsQuoted
  | integer depth hlow hhigh =>
    rw [Value.encode]
    exact value?_word depth (toString_ne_nil _) (fun c hmem => isWordChar_toString hmem)
      hends.endsWord (scalar?_of_integer? (integer?_toString hlow hhigh))
  | float depth x =>
    rw [Value.encode]
    exact value?_word depth (double_ne_nil x) (fun c hmem => isWordChar_double hmem)
      hends.endsWord (scalar?_double x)
  | boolean depth b =>
    rw [Value.encode]
    cases b with
    | false =>
      have hword : ['f', 'a', 'l', 's', 'e'].all isWordChar = true := by decide
      exact value?_word depth (by decide) (List.all_eq_true.1 hword) hends.endsWord rfl
    | true =>
      have hword : ['t', 'r', 'u', 'e'].all isWordChar = true := by decide
      exact value?_word depth (by decide) (List.all_eq_true.1 hword) hends.endsWord rfl
  | @array depth items hitems ih =>
    have hread := items?_encodeItems (fun v hmem => ⟨hitems v hmem, fun _ => ih v hmem⟩) rest
      (length_encodeItems_lt hitems rest)
    have hshape : Value.encode (.array items) ++ rest =
        '[' :: (encodeItems items ++ ']' :: rest) := by
      rw [Value.encode]
      simp
    rw [hshape, value?, hread]
    rfl

end LSystem.Toml
