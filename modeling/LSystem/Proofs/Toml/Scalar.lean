import LSystem.Proofs.Number.Shortest
import LSystem.Proofs.Toml.Spacing
import LSystem.Toml.Scalar

/-!
# Numbers are read back

A word is read up to the first character that cannot stand in one, so what counts is that the word
alone is read as the value that was written, and that the text behind it starts with another
character. Integers have nothing but digits behind their sign. Every float has a point or is one of
three words, so it is never taken for an integer, and its digits are those of a decimal that is read
as this float (`float?_double`).
-/

namespace LSystem.Toml

open Number (Decimal)
open Float.Model (UnpackedFloat)

/-! ### Digits without underscores -/

theorem ungroup?_of_isDigit {ds : List Char} (hsome : ds ≠ [])
    (hdigits : ∀ c ∈ ds, c.isDigit = true) : ungroup? 10 ds = some ds := by
  fun_induction ungroup? 10 ds with
  | case1 => exact absurd rfl hsome
  | case2 d hd => rfl
  | case3 d hd =>
    have hdigit := Number.isDigitIn_of_isDigit (hdigits d (by simp))
    contradiction
  | case4 d rest hd ih => exact absurd (hdigits '_' (by simp)) (by decide)
  | case5 d rest hd => exact absurd (hdigits '_' (by simp)) (by decide)
  | case6 d rest hone hunderscore hd ih =>
    have hsome' : rest ≠ [] := by
      rintro rfl
      exact hone rfl
    rw [ih hsome' (fun c hmem => hdigits c (List.mem_cons_of_mem d hmem))]
    rfl
  | case7 d rest hone hunderscore hd =>
    have hdigit := Number.isDigitIn_of_isDigit (hdigits d (by simp))
    contradiction

/-- Nothing but digits and underscores is read in a base. -/
theorem ungroup?_eq_none {base : Nat} {cs : List Char} {c : Char} (hmem : c ∈ cs)
    (hdigit : Number.isDigitIn base c = false) (hunderscore : c ≠ '_') :
    ungroup? base cs = none := by
  fun_induction ungroup? base cs with
  | case1 => rfl
  | case2 d hd =>
    obtain rfl := List.mem_singleton.1 hmem
    exact absurd hd (by simp [hdigit])
  | case3 d hd => rfl
  | case4 d rest hd ih =>
    rcases List.mem_cons.1 hmem with rfl | hmem
    · exact absurd hd (by simp [hdigit])
    · rcases List.mem_cons.1 hmem with rfl | hmem
      · exact absurd rfl hunderscore
      · rw [ih hmem]
        rfl
  | case5 d rest hd => rfl
  | case6 d rest hone hnot hd ih =>
    rcases List.mem_cons.1 hmem with rfl | hmem
    · exact absurd hd (by simp [hdigit])
    · rw [ih hmem]
      rfl
  | case7 d rest hone hnot hd => rfl

theorem decimalDigits?_of_isDigit {ds : List Char} (hsome : ds ≠ [])
    (hdigits : ∀ c ∈ ds, c.isDigit = true) (hhead : ds = ['0'] ∨ ds.head? ≠ some '0') :
    decimalDigits? ds = some ds := by
  rw [decimalDigits?, ungroup?_of_isDigit hsome hdigits]
  split
  · next d rest heq =>
    obtain rfl := Option.some.inj heq
    rcases hhead with hhead | hhead
    · exact absurd hhead (by simp)
    · exact absurd rfl hhead
  · rfl

theorem splitSign_of_isDigit {ds back : List Char} (hsome : ds ≠ [])
    (hdigits : ∀ c ∈ ds, c.isDigit = true) : splitSign (ds ++ back) = (false, ds ++ back) := by
  obtain ⟨d, rest, rfl⟩ := List.exists_cons_of_ne_nil hsome
  have hdigit := hdigits d (by simp)
  have hminus : d ≠ '-' := by
    rintro rfl
    exact absurd hdigit (by decide)
  have hplus : d ≠ '+' := by
    rintro rfl
    exact absurd hdigit (by decide)
  simp [splitSign, hminus, hplus]

theorem mem_splitSign {cs : List Char} {c : Char} (hmem : c ∈ cs) (hminus : c ≠ '-')
    (hplus : c ≠ '+') : c ∈ (splitSign cs).2 := by
  unfold splitSign
  split
  · exact (List.mem_cons.1 hmem).resolve_left hminus
  · exact (List.mem_cons.1 hmem).resolve_left hplus
  · exact hmem

/-! ### Integers -/

theorem integer?_of_point {cs : List Char} (hpoint : '.' ∈ cs) : integer? cs = none := by
  have hnone : ∀ (base : Nat) (ds : List Char), '.' ∈ ds → ungroup? base ds = none := by
    intro base ds hmem
    exact ungroup?_eq_none hmem (by simp [Number.isDigitIn, Number.digit?]) (by decide)
  unfold integer?
  split
  · next ds =>
    exact congrArg (Option.bind · _) (hnone 16 ds (by simpa using hpoint))
  · next ds =>
    exact congrArg (Option.bind · _) (hnone 8 ds (by simpa using hpoint))
  · next ds =>
    exact congrArg (Option.bind · _) (hnone 2 ds (by simpa using hpoint))
  · have hmem := mem_splitSign hpoint (by decide) (by decide)
    simp only [decimalDigits?, hnone 10 _ hmem]
    rfl

/-- Digits behind a digit are no other base, so they are read as decimal ones. -/
theorem integer?_eq {cs : List Char}
    (hbase : ∀ (c : Char) (rest : List Char), cs = '0' :: c :: rest → c.isDigit = true) :
    integer? cs = (decimalDigits? (splitSign cs).2).bind fun ds =>
      bounded? (if (splitSign cs).1 then -(Number.ofDigits 10 ds : Int)
        else Number.ofDigits 10 ds) := by
  unfold integer?
  split
  · exact absurd (hbase 'x' _ rfl) (by decide)
  · exact absurd (hbase 'o' _ rfl) (by decide)
  · exact absurd (hbase 'b' _ rfl) (by decide)
  · rfl

theorem integer?_of_isDigit {ds : List Char} (hsome : ds ≠ [])
    (hdigits : ∀ c ∈ ds, c.isDigit = true) (hhead : ds = ['0'] ∨ ds.head? ≠ some '0') :
    integer? ds = bounded? (Number.ofDigits 10 ds) := by
  have hread := decimalDigits?_of_isDigit hsome hdigits hhead
  have hsign : splitSign (ds ++ []) = (false, ds ++ []) := splitSign_of_isDigit hsome hdigits
  rw [List.append_nil] at hsign
  rw [integer?_eq (fun c rest heq => hdigits c (by simp [heq])), hsign, hread, Option.bind_some,
    if_neg Bool.false_ne_true]

theorem integer?_minus_of_isDigit {ds : List Char} (hsome : ds ≠ [])
    (hdigits : ∀ c ∈ ds, c.isDigit = true) (hhead : ds = ['0'] ∨ ds.head? ≠ some '0') :
    integer? ('-' :: ds) = bounded? (-Number.ofDigits 10 ds) := by
  have hread := decimalDigits?_of_isDigit hsome hdigits hhead
  have hsign : splitSign ('-' :: ds) = (true, ds) := rfl
  rw [integer?_eq (fun c rest heq => by simp at heq), hsign, hread, Option.bind_some, if_pos rfl]

theorem head_decimalDigits (n : Nat) :
    Number.decimalDigits n = ['0'] ∨ (Number.decimalDigits n).head? ≠ some '0' := by
  rcases Nat.eq_zero_or_pos n with rfl | hpos
  · exact .inl Number.decimalDigits_zero
  · exact .inr (Number.head?_decimalDigits_ne_zero hpos)

theorem toList_toString_int (n : Int) :
    (toString n).toList = if n < 0 then '-' :: Number.decimalDigits n.natAbs
      else Number.decimalDigits n.natAbs := by
  rcases n with n | n
  · rw [if_neg (show ¬Int.ofNat n < 0 from Int.not_lt.2 (Int.natCast_nonneg n))]
    exact Nat.toList_repr
  · rw [if_pos (by omega)]
    change ("-" ++ Nat.repr (n + 1)).toList = _
    rw [String.toList_append, Nat.toList_repr]
    rfl

theorem integer?_toString {n : Int} (hlow : -0x8000000000000000 ≤ n)
    (hhigh : n < 0x8000000000000000) : integer? (toString n).toList = some n := by
  have hbounded : bounded? n = some n := by
    rw [bounded?, if_pos (by simp [hlow, hhigh])]
  have hsome := Number.decimalDigits_ne_nil n.natAbs
  have hdigits := fun c (hmem : c ∈ Number.decimalDigits n.natAbs) =>
    Number.isDigit_of_mem_decimalDigits hmem
  have hhead := head_decimalDigits n.natAbs
  rw [toList_toString_int]
  split
  · next hneg =>
    have habs : -(n.natAbs : Int) = n := by omega
    rw [integer?_minus_of_isDigit hsome hdigits hhead, Number.ofDigits_decimalDigits, habs,
      hbounded]
  · next hneg =>
    have habs : (n.natAbs : Int) = n := by omega
    rw [integer?_of_isDigit hsome hdigits hhead, Number.ofDigits_decimalDigits, habs, hbounded]

/-! ### Decimals -/

/-- Digits on both sides of a point, without an exponent. -/
theorem decimal?_point {whole fraction : List Char} (hwhole : whole ≠ [])
    (hfraction : fraction ≠ []) (hdigits : ∀ c ∈ whole ++ fraction, c.isDigit = true)
    (hhead : whole = ['0'] ∨ whole.head? ≠ some '0') :
    decimal? (whole ++ '.' :: fraction) =
      some (.reduce (Number.ofDigits 10 (whole ++ fraction)) (-fraction.length)) := by
  have hbefore := fun c (hmem : c ∈ whole) => hdigits c (List.mem_append_left fraction hmem)
  have hbehind := fun c (hmem : c ∈ fraction) => hdigits c (List.mem_append_right whole hmem)
  have hmark : ∀ c ∈ whole ++ '.' :: fraction, (!(c == 'e' || c == 'E')) = true := by
    have hdigit : ∀ c : Char, c.isDigit = true → (!(c == 'e' || c == 'E')) = true := by
      intro c hc
      rw [Bool.not_eq_true', Bool.or_eq_false_iff, beq_eq_false_iff_ne, beq_eq_false_iff_ne]
      constructor
      · rintro rfl
        exact absurd hc (by decide)
      · rintro rfl
        exact absurd hc (by decide)
    intro c hmem
    rcases List.mem_append.1 hmem with hmem | hmem
    · exact hdigit c (hbefore c hmem)
    · rcases List.mem_cons.1 hmem with rfl | hmem
      · rfl
      · exact hdigit c (hbehind c hmem)
  have hpoint : ∀ c ∈ whole, (c != '.') = true := by
    intro c hmem
    rw [bne_iff_ne]
    rintro rfl
    exact absurd (hbefore '.' hmem) (by decide)
  have hstop : Stops (· != '.') ('.' :: fraction) := stops_cons rfl fraction
  have hread := decimalDigits?_of_isDigit hwhole hbefore hhead
  have hscale := dropWhile_append_of_stops hmark (stops_nil _)
  have htext := takeWhile_append_of_stops hmark (stops_nil _)
  rw [List.append_nil] at hscale htext
  simp only [decimal?, hscale, htext, takeWhile_append_of_stops hpoint hstop,
    dropWhile_append_of_stops hpoint hstop, hread, exponent?,
    ungroup?_of_isDigit hfraction hbehind, Option.map_some, Int.zero_sub]

/-- The text of a decimal in a document. -/
def pointed (d : Decimal) : List Char :=
  d.parts.1 ++ '.' :: if d.parts.2.isEmpty then ['0'] else d.parts.2

theorem decimal?_pointed {d : Decimal} (hd : d.Reduced) : decimal? (pointed d) = some d := by
  obtain ⟨hsome, hdigits⟩ := d.parts_digits
  have hvalue := Decimal.reduce_parts hd
  have hhead := Decimal.parts_head hd
  rw [pointed]
  rcases hfraction : d.parts.2 with _ | ⟨first, rest⟩
  · rw [hfraction, List.append_nil] at hdigits hvalue
    have hdigits' : ∀ c ∈ d.parts.1 ++ ['0'], c.isDigit = true := by
      intro c hmem
      rcases List.mem_append.1 hmem with hmem | hmem
      · exact hdigits c hmem
      · rw [List.mem_singleton.1 hmem]
        decide
    have hzero : Number.ofDigits 10 (d.parts.1 ++ ['0']) = Number.ofDigits 10 d.parts.1 * 10 := by
      rw [Number.ofDigits_append, Nat.mul_comm]
      rfl
    rw [List.isEmpty_nil, if_pos rfl, decimal?_point hsome (by simp) hdigits' hhead, hzero,
      Decimal.reduce_mul_ten]
    exact congrArg some hvalue
  · rw [hfraction] at hdigits hvalue
    rw [List.isEmpty_cons, if_neg Bool.false_ne_true, decimal?_point hsome (by simp) hdigits hhead,
      hvalue]

/-! ### Floats -/

theorem neg_double {u : UnpackedFloat} (hu : Number.Representable .binary64 u) :
    -Float.ofModel (.pack u) = .ofModel (.pack u.neg) := by
  change Float.ofModel (.pack (Float.Model.pack u).unpack.neg) = _
  rw [Number.double_unpack_pack hu]

theorem isInf_double {u : UnpackedFloat} (hu : Number.Representable .binary64 u) :
    (Float.ofModel (.pack u)).isInf = u.isInf := by
  change (Float.Model.pack u).unpack.isInf = _
  rw [Number.double_unpack_pack hu]

theorem pointed_ne_word (d : Decimal) :
    pointed d ≠ ['i', 'n', 'f'] ∧ pointed d ≠ ['n', 'a', 'n'] := by
  have hpoint : '.' ∈ pointed d := by simp [pointed]
  constructor
  · intro heq
    rw [heq] at hpoint
    exact absurd hpoint (by decide)
  · intro heq
    rw [heq] at hpoint
    exact absurd hpoint (by decide)

theorem float?_pointed {d : Decimal} (hd : d.Reduced) {u : UnpackedFloat}
    (hu : Number.Representable .binary64 u) (hread : d.toDouble = .ofModel (.pack u))
    (hfinite : u.isInf = false) :
    float? (pointed d) = some (.ofModel (.pack u)) ∧
      float? ('-' :: pointed d) = some (.ofModel (.pack u.neg)) := by
  obtain ⟨hinf, hnan⟩ := pointed_ne_word d
  obtain ⟨hsome, hdigits⟩ := d.parts_digits
  have hfilter : ∀ negative : Bool, ((decimal? (pointed d)).map Decimal.toDouble).filter
      (fun x => negative || !x.isInf) = some (.ofModel (.pack u)) := by
    intro negative
    rw [decimal?_pointed hd, Option.map_some, hread, Option.filter_some_pos]
    rw [isInf_double hu, hfinite, Bool.not_false, Bool.or_true]
  have hsign : splitSign (pointed d) = (false, pointed d) :=
    splitSign_of_isDigit hsome fun c hmem => hdigits c (List.mem_append_left _ hmem)
  constructor
  · simp only [float?, hsign, hinf, hnan, if_false, hfilter, Option.map_some, Bool.false_eq_true]
  · simp only [float?, splitSign, hinf, hnan, if_false, hfilter, Option.map_some, if_true,
      neg_double hu]

theorem render_finite (sign : UnpackedFloat.Sign) (mantissa : Nat) (exponent : Int)
    (hpos : 0 < mantissa) :
    (floatStyle.render .binary64 (.finite sign mantissa exponent hpos)).toList =
      (Number.FloatStyle.render.signText sign).toList ++
        pointed (.shortest .binary64 mantissa exponent hpos) := by
  rw [Number.FloatStyle.render, pointed]
  simp only [String.toList_append, String.toList_ofList, List.append_assoc]
  congr 2
  split
  · rfl
  · rw [String.toList_append, String.toList_ofList]
    exact congrArg (['.'] ++ ·) String.toList_ofList

theorem float?_render {u : UnpackedFloat} (hu : Number.Representable .binary64 u) :
    float? (floatStyle.render .binary64 u).toList = some (.ofModel (.pack u)) := by
  cases u with
  | notANumber => rfl
  | infinity sign =>
    cases sign with
    | positive => rfl
    | negative => exact congrArg some (@neg_double (.infinity .positive) trivial)
  | zero sign =>
    have hread := @float?_pointed ⟨0, 0⟩ (by rw [Decimal.Reduced, Decimal.reduce, dif_pos rfl])
      (.zero .positive) trivial rfl rfl
    cases sign with
    | positive => exact hread.1
    | negative => exact hread.2
  | finite sign mantissa exponent hpos =>
    have hu' : Number.Representable .binary64 (.finite .positive mantissa exponent hpos) := hu
    have hread := float?_pointed Decimal.reduced_shortest hu' (Decimal.toDouble_shortest hu') rfl
    rw [render_finite]
    cases sign with
    | positive => exact hread.1
    | negative => exact hread.2

theorem float?_double (x : Float) : float? (floatStyle.double x).toList = some x := by
  rw [Number.FloatStyle.double, float?_render (Number.representable_double x),
    Number.double_pack_unpack]

/-! ### Words -/

theorem isWordChar_of_isDigit {c : Char} (hdigit : c.isDigit = true) : isWordChar c = true := by
  simp [isWordChar, Char.isAlphanum, hdigit]

theorem isWordChar_pointed {d : Decimal} {c : Char} (hmem : c ∈ pointed d) :
    isWordChar c = true := by
  have hdigits := d.parts_digits.2
  rcases List.mem_append.1 hmem with hmem | hmem
  · exact isWordChar_of_isDigit (hdigits c (List.mem_append_left _ hmem))
  · rcases List.mem_cons.1 hmem with rfl | hmem
    · decide
    · split at hmem
      · rw [List.mem_singleton.1 hmem]
        decide
      · exact isWordChar_of_isDigit (hdigits c (List.mem_append_right _ hmem))

/-- A float text is one of the words, or has a sign and a point. -/
theorem double_cases (x : Float) :
    (floatStyle.double x).toList ∈ [['n', 'a', 'n'], ['i', 'n', 'f'], ['-', 'i', 'n', 'f']] ∨
      ∃ d : Decimal, (floatStyle.double x).toList = pointed d ∨
        (floatStyle.double x).toList = '-' :: pointed d := by
  rw [Number.FloatStyle.double]
  cases x.toModel.unpack with
  | notANumber => exact .inl (by decide)
  | infinity sign => exact .inl (by cases sign <;> decide)
  | zero sign =>
    cases sign with
    | positive => exact .inr ⟨⟨0, 0⟩, .inl rfl⟩
    | negative => exact .inr ⟨⟨0, 0⟩, .inr rfl⟩
  | finite sign mantissa exponent hpos =>
    rw [render_finite]
    cases sign with
    | positive => exact .inr ⟨.shortest .binary64 mantissa exponent hpos, .inl rfl⟩
    | negative => exact .inr ⟨.shortest .binary64 mantissa exponent hpos, .inr rfl⟩

theorem isWordChar_double {x : Float} {c : Char} (hmem : c ∈ (floatStyle.double x).toList) :
    isWordChar c = true := by
  rcases double_cases x with hword | ⟨d, htext | htext⟩
  · have hall : ∀ word ∈ [['n', 'a', 'n'], ['i', 'n', 'f'], ['-', 'i', 'n', 'f']],
        word.all isWordChar = true := by decide
    exact List.all_eq_true.1 (hall _ hword) c hmem
  · rw [htext] at hmem
    exact isWordChar_pointed hmem
  · rw [htext] at hmem
    rcases List.mem_cons.1 hmem with rfl | hmem
    · decide
    · exact isWordChar_pointed hmem

theorem integer?_double (x : Float) : integer? (floatStyle.double x).toList = none := by
  rcases double_cases x with hword | ⟨d, htext | htext⟩
  · have hall : ∀ word ∈ [['n', 'a', 'n'], ['i', 'n', 'f'], ['-', 'i', 'n', 'f']],
        integer? word = none := by decide
    exact hall _ hword
  · exact integer?_of_point (by simp [htext, pointed])
  · exact integer?_of_point (by simp [htext, pointed])

theorem isWordChar_toString {n : Int} {c : Char} (hmem : c ∈ (toString n).toList) :
    isWordChar c = true := by
  rw [toList_toString_int] at hmem
  split at hmem
  · rcases List.mem_cons.1 hmem with rfl | hmem
    · decide
    · exact isWordChar_of_isDigit (Number.isDigit_of_mem_decimalDigits hmem)
  · exact isWordChar_of_isDigit (Number.isDigit_of_mem_decimalDigits hmem)

theorem scalar?_of_integer? {word : List Char} {n : Int} (hread : integer? word = some n) :
    scalar? word = some (.integer n) := by
  have htrue : word ≠ ['t', 'r', 'u', 'e'] := by
    rintro rfl
    rw [show integer? ['t', 'r', 'u', 'e'] = none by decide] at hread
    exact nomatch hread
  have hfalse : word ≠ ['f', 'a', 'l', 's', 'e'] := by
    rintro rfl
    rw [show integer? ['f', 'a', 'l', 's', 'e'] = none by decide] at hread
    exact nomatch hread
  rw [scalar?, if_neg htrue, if_neg hfalse, hread]

theorem scalar?_double (x : Float) : scalar? (floatStyle.double x).toList = some (.float x) := by
  have hread := float?_double x
  have htrue : (floatStyle.double x).toList ≠ ['t', 'r', 'u', 'e'] := by
    intro heq
    rw [heq, show float? ['t', 'r', 'u', 'e'] = none from rfl] at hread
    exact nomatch hread
  have hfalse : (floatStyle.double x).toList ≠ ['f', 'a', 'l', 's', 'e'] := by
    intro heq
    rw [heq, show float? ['f', 'a', 'l', 's', 'e'] = none from rfl] at hread
    exact nomatch hread
  rw [scalar?, if_neg htrue, if_neg hfalse, integer?_double, hread]

/-- Whether a text ends a word: neither the word nor a date and a time go on. -/
def EndsWord : List Char → Prop := Stops fun c => isWordChar c || c == ' '

theorem word?_of_scalar? {word rest : List Char} {v : Value}
    (hword : ∀ c ∈ word, isWordChar c = true) (hends : EndsWord rest)
    (hread : scalar? word = some v) : word? (word ++ rest) = some (v, rest) := by
  have hstop : Stops isWordChar rest := fun c hc => (Bool.or_eq_false_iff.1 (hends c hc)).1
  have hblank : rest.head? ≠ some ' ' := by
    intro hhead
    exact absurd (hends ' ' hhead) (by decide)
  simp only [word?, takeWhile_append_of_stops hword hstop, dropWhile_append_of_stops hword hstop,
    hblank, decide_false, Bool.false_and, Bool.false_eq_true, if_false, hread, Option.map_some]

end LSystem.Toml
