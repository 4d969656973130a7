import LSystem.Number.Shortest
import LSystem.Proofs.Number.Conversion
import LSystem.Proofs.Number.Decimal
import LSystem.Proofs.Number.Digits

/-!
# Shortest decimals are read back

Whichever candidate the search for the shortest decimal takes, it is one that is read as the float,
because nothing else is taken and the exact value closes the search (`readsAs_shortest`). The two
parts in which a decimal is written keep its digits and its exponent, so the decimal itself is found
again behind the point (`reduce_parts`).
-/

namespace LSystem.Number

open Float.Model (Format UnpackedFloat)

namespace Decimal

/-! ### The search -/

theorem reduced_of_mem_neighbours {d candidate : Decimal} {dropped : Nat}
    (hmem : candidate ∈ d.neighbours dropped) : candidate.Reduced := by
  simp only [neighbours] at hmem
  split at hmem
  · obtain rfl := List.mem_singleton.1 hmem
    exact reduced_reduce _ _
  · split at hmem
    all_goals
      simp only [List.mem_cons, List.not_mem_nil, or_false] at hmem
      rcases hmem with rfl | rfl
      · exact reduced_reduce _ _
      · exact reduced_reduce _ _

variable {format : Format} {mantissa : Nat} {exponent : Int} {hpos : 0 < mantissa}

/-- What the search gives is a neighbour that is read as the float, or the exact value. -/
theorem shortest_cases (format : Format) (mantissa : Nat) (exponent : Int) (hpos : 0 < mantissa) :
    (readsAs format (.finite .positive mantissa exponent hpos)
        (shortest format mantissa exponent hpos) = true ∧
      (shortest format mantissa exponent hpos).Reduced) ∨
    shortest format mantissa exponent hpos = ofBinary mantissa exponent := by
  rw [shortest]
  cases hfound : (List.range enoughDigits).findSome? _ with
  | none => exact .inr rfl
  | some d =>
    obtain ⟨n, hmem, hfind⟩ := List.exists_of_findSome?_eq_some hfound
    exact .inl ⟨List.find?_some hfind, reduced_of_mem_neighbours (List.mem_of_find?_eq_some hfind)⟩

theorem reduced_shortest : (shortest format mantissa exponent hpos).Reduced := by
  rcases shortest_cases format mantissa exponent hpos with ⟨_, hreduced⟩ | hexact
  · exact hreduced
  · rw [hexact]
    exact reduced_ofBinary mantissa exponent

theorem readsAs_shortest (hbits : 1 < format.exponentBits)
    (hrange : -format.minExponent ≤ (2 ^ format.exponentBits : Nat))
    (hx : Representable format (.finite .positive mantissa exponent hpos)) :
    ((shortest format mantissa exponent hpos).nearest format).pack format =
      UnpackedFloat.pack format (.finite .positive mantissa exponent hpos) := by
  rcases shortest_cases format mantissa exponent hpos with ⟨hreads, _⟩ | hexact
  · exact eq_of_beq hreads
  · rw [hexact, nearest_ofBinary hbits hrange hx]

theorem toDouble_shortest
    (hx : Representable .binary64 (.finite .positive mantissa exponent hpos)) :
    (shortest .binary64 mantissa exponent hpos).toDouble =
      .ofModel (.pack (.finite .positive mantissa exponent hpos)) := by
  have hpack := readsAs_shortest (by decide) (by decide) hx
  simp only [toDouble, Float.Model.pack, hpack]

/-! ### The digits on both sides of the point -/

theorem parts_cases (d : Decimal) :
    (∃ zeros : Nat, d.exponent = zeros ∧
      d.parts = (decimalDigits d.coefficient ++ List.replicate zeros '0', [])) ∨
    (∃ places : Nat, d.exponent = -places ∧ places < (decimalDigits d.coefficient).length ∧
      0 < places ∧
      d.parts = (decimalDigits d.coefficient).splitAt
        ((decimalDigits d.coefficient).length - places)) ∨
    (∃ places : Nat, d.exponent = -places ∧ (decimalDigits d.coefficient).length ≤ places ∧
      d.parts = (['0'], List.replicate (places - (decimalDigits d.coefficient).length) '0' ++
        decimalDigits d.coefficient)) := by
  rcases d with ⟨coefficient, zeros | places⟩
  · exact .inl ⟨zeros, rfl, rfl⟩
  · by_cases hshort : places + 1 < (decimalDigits coefficient).length
    · refine .inr (.inl ⟨places + 1, rfl, hshort, Nat.succ_pos places, ?_⟩)
      simp only [parts, if_pos hshort]
    · refine .inr (.inr ⟨places + 1, rfl, Nat.not_lt.1 hshort, ?_⟩)
      simp only [parts, if_neg hshort]

theorem parts_digits (d : Decimal) :
    d.parts.1 ≠ [] ∧ ∀ c ∈ d.parts.1 ++ d.parts.2, c.isDigit = true := by
  have hdigits : ∀ c ∈ decimalDigits d.coefficient, c.isDigit = true :=
    fun c hmem => isDigit_of_mem_decimalDigits hmem
  have hzeros : ∀ count, ∀ c ∈ List.replicate count '0', c.isDigit = true := by
    intro count c hmem
    rw [List.eq_of_mem_replicate hmem]
    decide
  have hsome := decimalDigits_ne_nil d.coefficient
  rcases parts_cases d with ⟨zeros, _, hparts⟩ | ⟨places, _, hlt, _, hparts⟩ |
    ⟨places, _, _, hparts⟩
  · rw [hparts]
    refine ⟨by simp [hsome], fun c hmem => ?_⟩
    rw [List.append_nil, List.mem_append] at hmem
    exact hmem.elim (hdigits c) (hzeros zeros c)
  · rw [hparts, List.splitAt_eq]
    refine ⟨?_, fun c hmem => hdigits c (by rwa [List.take_append_drop] at hmem)⟩
    rw [Ne, List.take_eq_nil_iff]
    rintro (hnone | hnone)
    · omega
    · exact hsome hnone
  · rw [hparts]
    refine ⟨by simp, fun c hmem => ?_⟩
    rw [List.mem_append, List.mem_append] at hmem
    exact hmem.elim (hzeros 1 c) (fun hmem => hmem.elim (hzeros _ c) (hdigits c))

/-- No number but zero has a zero in front. -/
theorem parts_head {d : Decimal} (hd : d.Reduced) :
    d.parts.1 = ['0'] ∨ d.parts.1.head? ≠ some '0' := by
  rcases Nat.eq_zero_or_pos d.coefficient with hzero | hpos
  · left
    have hexponent := hd.exponent_eq_zero hzero
    rcases d with ⟨coefficient, exponent⟩
    subst hzero hexponent
    rfl
  · have hhead := head?_decimalDigits_ne_zero hpos
    obtain ⟨first, rest, hds⟩ := List.exists_cons_of_ne_nil (decimalDigits_ne_nil d.coefficient)
    rcases parts_cases d with ⟨zeros, _, hparts⟩ | ⟨places, _, hlt, _, hparts⟩ |
      ⟨places, _, _, hparts⟩
    · right
      rw [hparts]
      rw [hds] at hhead ⊢
      exact hhead
    · right
      obtain ⟨shorter, hshorter⟩ :=
        Nat.exists_eq_succ_of_ne_zero (Nat.sub_ne_zero_of_lt hlt)
      rw [hparts, List.splitAt_eq, hshorter]
      rw [hds] at hhead ⊢
      exact hhead
    · left
      rw [hparts]

theorem reduce_parts {d : Decimal} (hd : d.Reduced) :
    reduce (ofDigits 10 (d.parts.1 ++ d.parts.2)) (-d.parts.2.length) = d := by
  rw [Reduced] at hd
  have hvalue := ofDigits_decimalDigits d.coefficient
  rcases parts_cases d with ⟨zeros, hexponent, hparts⟩ | ⟨places, hexponent, hlt, hsome, hparts⟩ |
    ⟨places, hexponent, hle, hparts⟩
  · rw [hparts, List.append_nil, ofDigits_append, hvalue, ofDigits_replicate_zero,
      List.length_replicate, Nat.add_zero, Nat.mul_comm, reduce_mul_pow]
    simpa [← hexponent] using hd
  · have hlength : (decimalDigits d.coefficient).length -
        ((decimalDigits d.coefficient).length - places) = places := by omega
    rw [hparts, List.splitAt_eq, List.take_append_drop, hvalue, List.length_drop, hlength,
      ← hexponent]
    exact hd
  · have hlength : places - (decimalDigits d.coefficient).length +
        (decimalDigits d.coefficient).length = places := by omega
    have hzero : ofDigits 10 ['0'] = 0 := by decide
    rw [hparts, ofDigits_append, ofDigits_append, hvalue, ofDigits_replicate_zero, hzero,
      List.length_append, List.length_replicate, hlength, ← hexponent]
    simpa using hd

end Decimal

end LSystem.Number
