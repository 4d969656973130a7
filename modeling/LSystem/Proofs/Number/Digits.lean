import LSystem.Number.Digits
import Mathlib

/-!
# Numbers and their digits

The digits of a number write this number, and only zero has a zero in front. Digits behave under
concatenation like numbers in positional notation, so zeros at either end of a text are understood
without looking into it.
-/

namespace LSystem.Number

theorem digit?_digitChar {n : Nat} (hlt : n < 10) : digit? n.digitChar = some n := by
  have hall : ∀ n < 10, digit? (Nat.digitChar n) = some n := by decide
  exact hall n hlt

theorem isDigitIn_of_isDigit {c : Char} (hdigit : c.isDigit = true) : isDigitIn 10 c = true := by
  simp only [Char.isDigit, Bool.and_eq_true, decide_eq_true_eq] at hdigit
  obtain ⟨hlow, hhigh⟩ := hdigit
  have hlow' : '0' ≤ c := hlow
  have hhigh' : c ≤ '9' := hhigh
  have hnat : c.toNat ≤ 57 := hhigh
  have hvalue : c.toNat - 48 < 10 := by omega
  simp [isDigitIn, digit?, hlow', hhigh', hvalue]

/-! ### Reading digits -/

theorem ofDigits_append (base : Nat) (front back : List Char) :
    ofDigits base (front ++ back) =
      base ^ back.length * ofDigits base front + ofDigits base back := by
  have hgeneral : ∀ (start : Nat) (ds : List Char),
      ds.foldl (fun n c => base * n + (digit? c).getD 0) start =
        base ^ ds.length * start + ofDigits base ds := by
    intro start ds
    induction ds generalizing start with
    | nil => simp [ofDigits]
    | cons d ds ih =>
      rw [ofDigits, List.foldl_cons, ih, List.foldl_cons, ih, List.length_cons, Nat.pow_succ]
      simp only [Nat.mul_zero, Nat.zero_add, Nat.mul_add, Nat.mul_assoc, Nat.add_assoc]
  rw [ofDigits, List.foldl_append, hgeneral]
  rfl

@[simp]
theorem ofDigits_replicate_zero (base count : Nat) :
    ofDigits base (List.replicate count '0') = 0 := by
  induction count with
  | zero => rfl
  | succ count ih =>
    rw [List.replicate_succ', ofDigits_append, ih]
    rfl

theorem ofDigits_decimalDigits (n : Nat) : ofDigits 10 (decimalDigits n) = n := by
  induction n using Nat.strongRecOn with
  | ind n ih =>
    rw [decimalDigits, Nat.toDigits_eq_if (by decide)]
    split
    · next hlt => simp [ofDigits, digit?_digitChar hlt]
    · next hge =>
      have hmod : n % 10 < 10 := Nat.mod_lt n (by decide)
      have hlast : ofDigits 10 [(n % 10).digitChar] = n % 10 := by
        simp [ofDigits, digit?_digitChar hmod]
      have hfront := ih (n / 10) (by omega)
      rw [decimalDigits] at hfront
      rw [ofDigits_append, hfront, hlast, List.length_singleton]
      omega

/-! ### Writing digits -/

theorem decimalDigits_ne_nil (n : Nat) : decimalDigits n ≠ [] := Nat.toDigits_ne_nil

theorem isDigit_of_mem_decimalDigits {n : Nat} {c : Char} (hmem : c ∈ decimalDigits n) :
    c.isDigit = true := Nat.isDigit_of_mem_toDigits (by decide) (by decide) hmem

theorem decimalDigits_zero : decimalDigits 0 = ['0'] := Nat.toDigits_zero 10

theorem head?_decimalDigits_ne_zero {n : Nat} (hpos : 0 < n) :
    (decimalDigits n).head? ≠ some '0' := by
  induction n using Nat.strongRecOn with
  | ind n ih =>
    rw [decimalDigits, Nat.toDigits_eq_if (by decide)]
    split
    · intro hhead
      simp only [List.head?_cons, Option.some.injEq, Nat.digitChar_eq_zero] at hhead
      omega
    · next hge =>
      have hfront := ih (n / 10) (by omega) (by omega)
      obtain ⟨d, ds, hds⟩ := List.exists_cons_of_ne_nil (decimalDigits_ne_nil (n / 10))
      rw [hds] at hfront
      rw [decimalDigits] at hds
      rw [hds]
      exact hfront

end LSystem.Number
