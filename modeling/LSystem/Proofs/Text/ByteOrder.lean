import Mathlib.Data.String.Basic

/-!
# The order of strings and the order of their bytes

Strings are compared character by character, and a map with strings as keys lists them in that
order. Their UTF-8 texts, compared byte by byte, come in the same order (`bytes_lt_bytes_iff`): of
two characters the smaller one has the smaller first byte, or the bytes agree up to a place where it
has the smaller one (`encoded_append_lt`). No character is encoded by the front part of another one,
so the order is settled before the bytes of the next character begin.
-/

namespace LSystem.Text

/-- The bytes of a string in UTF-8. -/
def bytes (s : String) : List UInt8 := s.toUTF8.data.toList

theorem bytes_eq_flatMap (s : String) : bytes s = s.toList.flatMap String.utf8EncodeChar := by
  obtain ⟨cs, rfl⟩ : ∃ cs, s = String.ofList cs := ⟨s.toList, by simp⟩
  rw [String.toList_ofList]
  exact List.toList_data_toByteArray

/-! ### Characters -/

theorem ofNat_eq_ofNat_iff {m n : Nat} (hm : m < UInt8.size) (hn : n < UInt8.size) :
    UInt8.ofNat m = UInt8.ofNat n ↔ m = n := by
  rw [← UInt8.toNat_inj, UInt8.toNat_ofNat', UInt8.toNat_ofNat', Nat.mod_eq_of_lt hm,
    Nat.mod_eq_of_lt hn]

/-- A character is written as its digits to the base 64, the highest one first and marked with their
number, so numbers of characters compare like the bytes. -/
theorem encoded_append_lt {c d : Char} (hlt : c < d) (front back : List UInt8) :
    String.utf8EncodeChar c ++ front < String.utf8EncodeChar d ++ back := by
  have hnumber : c.val.toNat < d.val.toNat := hlt
  have hbound : d.val.toNat < 0x110000 := by
    rcases d.valid with hlow | hhigh
    · omega
    · exact hhigh.2
  have hsize : UInt8.size = 256 := rfl
  have hsecond : ∀ n : Nat, n / 4096 = n / 64 / 64 := by omega
  have hthird : ∀ n : Nat, n / 262144 = n / 64 / 64 / 64 := by omega
  fun_cases String.utf8EncodeChar c <;> fun_cases String.utf8EncodeChar d <;>
    simp (disch := omega) only [List.cons_append, List.nil_append, List.cons_lt_cons_iff,
      UInt8.ofNat_lt_iff_lt, ofNat_eq_ofNat_iff, hsecond, hthird] <;>
    omega

/-! ### Strings -/

theorem encoded_lt_encoded {cs ds : List Char} (hlt : cs < ds) :
    cs.flatMap String.utf8EncodeChar < ds.flatMap String.utf8EncodeChar := by
  induction cs generalizing ds with
  | nil =>
    cases ds with
    | nil => exact absurd hlt (List.lt_irrefl [])
    | cons d ds =>
      obtain ⟨byte, rest, hbytes⟩ :=
        List.exists_cons_of_ne_nil (String.utf8EncodeChar_ne_nil : String.utf8EncodeChar d ≠ [])
      rw [List.flatMap_nil, List.flatMap_cons, hbytes, List.cons_append]
      exact List.nil_lt_cons _ _
  | cons c cs ih =>
    cases ds with
    | nil => exact absurd hlt (List.not_lt_nil _)
    | cons d ds =>
      rw [List.flatMap_cons, List.flatMap_cons]
      rcases List.cons_lt_cons_iff.1 hlt with hhead | ⟨rfl, htail⟩
      · exact encoded_append_lt hhead _ _
      · exact List.append_left_lt (ih htail)

theorem bytes_lt_bytes {s t : String} (hlt : s < t) : bytes s < bytes t := by
  rw [bytes_eq_flatMap, bytes_eq_flatMap]
  exact encoded_lt_encoded (String.lt_iff.1 hlt)

/-- Strings come in the order of their bytes. -/
theorem bytes_lt_bytes_iff {s t : String} : bytes s < bytes t ↔ s < t := by
  refine ⟨fun hbytes => ?_, bytes_lt_bytes⟩
  rcases lt_trichotomy s t with hlt | rfl | hgt
  · exact hlt
  · exact absurd hbytes (List.lt_irrefl _)
  · exact absurd hbytes (List.lt_asymm (bytes_lt_bytes hgt))

end LSystem.Text
