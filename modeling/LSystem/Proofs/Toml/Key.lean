import LSystem.Proofs.Toml.Quoted
import LSystem.Toml.Key

/-!
# Keys and paths are read back

A key is written bare or in quotes, and the first character tells which of the two it is. A path is
its keys with points between them, so it is read back key by key, if it is no longer than readers
allow.
-/

namespace LSystem.Toml

/-- A key is a bare one, or it starts with a quote. -/
theorem encodeKey_cases (key : String) :
    (encodeKey key = key.toList ∧ key.toList ≠ [] ∧
        ∀ c ∈ key.toList, isBareKeyChar c = true) ∨
      encodeKey key = '"' :: (key.toList.flatMap escaped ++ ['"']) ∨
      encodeKey key = '\'' :: (key.toList ++ ['\'']) ∧ QuoteStyle.literal.Fits key.toList := by
  have hfits := fits_ofKey key.toList
  by_cases hbare : (!key.toList.isEmpty && key.toList.all isBareKeyChar) = true
  · left
    refine ⟨by simp only [encodeKey, hbare, if_true], ?_⟩
    simpa using hbare
  · right
    have hshape : encodeKey key = (QuoteStyle.ofKey key.toList).encode key.toList := by
      simp only [encodeKey, hbare]
      rfl
    rw [hshape]
    simp only [QuoteStyle.ofKey] at hfits ⊢
    split
    · exact .inl rfl
    · split
      · next hdouble hsingle =>
        simp only [hdouble, hsingle, if_true] at hfits
        exact .inr ⟨rfl, hfits⟩
      · exact .inl rfl

/-- The characters with which keys start. -/
def isKeyStart (c : Char) : Bool := isBareKeyChar c || ['"', '\''].contains c

theorem ne_of_isKeyStart {c d : Char} (hstart : isKeyStart c = true) (hnot : isKeyStart d = false) :
    c ≠ d := by
  rintro rfl
  rw [hstart] at hnot
  exact nomatch hnot

theorem isBlank_of_isKeyStart {c : Char} (hstart : isKeyStart c = true) : isBlank c = false := by
  rw [isBlank, Bool.or_eq_false_iff, beq_eq_false_iff_ne, beq_eq_false_iff_ne]
  exact ⟨ne_of_isKeyStart hstart (by decide), ne_of_isKeyStart hstart (by decide)⟩

theorem exists_encodeKey_eq_cons (key : String) :
    ∃ c cs, encodeKey key = c :: cs ∧ isKeyStart c = true := by
  rcases encodeKey_cases key with ⟨hkey, hsome, hbare⟩ | hkey | ⟨hkey, _⟩
  · obtain ⟨c, cs, hcs⟩ := List.exists_cons_of_ne_nil hsome
    exact ⟨c, cs, by rw [hkey, hcs], by simp [isKeyStart, hbare c (by simp [hcs])]⟩
  · exact ⟨_, _, hkey, by decide⟩
  · exact ⟨_, _, hkey, by decide⟩

theorem stops_encodeKey (key : String) (rest : List Char) :
    Stops isBlank (encodeKey key ++ rest) := by
  obtain ⟨c, cs, hcs, hstart⟩ := exists_encodeKey_eq_cons key
  rw [hcs]
  exact stops_cons (isBlank_of_isKeyStart hstart) _

theorem key?_bare {c : Char} (hbare : isBareKeyChar c = true) (cs : List Char) :
    key? (c :: cs) = some (String.ofList ((c :: cs).takeWhile isBareKeyChar),
      (c :: cs).dropWhile isBareKeyChar) := by
  unfold key?
  split
  · next heq =>
    rw [(List.cons.inj heq).1] at hbare
    exact absurd hbare (by decide)
  · next heq =>
    rw [(List.cons.inj heq).1] at hbare
    exact absurd hbare (by decide)
  · rw [List.takeWhile_cons_of_pos hbare]
    rfl

theorem key?_encodeKey (key : String) {rest : List Char} (hstop : Stops isBareKeyChar rest) :
    key? (encodeKey key ++ rest) = some (key, rest) := by
  rcases encodeKey_cases key with ⟨hkey, hsome, hbare⟩ | hkey | ⟨hkey, hfits⟩
  · have htake := takeWhile_append_of_stops hbare hstop
    have hdrop := dropWhile_append_of_stops hbare hstop
    obtain ⟨c, cs, hcs⟩ := List.exists_cons_of_ne_nil hsome
    rw [hkey]
    rw [hcs, List.cons_append] at htake hdrop ⊢
    rw [key?_bare (hbare c (by simp [hcs])), htake, hdrop, ← hcs, String.ofList_toList]
  · have hshape : encodeKey key ++ rest =
        '"' :: (key.toList.flatMap escaped ++ '"' :: rest) := by simp [hkey]
    simp only [hshape, key?, basicBody_encode, Option.map_some, String.ofList_toList]
  · have hshape : encodeKey key ++ rest = '\'' :: (key.toList ++ '\'' :: rest) := by simp [hkey]
    simp only [hshape, key?, literalBody_encode hfits, Option.map_some, String.ofList_toList]

/-! ### Paths -/

theorem exists_encodePath_eq_cons (path : Path) :
    ∃ c cs, path.encode = c :: cs ∧ isKeyStart c = true := by
  obtain ⟨parents, name⟩ := path
  cases parents with
  | nil => exact exists_encodeKey_eq_cons name
  | cons parent parents =>
    obtain ⟨c, cs, hcs, hstart⟩ := exists_encodeKey_eq_cons parent
    exact ⟨c, _, by simp [Path.encode, hcs]; rfl, hstart⟩

theorem path?_of_key? {budget : Nat} {cs rest : List Char} {key : String}
    (hkey : key? (skipBlanks cs) = some (key, rest)) (hpoint : Stops (· == '.') (skipBlanks rest)) :
    path? (budget + 1) cs = some (⟨[], key⟩, skipBlanks rest) := by
  simp only [path?, hkey]
  split
  · next heq =>
    rw [heq] at hpoint
    exact absurd (hpoint '.' rfl) (by decide)
  · rfl

theorem path?_encode (path : Path) {rest : List Char} {budget : Nat}
    (hbudget : path.parents.length < budget) (hstop : Stops isBareKeyChar rest)
    (hpoint : Stops (· == '.') (skipBlanks rest)) :
    path? budget (path.encode ++ rest) = some (path, skipBlanks rest) := by
  obtain ⟨parents, name⟩ := path
  induction parents generalizing budget with
  | nil =>
    cases budget with
    | zero => exact absurd hbudget (Nat.not_lt_zero _)
    | succ budget =>
      have hblank := skipBlanks_of_stops (stops_encodeKey name rest)
      have hkey := key?_encodeKey name hstop
      rw [← hblank] at hkey
      exact path?_of_key? hkey hpoint
  | cons parent parents ih =>
    cases budget with
    | zero => exact absurd hbudget (Nat.not_lt_zero _)
    | succ budget =>
      have hshape : Path.encode ⟨parent :: parents, name⟩ ++ rest =
          encodeKey parent ++ '.' :: (Path.encode ⟨parents, name⟩ ++ rest) := by
        simp [Path.encode]
      have hkey := key?_encodeKey parent (stops_cons (show isBareKeyChar '.' = false by decide)
        (Path.encode ⟨parents, name⟩ ++ rest))
      have hblank := skipBlanks_of_stops (stops_cons (show isBlank '.' = false by decide)
        (Path.encode ⟨parents, name⟩ ++ rest))
      rw [hshape, path?, skipBlanks_of_stops (stops_encodeKey parent _), hkey]
      simp only [hblank, ih (Nat.lt_of_succ_lt_succ hbudget), Option.map_some]

end LSystem.Toml
