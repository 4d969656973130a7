import LSystem.Toml.Spacing

/-!
# Where reading stops

Everything that is written ends where the next character cannot belong to it, and no more than
single blanks and line feeds are written between the parts of a document. So a part is taken as a
whole, and what is skipped behind it is just what was put there.
-/

namespace LSystem.Toml

/-- Whether a text does not start with a character of the given kind. -/
def Stops (kind : Char → Bool) (cs : List Char) : Prop := ∀ c ∈ cs.head?, kind c = false

variable {kind : Char → Bool} {front back : List Char}

theorem stops_nil (kind : Char → Bool) : Stops kind [] := by simp [Stops]

theorem stops_cons {c : Char} (hkind : kind c = false) (cs : List Char) :
    Stops kind (c :: cs) := by simp [Stops, hkind]

theorem takeWhile_of_stops (hstop : Stops kind back) : back.takeWhile kind = [] := by
  cases back with
  | nil => rfl
  | cons c cs => rw [List.takeWhile_cons_of_neg (by simp [hstop c rfl])]

theorem dropWhile_of_stops (hstop : Stops kind back) : back.dropWhile kind = back := by
  cases back with
  | nil => rfl
  | cons c cs => rw [List.dropWhile_cons_of_neg (by simp [hstop c rfl])]

theorem takeWhile_append_of_stops (hfront : ∀ c ∈ front, kind c = true) (hstop : Stops kind back) :
    (front ++ back).takeWhile kind = front := by
  rw [List.takeWhile_append_of_pos hfront, takeWhile_of_stops hstop, List.append_nil]

theorem dropWhile_append_of_stops (hfront : ∀ c ∈ front, kind c = true) (hstop : Stops kind back) :
    (front ++ back).dropWhile kind = back := by
  rw [List.dropWhile_append_of_pos hfront, dropWhile_of_stops hstop]

/-! ### Blanks and line ends -/

theorem skipBlanks_of_stops (hstop : Stops isBlank back) : skipBlanks back = back :=
  dropWhile_of_stops hstop

@[simp]
theorem skipBlanks_blank (cs : List Char) : skipBlanks (' ' :: cs) = skipBlanks cs := rfl

@[simp]
theorem lineEnd?_newline (cs : List Char) : lineEnd? ('\n' :: cs) = some cs := rfl

theorem skipGaps_of_stops (hblank : Stops isBlank back)
    (hmark : Stops (['\n', '\r', '#'].contains ·) back) : skipGaps false back = back := by
  cases back with
  | nil => rfl
  | cons c cs =>
    have hblank' := hblank c rfl
    have hmark' := hmark c rfl
    simp only [List.contains_cons, List.contains_nil, Bool.or_false, Bool.or_eq_false_iff,
      beq_eq_false_iff_ne] at hmark'
    obtain ⟨_, hreturn, hcomment⟩ := hmark'
    simp [skipGaps, hreturn, hcomment, hblank']

end LSystem.Toml
