import LSystem.Proofs.Codec.Record
import LSystem.Proofs.Codec.Text

/-!
# Documents with missing fields

Every field of a plant may be missing from its document and then is that of the small tree, and so
may every parameter of the turtle. The bounds of the range may not: if one of them is missing while
there is a table for the range, the document is refused. With the whole range missing, the bounds
are those of the small tree.

What is left of a document therefore describes the plant with the missing fields filled in, or lacks
a bound (`plantOfTable_remaining`). The main statement is `read_of_remaining`.
-/

namespace LSystem

open Toml (Value Table)

namespace Codec

/-- The keys that are left out of the document of a plant: at the top, and in the tables for the
range and the turtle. -/
structure Omission where
  plant : List String
  range : List String
  turtle : List String

/-- A range with the usual bounds in place of those that are left out. -/
def fillRange (omitted : List String) (r : IterationRange) : IterationRange where
  min := if "min" ∈ omitted then (default : IterationRange).min else r.min
  max := if "max" ∈ omitted then (default : IterationRange).max else r.max

/-- A turtle with the usual parameters in place of those that are left out. -/
def fillConfig (omitted : List String) (c : Turtle.Config) : Turtle.Config where
  stepLength :=
    if "step_length" ∈ omitted then (default : Turtle.Config).stepLength else c.stepLength
  turnAngle := if "turn_angle" ∈ omitted then (default : Turtle.Config).turnAngle else c.turnAngle
  origin := if "origin" ∈ omitted then (default : Turtle.Config).origin else c.origin
  orientation :=
    if "orientation" ∈ omitted then (default : Turtle.Config).orientation else c.orientation

namespace Omission

/-- Leaves keys out of the table that stands under a key of the document. -/
def prune (o : Omission) : String × Value → String × Value
  | ("range", .table entries) => ("range", .table (without o.range entries))
  | ("turtle", .table entries) => ("turtle", .table (without o.turtle entries))
  | entry => entry

/-- What is left of the document of a plant. -/
def remaining (o : Omission) (p : Plant) : Table := without o.plant ((tableOfPlant p).map o.prune)

/-- The plant with the usual values in place of the fields that are left out. -/
def fill (o : Omission) (p : Plant) : Plant where
  seed := if "axiom" ∈ o.plant then (default : Plant).seed else p.seed
  iterations := if "iterations" ∈ o.plant then (default : Plant).iterations else p.iterations
  rules := if "rules" ∈ o.plant then (default : Plant).rules else p.rules
  range := if "range" ∈ o.plant then (default : Plant).range else fillRange o.range p.range
  turtle := if "turtle" ∈ o.plant then (default : Plant).turtle else fillConfig o.turtle p.turtle

/-- The first bound that is missing from a range that is there. -/
def missing? (o : Omission) : Option String :=
  if "range" ∈ o.plant then none else rangePairing.names.find? (· ∈ o.range)

variable {o : Omission}

theorem missing?_eq_none (hcomplete : "range" ∈ o.plant ∨ "min" ∉ o.range ∧ "max" ∉ o.range) :
    o.missing? = none := by
  rcases hcomplete with hrange | ⟨hmin, hmax⟩
  · rw [missing?, if_pos hrange]
  · simp [missing?, Pairing.names, Pairing.fields, rangePairing, hmin, hmax]

theorem missing?_eq_min (hrange : "range" ∉ o.plant) (hmin : "min" ∈ o.range) :
    o.missing? = some "min" := by
  simp [missing?, Pairing.names, Pairing.fields, rangePairing, hrange, hmin]

theorem missing?_eq_max (hrange : "range" ∉ o.plant) (hmin : "min" ∉ o.range)
    (hmax : "max" ∈ o.range) : o.missing? = some "max" := by
  simp [missing?, Pairing.names, Pairing.fields, rangePairing, hrange, hmin, hmax]

end Omission

/-! ### Tables inside the document -/

theorem config_without (omitted : List String) (c : Turtle.Config) :
    config (.table (without omitted (tableOfConfig c))) = .ok (fillConfig omitted c) := by
  change configFields.ofTable default (without omitted (tableOfConfig c)) = _
  rw [tableOfConfig, Fields.ofTable_without_cons rfl (single_ofSingle _) rfl,
    Fields.ofTable_without_cons rfl (single_ofSingle _) rfl,
    Fields.ofTable_without_cons rfl (vec3_ofVec3 _) rfl,
    Fields.ofTable_without_cons rfl (quaternion_ofQuaternion _) rfl]
  rfl

theorem fillRange_eq_self {omitted : List String} (hmin : "min" ∉ omitted) (hmax : "max" ∉ omitted)
    (r : IterationRange) : fillRange omitted r = r := by
  rw [fillRange, if_neg hmin, if_neg hmax]

theorem range_without (omitted : List String) (r : IterationRange) :
    range (.table (without omitted (tableOfRange r))) =
      match rangePairing.names.find? (· ∈ omitted) with
      | some name => .error (.missingField name)
      | none => .ok (fillRange omitted r) := by
  have hne : rangePairing.firstName ≠ rangePairing.secondName := by simp [rangePairing]
  have hmin : rangePairing.first (ofCount r.min) = .ok r.min := by simp [rangePairing]
  have hmax : rangePairing.second (ofCount r.max) = .ok r.max := by simp [rangePairing]
  have hpair : rangePairing.ofTable (without omitted (tableOfRange r)) = _ :=
    rangePairing.ofTable_without hne hmin hmax omitted
  have hrange : range (.table (without omitted (tableOfRange r))) =
      rangePairing.ofTable (without omitted (tableOfRange r)) >>= fun pair =>
        .ok ⟨pair.1, pair.2⟩ := rfl
  rw [hrange, hpair]
  cases hfind : rangePairing.names.find? (· ∈ omitted) with
  | some name => rfl
  | none =>
    have hkept : "min" ∉ omitted ∧ "max" ∉ omitted := by
      simpa [Pairing.names, Pairing.fields, rangePairing] using hfind
    rw [fillRange_eq_self hkept.1 hkept.2]
    rfl

/-! ### The document -/

theorem remaining_eq (o : Omission) (p : Plant) :
    o.remaining p = without o.plant
      [("axiom", .string p.seed), ("iterations", ofCount p.iterations),
        ("rules", .table (tableOfGrammar p.rules)),
        ("range", .table (without o.range (tableOfRange p.range))),
        ("turtle", .table (without o.turtle (tableOfConfig p.turtle)))] := rfl

theorem plantOfTable_remaining (o : Omission) (p : Plant) :
    plantOfTable (o.remaining p) =
      match o.missing? with
      | some name => .error (.missingField name)
      | none => .ok (o.fill p) := by
  have hread := range_without o.range p.range
  rw [plantOfTable, remaining_eq, Fields.ofTable_without_cons rfl (text_string _) rfl,
    Fields.ofTable_without_cons rfl (count_ofCount _) rfl,
    Fields.ofTable_without_cons rfl (grammar_tableOfGrammar _) rfl, Omission.missing?]
  -- Only the range can fail, if it is there: it is left out, or complete, or it lacks a bound.
  by_cases hrange : "range" ∈ o.plant
  · rw [without_cons, if_pos hrange, if_pos hrange,
      Fields.ofTable_without_cons rfl (config_without _ _) rfl, Omission.fill, if_pos hrange]
    rfl
  · rw [if_neg hrange]
    cases hfind : rangePairing.names.find? (· ∈ o.range) with
    | none =>
      rw [hfind] at hread
      rw [Fields.ofTable_without_cons rfl hread rfl,
        Fields.ofTable_without_cons rfl (config_without _ _) rfl]
      rfl
    | some name =>
      rw [hfind] at hread
      have hrefused : ∀ start, plantFields.enter start
          ("range", .table (without o.range (tableOfRange p.range))) =
            .error (.missingField name) := by
        intro start
        change (range _ >>= fun r => .ok { start with range := r }) = _
        rw [hread]
        rfl
      rw [without_cons, if_neg hrange, Fields.ofTable_cons, hrefused]
      rfl

/-! ### The text -/

theorem Flat.without {entries : Table} (hflat : Flat entries) (keys : List String) :
    Flat (without keys entries) where
  keys := nodup_keys_without hflat.keys keys
  plain := fun entry hmem => hflat.plain entry (mem_of_mem_without hmem)

theorem writable_remaining (o : Omission) (p : Plant) :
    ∀ entry ∈ o.remaining p, entry.2.Writable 1 := by
  intro entry hmem
  have hmem := mem_of_mem_without hmem
  simp only [tableOfPlant, Omission.prune, List.map_cons, List.map_nil, List.mem_cons,
    List.not_mem_nil, or_false] at hmem
  rcases hmem with rfl | rfl | rfl | rfl | rfl
  · exact .plain (.string _ _)
  · exact .plain (plain_ofCount _ _)
  · exact (flat_tableOfGrammar p.rules).writable 0
  · exact ((flat_tableOfRange p.range).without o.range).writable 0
  · exact ((flat_tableOfConfig p.turtle).without o.turtle).writable 0

theorem arrangedTable_remaining (o : Omission) (p : Plant) :
    Toml.arrangedTable (o.remaining p) = o.remaining p := by
  let front : Table := [("axiom", .string p.seed), ("iterations", ofCount p.iterations)]
  let back : Table :=
    [("rules", .table (tableOfGrammar p.rules)),
      ("range", .table (without o.range (tableOfRange p.range))),
      ("turtle", .table (without o.turtle (tableOfConfig p.turtle)))]
  have hfront : ∀ entry ∈ front, entry.2.isBlock = false := by
    simp [front, ofCount, Value.isBlock]
  have hback : ∀ entry ∈ back, entry.2.isBlock = true ∧ entry.2.arranged = entry.2 := by
    have hrules := (flat_tableOfGrammar p.rules).arranged
    have hrange := ((flat_tableOfRange p.range).without o.range).arranged
    have hturtle := ((flat_tableOfConfig p.turtle).without o.turtle).arranged
    simp [back, Value.isBlock, hrules, hrange, hturtle]
  have hsplit : o.remaining p = without o.plant front ++ without o.plant back :=
    (remaining_eq o p).trans (List.filter_append front back)
  rw [hsplit]
  exact Toml.arrangedTable_append (fun entry hmem => hfront entry (mem_of_mem_without hmem))
    fun entry hmem => hback entry (mem_of_mem_without hmem)

theorem readTable?_writeTable_remaining (o : Omission) (p : Plant) :
    Toml.readTable? (Toml.writeTable (o.remaining p)) = some (o.remaining p) := by
  have hkeys : ((o.remaining p).map Prod.fst).Nodup := by
    refine nodup_keys_without ?_ o.plant
    simp [tableOfPlant, Omission.prune]
  rw [Toml.readTable?_writeTable (writable_remaining o p) hkeys (by decide),
    arrangedTable_remaining]

end Codec

namespace Plant

/-- What reading gives once the plant is known: the plant, or why it cannot be grown. -/
def checked (p : Plant) : Except Codec.ReadFault Plant :=
  match p.validate with
  | .ok () => .ok p
  | .error fault => .error (.parameter fault)

theorem checked_of_ok {p : Plant} (hvalid : p.validate = .ok ()) : p.checked = .ok p := by
  simp only [checked, hvalid]

theorem checked_of_error {p : Plant} {fault : ParameterFault} (hfault : p.validate = .error fault) :
    p.checked = .error (.parameter fault) := by
  simp only [checked, hfault]

theorem read_remaining {o : Codec.Omission} {p : Plant} {source : String}
    (htable : Toml.readTable? source = some (o.remaining p)) :
    Plant.read source =
      match o.missing? with
      | some name => .error (.shape (.missingField name))
      | none => (o.fill p).checked := by
  rw [read_of_readTable? htable, Codec.plantOfTable_remaining]
  cases o.missing? <;> rfl

/-- Whatever is left out of the document of a plant, the text that is left is well formed, and is
read like the plant with the usual values filled in: it is accepted if that can be grown, and
refused for the same reason if not. The one exception are the bounds of the range: if one of them is
missing from the table of the range, the text is refused because the field is missing. -/
theorem read_of_remaining (o : Codec.Omission) (p : Plant) :
    Toml.readTable? (Toml.writeTable (o.remaining p)) = some (o.remaining p) ∧
      ∀ source, Toml.readTable? source = some (o.remaining p) →
        ("range" ∈ o.plant ∨ "min" ∉ o.range ∧ "max" ∉ o.range →
          Plant.read source = (o.fill p).checked) ∧
        ("range" ∉ o.plant → "min" ∈ o.range →
          Plant.read source = .error (.shape (.missingField "min"))) ∧
        ("range" ∉ o.plant → "min" ∉ o.range → "max" ∈ o.range →
          Plant.read source = .error (.shape (.missingField "max"))) := by
  refine ⟨Codec.readTable?_writeTable_remaining o p, fun source htable => ?_⟩
  have hread := read_remaining htable
  refine ⟨fun hcomplete => ?_, fun hrange hmin => ?_, fun hrange hmin hmax => ?_⟩
  · rwa [Codec.Omission.missing?_eq_none hcomplete] at hread
  · rwa [Codec.Omission.missing?_eq_min hrange hmin] at hread
  · rwa [Codec.Omission.missing?_eq_max hrange hmin hmax] at hread

/-- A plant with nine passes is read as it is without its rules and its turn angle, since these are
the usual ones. Without its range it is refused, since the usual range ends at six. Without a bound
alone it is not even looked at. -/
theorem read_of_remaining_nine :
    let p : Plant := { (default : Plant) with iterations := 9, range := ⟨1, 9⟩ }
    let usual : Codec.Omission := ⟨["rules"], [], ["turn_angle"]⟩
    let rangeless : Codec.Omission := ⟨["rules", "range"], ["min"], []⟩
    let boundless : Codec.Omission := ⟨[], ["min", "max"], []⟩
    let endless : Codec.Omission := ⟨[], ["max"], []⟩
    Plant.read (Toml.writeTable (usual.remaining p)) = .ok p ∧
      Plant.read (Toml.writeTable (rangeless.remaining p)) =
        .error (.parameter (.iterations 9 ⟨1, 6⟩)) ∧
      Plant.read (Toml.writeTable (boundless.remaining p)) =
        .error (.shape (.missingField "min")) ∧
      Plant.read (Toml.writeTable (endless.remaining p)) =
        .error (.shape (.missingField "max")) := by
  intro p usual rangeless boundless endless
  have hfill : usual.fill p = p := by decide +kernel
  have hread := fun o => (read_of_remaining o p).2 _ (read_of_remaining o p).1
  refine ⟨((hread usual).1 (by decide)).trans ?_, ((hread rangeless).1 (by decide)).trans ?_,
    (hread boundless).2.1 (by decide) (by decide),
    (hread endless).2.2 (by decide) (by decide) (by decide)⟩
  · rw [hfill]
    exact checked_of_ok (by decide +kernel)
  · exact checked_of_error (by decide +kernel)

/-- A bound that is missing does not take its usual value, though the type of ranges has one and the
plant with that bound can be grown. -/
theorem not_forall_read_eq_checked :
    ¬∀ (o : Codec.Omission) (p : Plant), p.validate = .ok () →
      ∀ source, Toml.readTable? source = some (o.remaining p) →
        Plant.read source = (o.fill p).checked := by
  intro hall
  let o : Codec.Omission := ⟨[], ["max"], []⟩
  have htable := Codec.readTable?_writeTable_remaining o default
  have hread := hall o default (by decide +kernel) _ htable
  rw [read_remaining htable, Codec.Omission.missing?_eq_max (by decide) (by decide) (by decide),
    checked_of_ok (by decide +kernel)] at hread
  exact nomatch hread

end Plant

end LSystem
