import LSystem.Codec.Text
import LSystem.Proofs.Codec.RoundTrip
import LSystem.Proofs.Toml.Layout

/-!
# Plants in texts

Every plant can be written, and its text is read back as the plant: whatever the word, the symbols
and the floats are, reading fails only where the plant itself is refused, and with the same fault
(`Plant.read_write`).
-/

namespace LSystem

open Toml (Value Table)

namespace Codec

theorem plain_ofSingle (depth : Nat) (x : Float32) : (ofSingle x).Plain depth := .float depth _

theorem plain_ofCount (depth : Nat) (n : UInt32) : (ofCount n).Plain depth := by
  have hsmall := n.toNat_lt
  exact .integer depth (by omega) (by omega)

theorem plain_ofVec3 (depth : Nat) (v : Vec3) : (ofVec3 v).Plain (depth + 1) := by
  refine .array fun item hmem => ?_
  simp only [List.mem_cons, List.not_mem_nil, or_false] at hmem
  rcases hmem with rfl | rfl | rfl <;> exact plain_ofSingle depth _

theorem plain_ofQuaternion (depth : Nat) (q : Quaternion) : (ofQuaternion q).Plain (depth + 1) := by
  refine .array fun item hmem => ?_
  simp only [List.mem_cons, List.not_mem_nil, or_false] at hmem
  rcases hmem with rfl | rfl | rfl | rfl <;> exact plain_ofSingle depth _

/-! ### Tables of plain values -/

/-- A table that is written under one heading. -/
structure Flat (entries : Table) : Prop where
  keys : (entries.map Prod.fst).Nodup
  plain : ∀ entry ∈ entries, entry.2.Plain (Toml.depthLimit - 1)

theorem Flat.writable {entries : Table} (hflat : Flat entries) (depth : Nat) :
    (Value.table entries).Writable (depth + 1) :=
  .table hflat.keys fun entry hmem => .plain (hflat.plain entry hmem)

theorem Flat.arranged {entries : Table} (hflat : Flat entries) :
    (Value.table entries).arranged = .table entries := by
  have harranged := Toml.arrangedTable_of_plain fun entry hmem =>
    (hflat.plain entry hmem).isBlock_eq_false
  rw [Toml.arrangedTable] at harranged
  rw [Value.arranged, harranged]

theorem flat_pair {first second : String} {a b : Value} (hne : first ≠ second)
    (ha : a.Plain (Toml.depthLimit - 1)) (hb : b.Plain (Toml.depthLimit - 1)) :
    Flat [(first, a), (second, b)] := by
  refine ⟨by simp [hne], fun entry hmem => ?_⟩
  simp only [List.mem_cons, List.not_mem_nil, or_false] at hmem
  rcases hmem with rfl | rfl
  · exact ha
  · exact hb

theorem flat_tableOfGrammar (g : Grammar) : Flat (tableOfGrammar g) := by
  constructor
  · rw [tableOfGrammar, List.map_map]
    have hordered : (g.toList.map fun rule => String.singleton rule.1).Pairwise (· < ·) :=
      List.pairwise_map.2 (g.rules.ordered.imp singleton_lt)
    exact hordered.imp fun hlt heq => by
      rw [heq] at hlt
      exact String.lt_irrefl _ hlt
  · intro entry hmem
    obtain ⟨rule, _, rfl⟩ := List.mem_map.1 hmem
    exact .string _ _

theorem flat_tableOfRange (r : IterationRange) : Flat (tableOfRange r) :=
  flat_pair (by decide) (plain_ofCount _ _) (plain_ofCount _ _)

theorem flat_tableOfConfig (c : Turtle.Config) : Flat (tableOfConfig c) := by
  refine ⟨by simp [tableOfConfig], fun entry hmem => ?_⟩
  simp only [tableOfConfig, List.mem_cons, List.not_mem_nil, or_false] at hmem
  rcases hmem with rfl | rfl | rfl | rfl
  · exact plain_ofSingle _ _
  · exact plain_ofSingle _ _
  · exact plain_ofVec3 _ _
  · exact plain_ofQuaternion _ _

/-! ### Plants -/

theorem writable_tableOfPlant (p : Plant) :
    ∀ entry ∈ tableOfPlant p, entry.2.Writable 1 := by
  intro entry hmem
  simp only [tableOfPlant, List.mem_cons, List.not_mem_nil, or_false] at hmem
  rcases hmem with rfl | rfl | rfl | rfl | rfl
  · exact .plain (.string _ _)
  · exact .plain (plain_ofCount _ _)
  · exact (flat_tableOfGrammar p.rules).writable 0
  · exact (flat_tableOfRange p.range).writable 0
  · exact (flat_tableOfConfig p.turtle).writable 0

theorem arrangedTable_tableOfPlant (p : Plant) :
    Toml.arrangedTable (tableOfPlant p) = tableOfPlant p := by
  have hrules := (flat_tableOfGrammar p.rules).arranged
  have hrange := (flat_tableOfRange p.range).arranged
  have hturtle := (flat_tableOfConfig p.turtle).arranged
  simp [tableOfPlant, Toml.arrangedTable, Toml.plainEntries, Toml.arrangedBlocks, Value.isBlock,
    ofCount, hrules, hrange, hturtle]

theorem readTable?_write (p : Plant) : Toml.readTable? p.write = some (tableOfPlant p) := by
  have hkeys : ((tableOfPlant p).map Prod.fst).Nodup := by simp [tableOfPlant]
  rw [Plant.write, Toml.readTable?_writeTable (writable_tableOfPlant p) hkeys (by decide),
    arrangedTable_tableOfPlant]

end Codec

/-- A plant is read from the table of a text: it must describe one, and one that can be grown. -/
theorem Plant.read_of_readTable? {source : String} {entries : Table}
    (htable : Toml.readTable? source = some entries) :
    Plant.read source =
      match Codec.plantOfTable entries with
      | .error fault => .error (.shape fault)
      | .ok p =>
        match p.validate with
        | .ok () => .ok p
        | .error fault => .error (.parameter fault) := by
  rw [Plant.read, Codec.read, htable]
  cases hplant : Codec.plantOfTable entries with
  | error fault => simp [hplant, Except.mapError, bind, Except.bind]
  | ok p =>
    cases hvalidate : p.validate with
    | error fault => simp [hplant, hvalidate, Except.mapError, bind, Except.bind]
    | ok _ => simp [hplant, hvalidate, Except.mapError]

/-- A plant is read back from its text as it is, down to the bits of its floats, if it can be grown;
if not, its text is refused for the same reason. -/
theorem Plant.read_write (p : Plant) :
    Plant.read p.write =
      match p.validate with
      | .ok () => .ok p
      | .error fault => .error (.parameter fault) := by
  have hread : Codec.read Codec.plantOfTable p.write = .ok p := by
    rw [Codec.read, Codec.readTable?_write]
    simp only [Codec.plantOfTable_tableOfPlant]
    rfl
  rw [Plant.read, hread]
  cases hvalidate : p.validate with
  | ok _ => simp [hvalidate, Except.mapError]
  | error fault => simp [hvalidate, Except.mapError, bind, Except.bind]

end LSystem
