import LSystem.Proofs.Codec.Text

/-!
# Values in texts

Grammars, ranges, parameters, states, drawings and named operations can each be a document of their
own. They take different ways through the format: most are one flat table, a drawing is an array of
tables that hold one table each, and a map of operations mixes plain lines with tables, so that its
text has another order than the map. Each is read back from its own text as it was, and nothing is
checked on the way.

The main statement is `readsBack_values`.
-/

namespace LSystem.Codec

open Toml (Value Table)

/-- Whether every value is read back from the text that is written for it. -/
def ReadsBack {α : Type} (encode : α → Table) (decode : Table → Except ShapeFault α) : Prop :=
  ∀ v, read decode (Toml.writeTable (encode v)) = .ok v

section Routes

variable {α : Type} {encode : α → Table} {decode : Table → Except ShapeFault α}

/-- Reading back takes tables that can be written, and a decoder that bears the order in which they
are. -/
theorem readsBack_of_writable {depth : Nat} (hdepth : depth ≤ Toml.depthLimit - 1)
    (hwritable : ∀ v, ∀ entry ∈ encode v, entry.2.Writable depth)
    (hkeys : ∀ v, ((encode v).map Prod.fst).Nodup)
    (hdecode : ∀ v, decode (Toml.arrangedTable (encode v)) = .ok v) : ReadsBack encode decode := by
  intro v
  have hread := Toml.readTable?_writeTable (hwritable v) (hkeys v) hdepth
  rw [read, hread]
  simp only [hdecode]
  rfl

theorem readsBack_of_flat (hflat : ∀ v, Flat (encode v))
    (hdecode : ∀ v, decode (encode v) = .ok v) : ReadsBack encode decode := by
  refine readsBack_of_writable (Nat.zero_le _)
    (fun v entry hmem => .plain ((hflat v).plain entry hmem)) (fun v => (hflat v).keys) fun v => ?_
  rw [Toml.arrangedTable_of_plain fun entry hmem => ((hflat v).plain entry hmem).isBlock_eq_false]
  exact hdecode v

end Routes

/-! ### States -/

theorem flat_tableOfState (s : Turtle.State) : Flat (tableOfState s) :=
  flat_pair (by decide) (plain_ofVec3 _ _) (plain_ofQuaternion _ _)

/-! ### Drawings -/

/-- The one table in the table of a primitive. -/
theorem tableOfPrimitive_cases (p : Primitive) :
    ∃ name parts, tableOfPrimitive p = [(name, .table parts)] ∧ Flat parts := by
  cases p with
  | segment start finish =>
    exact ⟨"Segment", _, rfl, flat_pair (by decide) (plain_ofVec3 _ _) (plain_ofVec3 _ _)⟩
  | marker point orientation =>
    exact ⟨"Marker", _, rfl, flat_pair (by decide) (plain_ofVec3 _ _) (plain_ofQuaternion _ _)⟩

theorem arrangedTable_tableOfPrimitive (p : Primitive) :
    Toml.arrangedTable (tableOfPrimitive p) = tableOfPrimitive p := by
  obtain ⟨name, parts, htable, hflat⟩ := tableOfPrimitive_cases p
  rw [htable, Toml.arrangedTable_singleton hflat.arranged]

theorem writable_ofTables (ps : List Primitive) :
    (Value.ofTables (ps.map tableOfPrimitive)).Writable 2 := by
  cases ps with
  | nil => exact .plain (.array fun _ hmem => nomatch hmem)
  | cons p ps =>
    refine .elements (List.cons_ne_nil _ _) ?_ ?_
    · intro table hmem
      obtain ⟨q, _, rfl⟩ := List.mem_map.1 hmem
      obtain ⟨name, parts, htable, _⟩ := tableOfPrimitive_cases q
      simp [htable]
    · intro table hmem entry hentry
      obtain ⟨q, _, rfl⟩ := List.mem_map.1 hmem
      obtain ⟨name, parts, htable, hflat⟩ := tableOfPrimitive_cases q
      rw [htable, List.mem_singleton] at hentry
      rw [hentry]
      exact hflat.writable 0

theorem arranged_ofTables (ps : List Primitive) :
    (Value.ofTables (ps.map tableOfPrimitive)).arranged =
      .ofTables (ps.map tableOfPrimitive) := by
  cases ps with
  | nil => rfl
  | cons p ps =>
    have hsame : ((p :: ps).map tableOfPrimitive).map Toml.arrangedTable =
        (p :: ps).map tableOfPrimitive := by
      rw [List.map_map]
      exact List.map_congr_left fun q _ => arrangedTable_tableOfPrimitive q
    change (Value.elements ((p :: ps).map tableOfPrimitive)).arranged = _
    rw [Value.arranged, Toml.arrangedTables_eq_map, hsame]
    rfl

theorem arrangedTable_tableOfDrawing (d : Drawing) :
    Toml.arrangedTable (tableOfDrawing d) = tableOfDrawing d :=
  Toml.arrangedTable_singleton (arranged_ofTables d.toList) "primitives"

theorem readsBack_drawing : ReadsBack tableOfDrawing drawingOfTable := by
  refine readsBack_of_writable (by decide : 2 ≤ Toml.depthLimit - 1) ?_ ?_ ?_
  · intro d entry hmem
    rw [tableOfDrawing, List.mem_singleton] at hmem
    rw [hmem]
    exact writable_ofTables d.toList
  · intro d
    simp [tableOfDrawing]
  · intro d
    rw [arrangedTable_tableOfDrawing, drawingOfTable_tableOfDrawing]

/-! ### Named operations -/

theorem flat_turn (factor : Float32) : Flat [("Turn", ofSingle factor)] := by
  refine ⟨by simp, fun entry hmem => ?_⟩
  rw [List.mem_singleton.1 hmem]
  exact plain_ofSingle _ _

theorem writable_ofOp (o : Turtle.Op) : (ofOp o).Writable 1 := by
  cases o with
  | turn factor => exact (flat_turn factor).writable 0
  | _ => exact .plain (.string _ _)

theorem arranged_ofOp (o : Turtle.Op) : (ofOp o).arranged = ofOp o := by
  cases o with
  | turn factor => exact (flat_turn factor).arranged
  | _ => rfl

/-- Operations in any order are read as the map that they make up. -/
theorem opsOfTable_map (entries : List (String × Turtle.Op)) :
    opsOfTable (entries.map fun entry => (entry.1, ofOp entry.2)) = .ok (.ofList entries) := by
  have hread : (entries.map fun entry => (entry.1, ofOp entry.2)).mapM
      (fun entry => do return (entry.1, ← op entry.2)) =
        (.ok (entries.map id) : Except ShapeFault _) := by
    refine mapM_map_eq_ok entries fun entry => ?_
    rw [op_ofOp]
    rfl
  rw [opsOfTable, hread, List.map_id]
  rfl

/-- In the text of a map the operations that have a table come behind the others. -/
theorem opsOfTable_arrangedTable (ops : SortedMap String Turtle.Op) :
    opsOfTable (Toml.arrangedTable (tableOfOps ops)) = .ok ops := by
  have harranged : ∀ entry ∈ tableOfOps ops, entry.2.arranged = entry.2 := by
    intro entry hmem
    obtain ⟨source, _, rfl⟩ := List.mem_map.1 hmem
    exact arranged_ofOp source.2
  rw [Toml.arrangedTable_of_arranged harranged, tableOfOps, List.filter_map, List.filter_map,
    ← List.map_append, opsOfTable_map, SortedMap.ofList_of_perm]
  exact List.perm_append_comm.trans (List.filter_append_perm _ ops.toList)

theorem readsBack_ops : ReadsBack tableOfOps opsOfTable := by
  refine readsBack_of_writable (by decide : 1 ≤ Toml.depthLimit - 1) ?_ ?_ opsOfTable_arrangedTable
  · intro ops entry hmem
    obtain ⟨source, _, rfl⟩ := List.mem_map.1 hmem
    exact writable_ofOp source.2
  · intro ops
    rw [tableOfOps, List.map_map]
    exact ops.nodup_keys

/-- Whatever a grammar, a range, parameters, a state, a drawing or a map of operations is, its text
is read back as the same, down to the bits of its floats, the order of its primitives and the names
of its operations. Also what nothing can be drawn with is read back. -/
theorem readsBack_values :
    ReadsBack tableOfGrammar grammarOfTable ∧ ReadsBack tableOfRange rangeOfTable ∧
      ReadsBack tableOfConfig configOfTable ∧ ReadsBack tableOfState stateOfTable ∧
      ReadsBack tableOfDrawing drawingOfTable ∧ ReadsBack tableOfOps opsOfTable :=
  ⟨readsBack_of_flat flat_tableOfGrammar grammar_tableOfGrammar,
    readsBack_of_flat flat_tableOfRange range_tableOfRange,
    readsBack_of_flat flat_tableOfConfig config_tableOfConfig,
    readsBack_of_flat flat_tableOfState stateOfTable_tableOfState,
    readsBack_drawing, readsBack_ops⟩

end LSystem.Codec
