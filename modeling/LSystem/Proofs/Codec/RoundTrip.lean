import LSystem.Codec.Drawing
import LSystem.Codec.Plant
import LSystem.Proofs.Number.Conversion
import LSystem.Proofs.SortedMap

/-!
# Values are decoded to what they describe

Encoding and decoding are written separately, field by field. Here each type is decoded from its own
encoding: no field is lost or taken for another one, no float changes its bits, and the symbols of a
grammar keep their order as keys.
-/

namespace LSystem.Codec

open Toml (Value Table)

@[simp]
theorem ok_bind {α β ε : Type} (a : α) (f : α → Except ε β) : (Except.ok a >>= f) = f a := rfl

theorem mapM_map_eq_ok {α β γ ε : Type} {encode : α → β} {decode : β → Except ε γ} {f : α → γ}
    (xs : List α) (hdecode : ∀ x, decode (encode x) = .ok (f x)) :
    (xs.map encode).mapM decode = .ok (xs.map f) := by
  induction xs with
  | nil => rfl
  | cons x xs ih =>
    rw [List.map_cons, List.mapM_cons, hdecode, ih]
    rfl

/-! ### Scalars -/

@[simp]
theorem text_string (s : String) : text (.string s) = .ok s := rfl

@[simp]
theorem count_ofCount (n : UInt32) : count (ofCount n) = .ok n := by
  have hsmall := n.toNat_lt
  have hbounds :
      (decide (0 ≤ (n.toNat : Int)) && decide ((n.toNat : Int) < UInt32.size)) = true := by
    rw [Bool.and_eq_true, decide_eq_true_eq, decide_eq_true_eq, UInt32.size]
    omega
  rw [ofCount, count, if_pos hbounds, Int.toNat_natCast, UInt32.ofNat_toNat]

@[simp]
theorem single_ofSingle (x : Float32) : single (ofSingle x) = .ok x := by
  rw [ofSingle, single, Number.narrow_widen]

@[simp]
theorem vec3_ofVec3 (v : Vec3) : vec3 (ofVec3 v) = .ok v := by
  simp [vec3, singles, ofVec3, Value.items?]

@[simp]
theorem quaternion_ofQuaternion (q : Quaternion) : quaternion (ofQuaternion q) = .ok q := by
  simp [quaternion, singles, ofQuaternion, Value.items?]

/-! ### Grammars -/

theorem singleton_lt {left right : Char} (hlt : left < right) :
    String.singleton left < String.singleton right := by
  change (String.singleton left).toList < (String.singleton right).toList
  rw [String.toList_singleton, String.toList_singleton]
  exact List.cons_lt_cons_iff.2 (.inl hlt)

/-- A table whose values are words. -/
def tableOfWords (entries : List (String × String)) : Table :=
  entries.map fun entry => (entry.1, .string entry.2)

/-- The words of a table are the map that they make up, in whatever order they stand. -/
theorem words_tableOfWords {m : SortedMap String String} {entries : List (String × String)}
    (hperm : entries.Perm m.toList) : words (tableOfWords entries) = .ok m := by
  rw [words, tableOfWords, mapM_map_eq_ok (f := id) entries]
  · rw [List.map_id]
    exact congrArg Except.ok (SortedMap.ofList_of_perm hperm)
  · exact fun _ => rfl

theorem ordered_singletons (g : Grammar) :
    (g.toList.map fun rule => (String.singleton rule.1, rule.2)).Pairwise
      fun a b => a.1 < b.1 :=
  List.pairwise_map.2 (g.rules.ordered.imp singleton_lt)

/-- The productions of a grammar as a map of words. -/
def wordsOfGrammar (g : Grammar) : SortedMap String String := ⟨_, ordered_singletons g⟩

theorem tableOfGrammar_eq (g : Grammar) :
    tableOfGrammar g = tableOfWords (wordsOfGrammar g).toList := by
  rw [tableOfGrammar, tableOfWords, wordsOfGrammar, List.map_map]
  rfl

@[simp]
theorem symbol_singleton (c : Char) : symbol (.singleton c) = .ok c := by simp [symbol]

theorem grammarOfWords_wordsOfGrammar (g : Grammar) :
    grammarOfWords (wordsOfGrammar g) = .ok g := by
  have hrules : Grammar.ofRules g.toList = g := congrArg Grammar.mk g.rules.ofList_toList
  rw [grammarOfWords, wordsOfGrammar, mapM_map_eq_ok (f := id) g.toList]
  · rw [List.map_id]
    exact congrArg Except.ok hrules
  · intro rule
    rw [symbol_singleton]
    rfl

theorem grammarOfTable_tableOfGrammar (g : Grammar) :
    grammarOfTable (tableOfGrammar g) = .ok g := by
  rw [grammarOfTable, tableOfGrammar_eq, words_tableOfWords (.refl _), ok_bind,
    grammarOfWords_wordsOfGrammar]

@[simp]
theorem grammar_tableOfGrammar (g : Grammar) : grammar (.table (tableOfGrammar g)) = .ok g :=
  grammarOfTable_tableOfGrammar g

/-! ### Records -/

@[simp]
theorem range_tableOfRange (r : IterationRange) : range (.table (tableOfRange r)) = .ok r := by
  simp [range, rangePairing, Pairing.decode, Pairing.ofTable, Pairing.fields, Fields.ofTable,
    tableOfRange, entries?, Value.items?, List.lookup]

@[simp]
theorem config_tableOfConfig (c : Turtle.Config) : config (.table (tableOfConfig c)) = .ok c := by
  simp [config, configFields, Fields.decode, Fields.ofTable, tableOfConfig, entries?, Value.items?,
    List.lookup]

theorem plantOfTable_tableOfPlant (p : Plant) : plantOfTable (tableOfPlant p) = .ok p := by
  simp [plantOfTable, plantFields, Fields.ofTable, tableOfPlant, List.lookup]

theorem stateOfTable_tableOfState (s : Turtle.State) : stateOfTable (tableOfState s) = .ok s := by
  simp [stateOfTable, statePairing, Pairing.ofTable, Pairing.fields, Fields.ofTable, tableOfState,
    List.lookup]

/-! ### Variants -/

theorem segmentPairing_decodeClosed (start finish : Vec3) :
    segmentPairing.decodeClosed (.table [("start", ofVec3 start), ("end", ofVec3 finish)]) =
      .ok (start, finish) := by
  simp [segmentPairing, Pairing.decodeClosed, Pairing.unexpected, Pairing.names, Pairing.ofTable,
    Pairing.fields, Fields.ofTable, List.lookup]

theorem markerPairing_decodeClosed (point : Vec3) (orientation : Quaternion) :
    markerPairing.decodeClosed
        (.table [("point", ofVec3 point), ("orientation", ofQuaternion orientation)]) =
      .ok (point, orientation) := by
  simp [markerPairing, Pairing.decodeClosed, Pairing.unexpected, Pairing.names, Pairing.ofTable,
    Pairing.fields, Fields.ofTable, List.lookup]

theorem primitive_tableOfPrimitive (p : Primitive) :
    primitive (.table (tableOfPrimitive p)) = .ok p := by
  cases p with
  | segment start finish =>
    simp [primitive, tableOfPrimitive, variant, withParts, segmentPairing_decodeClosed]
  | marker point orientation =>
    simp [primitive, tableOfPrimitive, variant, withParts, markerPairing_decodeClosed]

theorem primitives_ofTables (ps : List Primitive) :
    primitives (.ofTables (ps.map tableOfPrimitive)) = .ok ps := by
  have hread : ((ps.map tableOfPrimitive).map Value.table).mapM primitive = .ok (ps.map id) := by
    rw [List.map_map]
    exact mapM_map_eq_ok ps primitive_tableOfPrimitive
  rw [List.map_id] at hread
  cases ps with
  | nil => rfl
  | cons p ps => exact hread

theorem drawingOfTable_tableOfDrawing (d : Drawing) :
    drawingOfTable (tableOfDrawing d) = .ok d := by
  have hread := primitives_ofTables d.toList
  simp only [drawingOfTable, drawingFields, Fields.ofTable, tableOfDrawing, List.foldlM_cons,
    List.foldlM_nil, List.lookup_cons_self, hread, ok_bind]
  rfl

theorem op_ofOp (o : Turtle.Op) : op (ofOp o) = .ok o := by
  cases o with
  | turn factor => simp [op, ofOp, variant, withParts]
  | _ => rfl

end LSystem.Codec
