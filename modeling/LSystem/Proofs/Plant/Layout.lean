import LSystem.Proofs.Codec.Grammar
import LSystem.Proofs.Codec.Text
import LSystem.Proofs.Toml.Unique

/-!
# The layout of documents

What a document describes is in its entries, not in their order: if a text is accepted, any other
order of the entries is accepted as well, in the table of the document and in the tables for the
rules, the range and the turtle, and describes the same plant. Entries under keys that are not known
may be added to each of these tables but the rules, where every key is a symbol.

The four tables are two kinds of things. Plants, ranges and turtles are records, decoded field by
field, and no field has an influence on another (`independent_plantFields`). The rules are a map,
which is put in order before its keys are looked at. Both need that no key stands twice, as is the
case in what is read from a text.

The main statement is `read_of_rearranged`.
-/

namespace LSystem

open Toml (Value Table)

namespace Codec

theorem independent_configFields : configFields.Independent := by
  intro first hfirst second hsecond hne
  simp only [configFields, List.mem_cons, List.not_mem_nil, or_false] at hfirst hsecond
  -- A field beside itself is excluded; any two others set different parts of the record.
  rcases hfirst with rfl | rfl | rfl | rfl <;> rcases hsecond with rfl | rfl | rfl | rfl <;>
    try exact absurd rfl hne
  all_goals exact Fields.commute_of_set fun _ _ _ => rfl

theorem independent_plantFields : plantFields.Independent := by
  intro first hfirst second hsecond hne
  simp only [plantFields, List.mem_cons, List.not_mem_nil, or_false] at hfirst hsecond
  rcases hfirst with rfl | rfl | rfl | rfl | rfl <;>
    rcases hsecond with rfl | rfl | rfl | rfl | rfl <;> try exact absurd rfl hne
  all_goals exact Fields.commute_of_set fun _ _ _ => rfl

/-! ### The tables inside a plant -/

variable {entries other : Table}

theorem range_of_wider {r : IterationRange} (hwide : Wider rangePairing.names entries other)
    (hkeys : (entries.map Prod.fst).Nodup) (hread : range (.table entries) = .ok r) :
    range (.table other) = .ok r :=
  bind_eq_ok_of_imp (fun _ hpair => rangePairing.ofTable_of_wider hwide hkeys hpair) hread

theorem config_of_wider {c : Turtle.Config} (hwide : Wider configFields.names entries other)
    (hkeys : (entries.map Prod.fst).Nodup) (hread : config (.table entries) = .ok c) :
    config (.table other) = .ok c :=
  Fields.ofTable_of_wider independent_configFields hwide hkeys hread

/-! ### Rearranged documents -/

/-- The second value differs from the first, which stands under the given key of a document, only in
the layout of a table: in the order of the entries, and in entries that are not known. -/
inductive SameContents : (key : String) → Value → Value → Prop
  | same (key : String) (v : Value) : SameContents key v v
  | rules {entries other : Table} (hperm : entries.Perm other) :
      SameContents "rules" (.table entries) (.table other)
  | range {entries other : Table} (hwide : Wider rangePairing.names entries other) :
      SameContents "range" (.table entries) (.table other)
  | turtle {entries other : Table} (hwide : Wider configFields.names entries other) :
      SameContents "turtle" (.table entries) (.table other)

/-- The second table is a document with the entries of the first in another layout, and with further
entries that are not known. -/
def Rearranged (entries other : Table) : Prop :=
  ∃ inner : Table,
    List.Forall₂ (fun entry entry' =>
      entry.1 = entry'.1 ∧ SameContents entry.1 entry.2 entry'.2) entries inner ∧
    Wider plantFields.names inner other

/-- A table may be written from the end to the beginning, after an entry that is not known. -/
theorem wider_reverse {known : List String} (entry : String × Value) (entries : Table)
    (hentry : entry.1 ∉ known) : Wider known entries (entry :: entries.reverse) :=
  ⟨[entry], List.forall_mem_singleton.2 hentry,
    ((List.reverse_perm entries).cons _).trans (List.perm_append_singleton _ _).symm⟩

/-- A value in another layout describes the same part of a plant. -/
theorem enter_of_sameContents {key : String} {v w : Value} (hcontents : SameContents key v w)
    (hunique : v.Unique) {p q : Plant} (hread : plantFields.enter p (key, v) = .ok q) :
    plantFields.enter p (key, w) = .ok q := by
  cases hcontents with
  | same => exact hread
  | rules hperm =>
    have hkeys := (Value.unique_table_iff.1 hunique).keys
    exact bind_eq_ok_of_imp (fun g hg => grammarOfTable_of_perm hperm hkeys hg) hread
  | range hwide =>
    have hkeys := (Value.unique_table_iff.1 hunique).keys
    exact bind_eq_ok_of_imp (fun r hr => range_of_wider hwide hkeys hr) hread
  | turtle hwide =>
    have hkeys := (Value.unique_table_iff.1 hunique).keys
    exact bind_eq_ok_of_imp (fun c hc => config_of_wider hwide hkeys hc) hread

/-- A document in another layout describes the same plant. -/
theorem plantOfTable_of_rearranged (hother : Rearranged entries other)
    (hdistinct : Toml.Distinct Value.Unique entries) {p : Plant}
    (hread : plantOfTable entries = .ok p) : plantOfTable other = .ok p := by
  -- The values are exchanged where they stand; only then the entries change their places.
  obtain ⟨inner, hinner, hwide⟩ := hother
  have hkeys : entries.map Prod.fst = inner.map Prod.fst := by
    rw [← List.forall₂_eq_eq_eq, List.forall₂_map_left_iff, List.forall₂_map_right_iff]
    exact hinner.imp fun _ _ hentry => hentry.1
  have hsame : plantOfTable inner = .ok p := by
    refine Fields.ofTable_of_forall₂ ?_ hread
    refine ((List.forall₂_and_left _ _).2 ⟨hdistinct.values, hinner⟩).imp ?_
    rintro ⟨key, v⟩ ⟨key', w⟩ ⟨hunique, rfl, hcontents⟩ p q hentry
    exact enter_of_sameContents hcontents hunique hentry
  exact Fields.ofTable_of_wider independent_plantFields hwide (hkeys ▸ hdistinct.keys) hsame

end Codec

namespace Plant

theorem read_eq_ok_iff {source : String} {entries : Table} {p : Plant}
    (htable : Toml.readTable? source = some entries) :
    Plant.read source = .ok p ↔ Codec.plantOfTable entries = .ok p ∧ p.validate = .ok () := by
  rw [read_of_readTable? htable]
  constructor
  · intro hread
    split at hread
    · exact nomatch hread
    · next q hplant =>
      split at hread
      · next hvalid =>
        obtain rfl := Except.ok.inj hread
        exact ⟨hplant, hvalid⟩
      · exact nomatch hread
  · rintro ⟨hplant, hvalid⟩
    simp only [hplant, hvalid]

/-- If a text is accepted, so is every other layout of its document, with or without further entries
under keys that are not known, and the plant is the same. -/
theorem read_of_rearranged {source : String} {entries other : Table} {p : Plant}
    (htable : Toml.readTable? source = some entries) (hread : Plant.read source = .ok p)
    (hother : Codec.Rearranged entries other) :
    Codec.plantOfTable other = .ok p ∧ p.validate = .ok () ∧
      ∀ text, Toml.readTable? text = some other → Plant.read text = .ok p := by
  obtain ⟨hplant, hvalid⟩ := (read_eq_ok_iff htable).1 hread
  have hsame := Codec.plantOfTable_of_rearranged hother (Toml.readTable?_distinct htable) hplant
  exact ⟨hsame, hvalid, fun text htext => (read_eq_ok_iff htext).2 ⟨hsame, hvalid⟩⟩

/-- The small tree in a document that is written from the end to the beginning, and tells a season,
a colour and a step besides. -/
theorem read_of_rearranged_season :
    let p : Plant := default
    let other : Table :=
      [("season", .string "spring"),
        ("turtle", .table (("colour", .string "green") :: (Codec.tableOfConfig p.turtle).reverse)),
        ("range", .table [("step", .boolean true), ("max", .integer 6), ("min", .integer 1)]),
        ("rules", .table [("L", .string "L"), ("F", .string "F[+F]F[-F]L")]),
        ("iterations", .integer 1), ("axiom", .string "F")]
    Toml.readTable? p.write = some (Codec.tableOfPlant p) ∧ Plant.read p.write = .ok p ∧
      Codec.Rearranged (Codec.tableOfPlant p) other ∧ Codec.plantOfTable other = .ok p := by
  intro p other
  have hrules := Codec.SameContents.rules (List.reverse_perm (Codec.tableOfGrammar p.rules)).symm
  have hrange := Codec.SameContents.range <|
    Codec.wider_reverse ("step", .boolean true) (Codec.tableOfRange p.range) (by decide)
  have hturtle := Codec.SameContents.turtle <|
    Codec.wider_reverse ("colour", .string "green") (Codec.tableOfConfig p.turtle) (by decide)
  have hother : Codec.Rearranged (Codec.tableOfPlant p) other := by
    refine ⟨other.tail.reverse, ?_,
      Codec.wider_reverse ("season", .string "spring") other.tail.reverse (by decide)⟩
    exact .cons ⟨rfl, .same _ _⟩ <| .cons ⟨rfl, .same _ _⟩ <| .cons ⟨rfl, hrules⟩ <|
      .cons ⟨rfl, hrange⟩ <| .cons ⟨rfl, hturtle⟩ .nil
  have htable := Codec.readTable?_write p
  have hread : Plant.read p.write = .ok p :=
    (read_eq_ok_iff htable).2 ⟨Codec.plantOfTable_tableOfPlant p, by decide +kernel⟩
  exact ⟨htable, hread, hother, (read_of_rearranged htable hread hother).1⟩

end Plant

end LSystem
