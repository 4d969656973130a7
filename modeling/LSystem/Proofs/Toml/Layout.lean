import LSystem.Proofs.Toml.Document
import LSystem.Proofs.Toml.Tree
import LSystem.Toml.Layout
import Mathlib

/-!
# Tables are read back

A table is laid out with its plain values first and its inner tables behind them, so that is the
order in which it is read back, at every level (`readTable?_writeTable`). Each inner table is built
by the headings that were written for it: its sections only change what stands under its own key,
and there they add its entries one after the other.
-/

namespace LSystem.Toml

open Node (Entries addSections)

/-- Values that can be written: plain values, and tables of writable values under different keys. -/
inductive Value.Writable : (depth : Nat) → Value → Prop
  | plain {depth : Nat} {v : Value} (hplain : v.Plain (depthLimit - 1)) : Writable depth v
  | table {depth : Nat} {entries : Table} (hkeys : (entries.map Prod.fst).Nodup)
      (hentries : ∀ entry ∈ entries, Writable depth entry.2) : Writable (depth + 1) (.table entries)
  | elements {depth : Nat} {tables : List Table} (hsome : tables ≠ [])
      (hkeys : ∀ entries ∈ tables, (entries.map Prod.fst).Nodup)
      (hentries : ∀ entries ∈ tables, ∀ entry ∈ entries, Writable depth entry.2) :
      Writable (depth + 1) (.elements tables)

/-! ### The order in which tables are written -/

/-- The entries of a table that need no section. -/
def plainEntries (entries : Table) : Table := entries.filter fun entry => !entry.2.isBlock

mutual

/-- A value with the plain values in front, in each of its tables. -/
def Value.arranged : Value → Value
  | .table entries => .table (plainEntries entries ++ arrangedBlocks entries)
  | .elements tables => .elements (arrangedTables tables)
  | v => v

def arrangedBlocks : List (String × Value) → Table
  | [] => []
  | (key, v) :: rest =>
    if v.isBlock then (key, v.arranged) :: arrangedBlocks rest else arrangedBlocks rest

def arrangedTables : List (List (String × Value)) → List Table
  | [] => []
  | entries :: rest => (plainEntries entries ++ arrangedBlocks entries) :: arrangedTables rest

end

/-- A table with its plain values in front. -/
def arrangedTable (entries : Table) : Table := plainEntries entries ++ arrangedBlocks entries

/-! ### The nodes that are built -/

def plainNodes (entries : Table) : Entries :=
  (plainEntries entries).map fun entry => (entry.1, .value entry.2)

mutual

/-- The node that is built for a value. A table that has only further tables gets no heading. -/
def Value.toNode : Value → Node
  | .table entries =>
    .table (if (plainEntries entries).isEmpty && !entries.isEmpty then .passed else .heading)
      (plainNodes entries ++ blockNodes entries)
  | .elements tables => .elements (elementNodes tables)
  | v => .value v

def blockNodes : List (String × Value) → Entries
  | [] => []
  | (key, v) :: rest => if v.isBlock then (key, v.toNode) :: blockNodes rest else blockNodes rest

def elementNodes : List (List (String × Value)) → List Entries
  | [] => []
  | entries :: rest => (plainNodes entries ++ blockNodes entries) :: elementNodes rest

end

theorem Node.toTable_append (front back : Entries) :
    Node.toTable (front ++ back) = Node.toTable front ++ Node.toTable back := by
  induction front with
  | nil => rfl
  | cons entry front ih => rw [List.cons_append, Node.toTable, Node.toTable, ih, List.cons_append]

theorem toTable_plainNodes (entries : Table) :
    Node.toTable (plainNodes entries) = plainEntries entries := by
  rw [plainNodes]
  induction plainEntries entries with
  | nil => rfl
  | cons entry rest ih => rw [List.map_cons, Node.toTable, ih, Node.toValue]

mutual

theorem toValue_toNode : ∀ v : Value, v.toNode.toValue = v.arranged
  | .table entries => by
    rw [Value.toNode, Value.arranged, Node.toValue, Node.toTable_append, toTable_plainNodes,
      toTable_blockNodes entries]
  | .elements tables => by
    rw [Value.toNode, Value.arranged, Node.toValue, toTables_elementNodes tables]
  | .string s => rfl
  | .integer n => rfl
  | .float x => rfl
  | .boolean b => rfl
  | .datetime text => rfl
  | .array items => rfl

theorem toTable_blockNodes : ∀ entries : Table,
    Node.toTable (blockNodes entries) = arrangedBlocks entries
  | [] => rfl
  | (key, v) :: rest => by
    rw [blockNodes, arrangedBlocks]
    split
    · rw [Node.toTable, toValue_toNode v, toTable_blockNodes rest]
    · exact toTable_blockNodes rest

theorem toTables_elementNodes : ∀ tables : List Table,
    Node.toTables (elementNodes tables) = arrangedTables tables
  | [] => rfl
  | entries :: rest => by
    rw [elementNodes, arrangedTables, Node.toTables, Node.toTable_append, toTable_plainNodes,
      toTable_blockNodes entries, toTables_elementNodes rest]

end

/-! ### Sections inside a table -/

mutual

theorem sections_inside : ∀ (v : Value) (parent : String) (path : Path),
    v.sections (path.inside parent) = (v.sections path).map (·.inside parent)
  | .table entries, parent, path => by
    have hinner := tableSections_inside entries parent (path.parents ++ [path.name])
    rw [Value.sections, Value.sections, List.map_append, ← hinner]
    simp only [Path.inside, List.cons_append]
    split
    · rfl
    · rfl
  | .elements tables, parent, path => by
    rw [Value.sections, Value.sections, elementSections_inside tables parent path]
  | .string s, _, _ => rfl
  | .integer n, _, _ => rfl
  | .float x, _, _ => rfl
  | .boolean b, _, _ => rfl
  | .datetime text, _, _ => rfl
  | .array items, _, _ => rfl

theorem tableSections_inside : ∀ (entries : Table) (parent : String) (parents : List String),
    tableSections (parent :: parents) entries =
      (tableSections parents entries).map (·.inside parent)
  | [], _, _ => rfl
  | (key, v) :: rest, parent, parents => by
    have hfirst := sections_inside v parent ⟨parents, key⟩
    rw [tableSections, tableSections, List.map_append, ← tableSections_inside rest, ← hfirst]
    rfl

theorem elementSections_inside : ∀ (tables : List Table) (parent : String) (path : Path),
    elementSections (path.inside parent) tables =
      (elementSections path tables).map (·.inside parent)
  | [], _, _ => rfl
  | entries :: rest, parent, path => by
    have hinner := tableSections_inside entries parent (path.parents ++ [path.name])
    rw [elementSections, elementSections, List.map_cons, List.map_append,
      ← elementSections_inside rest, ← hinner]
    rfl

end

theorem Value.Plain.isBlock_eq_false {depth : Nat} {v : Value} (hv : v.Plain depth) :
    v.isBlock = false := by
  cases hv with
  | string _ _ => rfl
  | integer _ _ _ => rfl
  | float _ _ => rfl
  | boolean _ _ => rfl
  | array _ => rfl

/-- No table or array of tables is left out of a document. -/
theorem sections_ne_nil {v : Value} {depth : Nat} (hv : v.Writable depth)
    (hblock : v.isBlock = true) (path : Path) : v.sections path ≠ [] := by
  induction hv generalizing path with
  | plain hplain =>
    rw [hplain.isBlock_eq_false] at hblock
    exact nomatch hblock
  | @table depth entries hkeys hentries ih =>
    rw [Value.sections]
    split
    · next hinner =>
      cases entries with
      | nil => exact nomatch hinner
      | cons entry rest =>
        have hentry : entry.2.isBlock = true := by
          simp only [plainPairs, List.isEmpty_map, Bool.and_eq_true, List.isEmpty_iff,
            List.filter_eq_nil_iff] at hinner
          simpa using hinner.1 entry (by simp)
        have hfirst := ih entry (by simp) hentry ⟨path.parents ++ [path.name], entry.1⟩
        rw [List.nil_append, tableSections]
        exact List.append_ne_nil_of_left_ne_nil hfirst _
    · exact List.append_ne_nil_of_left_ne_nil (List.cons_ne_nil _ _) _
  | @elements depth tables hsome hkeys hentries ih =>
    obtain ⟨entries, rest, rfl⟩ := List.exists_cons_of_ne_nil hsome
    rw [Value.sections, elementSections]
    exact List.cons_ne_nil _ _

/-! ### Building what was laid out -/

/-- Keys without duplicates stay new behind the first of them. -/
theorem key_not_mem_append {α β : Type} {key : String} {rest : List (String × α)}
    {entries : List (String × β)} {entry : String × α} (hmem : entry ∈ rest)
    (hkey : key ∉ rest.map Prod.fst) (hnew : entry.1 ∉ entries.map Prod.fst) (b : β) :
    entry.1 ∉ (entries ++ [(key, b)]).map Prod.fst := by
  rw [List.map_append, List.mem_append, not_or]
  refine ⟨hnew, fun hsame => hkey ?_⟩
  have heq : entry.1 = key := by simpa using hsame
  rw [← heq]
  exact List.mem_map_of_mem hmem

namespace Node

theorem addPairs_plain {entries : Table} {before : Entries} (hkeys : (entries.map Prod.fst).Nodup)
    (hnew : ∀ entry ∈ entries, entry.1 ∉ before.map Prod.fst) :
    addPairs (entries.map fun (key, v) => (⟨[], key⟩, v)) before =
      some (before ++ entries.map fun entry => (entry.1, .value entry.2)) := by
  induction entries generalizing before with
  | nil => simp [addPairs]
  | cons entry rest ih =>
    obtain ⟨key, v⟩ := entry
    rw [List.map_cons, List.nodup_cons] at hkeys
    have hfirst : addPath key v [] before = some (before ++ [(key, .value v)]) := by
      rw [addPath, alter_of_not_mem (hnew (key, v) (by simp))]
      rfl
    have hnew' : ∀ entry ∈ rest, entry.1 ∉ (before ++ [(key, Node.value v)]).map Prod.fst := by
      intro entry hmem
      exact key_not_mem_append hmem hkeys.1 (hnew entry (List.mem_cons_of_mem _ hmem)) _
    rw [List.map_cons, addPairs, List.foldlM_cons, hfirst]
    have hrest := ih hkeys.2 hnew'
    rw [addPairs] at hrest
    simpa using hrest

theorem addPairs_plainPairs {entries : Table} (hkeys : (entries.map Prod.fst).Nodup) :
    addPairs (plainPairs entries) [] = some (plainNodes entries) :=
  addPairs_plain (hkeys.sublist ((List.filter_sublist).map Prod.fst)) (by simp)

/-- Sections inside a table that stands at the end. -/
theorem addSections_inside_table (sections : List Section) {key : String} {entries : Entries}
    (hnew : key ∉ entries.map Prod.fst) (origin : Origin) (inner : Entries) :
    addSections (sections.map (·.inside key)) (entries ++ [(key, .table origin inner)]) =
      (addSections sections inner).map fun inner => entries ++ [(key, .table origin inner)] := by
  cases sections with
  | nil => rfl
  | cons s sections =>
    rw [addSections_inside key (List.cons_ne_nil s sections), alter_last hnew, into,
      Option.map_map]
    rfl

/-- Sections inside the last element of an array that stands at the end. -/
theorem addSections_inside_elements (sections : List Section) {key : String} {entries : Entries}
    (hnew : key ∉ entries.map Prod.fst) (done : List Entries) (last : Entries) :
    addSections (sections.map (·.inside key)) (entries ++ [(key, .elements (done ++ [last]))]) =
      (addSections sections last).map fun last =>
        entries ++ [(key, .elements (done ++ [last]))] := by
  cases sections with
  | nil => rfl
  | cons s sections =>
    rw [addSections_inside key (List.cons_ne_nil s sections), alter_last hnew, into,
      alterLast_append, Option.map_map, Option.map_map]
    rfl

end Node

theorem sections_of_not_isBlock {v : Value} (hplain : v.isBlock = false) (path : Path) :
    v.sections path = [] := by
  cases v with
  | table entries => exact nomatch hplain
  | elements tables => exact nomatch hplain
  | _ => rfl

/-- Whether the sections of a value add it to a table as a whole. -/
def Builds (v : Value) : Prop :=
  ∀ (key : String) (entries : Entries), key ∉ entries.map Prod.fst →
    addSections (v.sections ⟨[], key⟩) entries = some (entries ++ [(key, v.toNode)])

theorem addSections_tableSections {table : Table}
    (hbuilds : ∀ entry ∈ table, entry.2.isBlock = true → Builds entry.2)
    (hkeys : (table.map Prod.fst).Nodup) {entries : Entries}
    (hnew : ∀ entry ∈ table, entry.2.isBlock = true → entry.1 ∉ entries.map Prod.fst) :
    addSections (tableSections [] table) entries = some (entries ++ blockNodes table) := by
  induction table generalizing entries with
  | nil =>
    rw [tableSections, blockNodes, List.append_nil]
    rfl
  | cons entry rest ih =>
    obtain ⟨key, v⟩ := entry
    rw [List.map_cons, List.nodup_cons] at hkeys
    have hbuilds' := fun entry hmem => hbuilds entry (List.mem_cons_of_mem _ hmem)
    have hrest := @ih hbuilds' hkeys.2
    rw [tableSections, blockNodes]
    cases hblock : v.isBlock with
    | false =>
      rw [sections_of_not_isBlock hblock, List.nil_append, if_neg Bool.false_ne_true]
      exact hrest fun entry hmem => hnew entry (List.mem_cons_of_mem _ hmem)
    | true =>
      have hfirst := hbuilds (key, v) (by simp) hblock key entries (hnew (key, v) (by simp) hblock)
      have hnew' : ∀ entry ∈ rest, entry.2.isBlock = true →
          entry.1 ∉ (entries ++ [(key, v.toNode)]).map Prod.fst := by
        intro entry hmem hentry
        exact key_not_mem_append hmem hkeys.1 (hnew entry (List.mem_cons_of_mem _ hmem) hentry) _
      rw [Node.addSections_append, hfirst, Option.bind_some, hrest hnew', if_pos rfl,
        List.append_assoc]
      rfl

/-- A table on its own: the plain values, and behind them what has sections. -/
theorem addSections_inner {table : Table}
    (hbuilds : ∀ entry ∈ table, entry.2.isBlock = true → Builds entry.2)
    (hkeys : (table.map Prod.fst).Nodup) :
    addSections (tableSections [] table) (plainNodes table) =
      some (plainNodes table ++ blockNodes table) := by
  refine addSections_tableSections hbuilds hkeys fun entry hmem hblock hold => ?_
  simp only [plainNodes, plainEntries, List.map_map, List.mem_map, List.mem_filter,
    Bool.not_eq_true', Function.comp_apply] at hold
  obtain ⟨other, ⟨hmem', hplain⟩, heq⟩ := hold
  rw [List.inj_on_of_nodup_map hkeys hmem' hmem heq, hblock] at hplain
  exact nomatch hplain

theorem builds_table {table : Table} {depth : Nat} (hwritable : (Value.table table).Writable depth)
    (hbuilds : ∀ entry ∈ table, entry.2.isBlock = true → Builds entry.2)
    (hkeys : (table.map Prod.fst).Nodup) : Builds (.table table) := by
  intro key entries hnew
  have hinner := addSections_inner hbuilds hkeys
  have hinside := tableSections_inside table key []
  have hpairs : (plainPairs table).isEmpty = (plainEntries table).isEmpty := List.isEmpty_map
  have hsome := sections_ne_nil hwritable rfl ⟨[], key⟩
  rw [Value.sections, hpairs] at hsome ⊢
  rw [Value.toNode]
  simp only [List.nil_append] at hsome ⊢
  rw [hinside] at hsome ⊢
  split
  · next hpassed =>
    -- Without a heading of its own, the table comes into being with its first inner table.
    have hnone : plainNodes table = [] := by
      simp only [Bool.and_eq_true, List.isEmpty_iff] at hpassed
      rw [plainNodes, hpassed.1, List.map_nil]
    rw [if_pos hpassed, List.nil_append] at hsome
    rw [hnone] at hinner
    rw [List.nil_append, Node.addSections_inside key (by simpa using hsome),
      Node.alter_of_not_mem hnew, Node.into, hinner, hnone]
    rfl
  · have hheading : Node.addSection entries ⟨.table ⟨[], key⟩, plainPairs table⟩ =
        some (entries ++ [(key, .table .heading (plainNodes table))]) := by
      have hlookup : entries.lookup key = none := by
        rw [List.lookup_eq_none_iff]
        intro entry hmem
        rw [bne_iff_ne]
        rintro rfl
        exact hnew (List.mem_map_of_mem hmem)
      rw [Node.addSection]
      simp only [Node.addTable, Node.enter, hlookup, Node.addPairs_plainPairs hkeys]
      rfl
    rw [List.cons_append, List.nil_append, Node.addSections_cons, hheading, Option.bind_some,
      Node.addSections_inside_table _ hnew, hinner]
    rfl

theorem addSections_elementSections {tables : List Table}
    (hbuilds : ∀ table ∈ tables, ∀ entry ∈ table, entry.2.isBlock = true → Builds entry.2)
    (hkeys : ∀ table ∈ tables, (table.map Prod.fst).Nodup) {key : String} {entries : Entries}
    (hnew : key ∉ entries.map Prod.fst) (done : List Entries) :
    addSections (elementSections ⟨[], key⟩ tables) (entries ++ [(key, .elements done)]) =
      some (entries ++ [(key, .elements (done ++ elementNodes tables))]) := by
  induction tables generalizing done with
  | nil =>
    rw [elementSections, elementNodes, List.append_nil]
    rfl
  | cons table rest ih =>
    have hinner := addSections_inner (hbuilds table (by simp)) (hkeys table (by simp))
    have hrest := ih (fun table hmem => hbuilds table (List.mem_cons_of_mem _ hmem))
      (fun table hmem => hkeys table (List.mem_cons_of_mem _ hmem))
      (done ++ [plainNodes table ++ blockNodes table])
    have hheading : Node.addSection (entries ++ [(key, .elements done)])
        ⟨.element ⟨[], key⟩, plainPairs table⟩ =
          some (entries ++ [(key, .elements (done ++ [plainNodes table]))]) := by
      rw [Node.addSection]
      simp only [Node.addElement, Node.enter, Node.alter_last hnew,
        Node.addPairs_plainPairs (hkeys table (by simp))]
      rfl
    rw [elementSections, elementNodes, Node.addSections_cons, hheading, Option.bind_some,
      Node.addSections_append, List.nil_append, tableSections_inside table key [],
      Node.addSections_inside_elements _ hnew, hinner, Option.map_some, Option.bind_some, hrest,
      List.append_assoc]
    rfl

theorem builds_elements {tables : List Table} (hsome : tables ≠ [])
    (hbuilds : ∀ table ∈ tables, ∀ entry ∈ table, entry.2.isBlock = true → Builds entry.2)
    (hkeys : ∀ table ∈ tables, (table.map Prod.fst).Nodup) : Builds (.elements tables) := by
  intro key entries hnew
  obtain ⟨table, rest, rfl⟩ := List.exists_cons_of_ne_nil hsome
  have hinner := addSections_inner (hbuilds table (by simp)) (hkeys table (by simp))
  have hrest := addSections_elementSections
    (fun table hmem => hbuilds table (List.mem_cons_of_mem _ hmem))
    (fun table hmem => hkeys table (List.mem_cons_of_mem _ hmem)) hnew
    [plainNodes table ++ blockNodes table]
  have hheading : Node.addSection entries ⟨.element ⟨[], key⟩, plainPairs table⟩ =
      some (entries ++ [(key, .elements [plainNodes table])]) := by
    rw [Node.addSection]
    simp only [Node.addElement, Node.enter, Node.alter_of_not_mem hnew,
      Node.addPairs_plainPairs (hkeys table (by simp))]
    rfl
  have hinside := Node.addSections_inside_elements (tableSections [] table) hnew []
    (plainNodes table)
  rw [List.nil_append] at hinside
  rw [Value.sections, elementSections, Value.toNode, elementNodes, Node.addSections_cons, hheading,
    Option.bind_some, Node.addSections_append, List.nil_append, tableSections_inside table key [],
    hinside, hinner, Option.map_some, Option.bind_some, List.nil_append, hrest]
  rfl

theorem builds_of_writable {v : Value} {depth : Nat} (hv : v.Writable depth)
    (hblock : v.isBlock = true) : Builds v := by
  induction hv with
  | plain hplain =>
    rw [hplain.isBlock_eq_false] at hblock
    exact nomatch hblock
  | table hkeys hentries ih => exact builds_table (.table hkeys hentries) ih hkeys
  | elements hsome hkeys hentries ih => exact builds_elements hsome ih hkeys

/-! ### Writing a table and reading it -/

theorem Value.Writable.pair {depth : Nat} {v : Value} (hv : v.Writable depth)
    (hplain : v.isBlock = false) (key : String) : Pair.Writable (⟨[], key⟩, v) := by
  refine ⟨show 0 < depthLimit - 1 by decide, ?_⟩
  cases hv with
  | plain hv => exact hv
  | table _ _ => exact nomatch hplain
  | elements _ _ _ => exact nomatch hplain

theorem writable_plainPairs {depth : Nat} {table : Table}
    (hwritable : ∀ entry ∈ table, entry.2.Writable depth) :
    ∀ p ∈ plainPairs table, Pair.Writable p := by
  intro p hmem
  simp only [plainPairs, List.mem_map, List.mem_filter, Bool.not_eq_true'] at hmem
  obtain ⟨entry, ⟨hmem, hplain⟩, rfl⟩ := hmem
  exact (hwritable entry hmem).pair hplain entry.1

theorem tableSections_eq_flatMap (parents : List String) (table : Table) :
    tableSections parents table =
      table.flatMap fun entry => entry.2.sections ⟨parents, entry.1⟩ := by
  induction table with
  | nil => rw [tableSections]; rfl
  | cons entry rest ih => rw [tableSections, ih, List.flatMap_cons]

theorem elementSections_eq_flatMap (path : Path) (tables : List Table) :
    elementSections path tables = tables.flatMap fun table =>
      ⟨.element path, plainPairs table⟩ :: tableSections (path.parents ++ [path.name]) table := by
  induction tables with
  | nil => rw [elementSections]; rfl
  | cons table rest ih => rw [elementSections, ih, List.flatMap_cons, List.cons_append]

/-- The headings of what is nested no deeper than a path may be long can be written. -/
theorem writable_sections {depth : Nat} {v : Value} (hv : v.Writable depth) {path : Path}
    (hdepth : path.parents.length + depth ≤ depthLimit - 1) :
    ∀ s ∈ v.sections path, s.Writable := by
  induction hv generalizing path with
  | plain hplain =>
    intro s hmem
    rw [sections_of_not_isBlock hplain.isBlock_eq_false] at hmem
    exact nomatch hmem
  | @table depth entries hkeys hentries ih =>
    intro s hmem
    rw [Value.sections, List.mem_append, tableSections_eq_flatMap, List.mem_flatMap] at hmem
    rcases hmem with hmem | ⟨entry, hentry, hmem⟩
    · split at hmem
      · exact nomatch hmem
      · obtain rfl := List.mem_singleton.1 hmem
        exact ⟨show path.parents.length < depthLimit - 1 by omega, writable_plainPairs hentries⟩
    · exact ih entry hentry (by simp only [List.length_append, List.length_singleton]; omega) s hmem
  | @elements depth tables hsome hkeys hentries ih =>
    intro s hmem
    rw [Value.sections, elementSections_eq_flatMap, List.mem_flatMap] at hmem
    obtain ⟨table, htable, hmem⟩ := hmem
    rw [List.mem_cons, tableSections_eq_flatMap, List.mem_flatMap] at hmem
    rcases hmem with rfl | ⟨entry, hentry, hmem⟩
    · exact ⟨show path.parents.length < depthLimit - 1 by omega,
        writable_plainPairs (hentries table htable)⟩
    · exact ih table htable entry hentry
        (by simp only [List.length_append, List.length_singleton]; omega) s hmem

theorem writable_ofTable {depth : Nat} {table : Table}
    (hwritable : ∀ entry ∈ table, entry.2.Writable depth) (hdepth : depth ≤ depthLimit - 1) :
    (Document.ofTable table).Writable := by
  refine ⟨writable_plainPairs hwritable, fun s hmem => ?_⟩
  rw [Document.ofTable, tableSections_eq_flatMap, List.mem_flatMap] at hmem
  obtain ⟨entry, hentry, hmem⟩ := hmem
  exact writable_sections (hwritable entry hentry) (by simpa using hdepth) s hmem

theorem toTable?_ofTable {depth : Nat} {table : Table}
    (hwritable : ∀ entry ∈ table, entry.2.Writable depth) (hkeys : (table.map Prod.fst).Nodup) :
    (Document.ofTable table).toTable? = some (arrangedTable table) := by
  have hbuilds := fun entry hmem hblock => builds_of_writable (hwritable entry hmem) hblock
  rw [Document.toTable?_eq, Document.ofTable, Node.addPairs_plainPairs hkeys, Option.bind_some,
    addSections_inner hbuilds hkeys, Option.map_some, Node.toTable_append, toTable_plainNodes,
    toTable_blockNodes, arrangedTable]

/-- A table is read back from its text, with the plain values of each of its tables in front. -/
theorem readTable?_writeTable {depth : Nat} {table : Table}
    (hwritable : ∀ entry ∈ table, entry.2.Writable depth) (hkeys : (table.map Prod.fst).Nodup)
    (hdepth : depth ≤ depthLimit - 1) :
    readTable? (writeTable table) = some (arrangedTable table) := by
  rw [readTable?, writeTable, read?_encode (writable_ofTable hwritable hdepth), Option.bind_some,
    toTable?_ofTable hwritable hkeys]

/-- Plain values alone are in order. -/
theorem arrangedTable_of_plain {table : Table} (hplain : ∀ entry ∈ table, entry.2.isBlock = false) :
    arrangedTable table = table := by
  have hblocks : arrangedBlocks table = [] := by
    induction table with
    | nil => rw [arrangedBlocks]
    | cons entry rest ih =>
      rw [arrangedBlocks, if_neg (by simp [hplain entry (by simp)])]
      exact ih fun entry hmem => hplain entry (List.mem_cons_of_mem _ hmem)
  have hself : plainEntries table = table :=
    List.filter_eq_self.2 fun entry hmem => by simp [hplain entry hmem]
  rw [arrangedTable, hself, hblocks, List.append_nil]

theorem arrangedBlocks_of_arranged {table : Table}
    (harranged : ∀ entry ∈ table, entry.2.arranged = entry.2) :
    arrangedBlocks table = table.filter fun entry => entry.2.isBlock := by
  induction table with
  | nil => rw [arrangedBlocks, List.filter_nil]
  | cons entry rest ih =>
    obtain ⟨hentry, hrest⟩ := List.forall_mem_cons.1 harranged
    rw [arrangedBlocks, List.filter_cons, ih hrest, hentry]

/-- Where all values are in order, the plain ones only move to the front. -/
theorem arrangedTable_of_arranged {table : Table}
    (harranged : ∀ entry ∈ table, entry.2.arranged = entry.2) :
    arrangedTable table =
      table.filter (fun entry => !entry.2.isBlock) ++
        table.filter fun entry => entry.2.isBlock := by
  rw [arrangedTable, plainEntries, arrangedBlocks_of_arranged harranged]

theorem arranged_of_not_isBlock {v : Value} (hplain : v.isBlock = false) : v.arranged = v := by
  cases v with
  | table _ => exact nomatch hplain
  | elements _ => exact nomatch hplain
  | _ => rw [Value.arranged] <;> exact nofun

/-- Plain values in front of tables in order are in order. -/
theorem arrangedTable_append {front back : Table}
    (hfront : ∀ entry ∈ front, entry.2.isBlock = false)
    (hback : ∀ entry ∈ back, entry.2.isBlock = true ∧ entry.2.arranged = entry.2) :
    arrangedTable (front ++ back) = front ++ back := by
  have harranged : ∀ entry ∈ front ++ back, entry.2.arranged = entry.2 :=
    List.forall_mem_append.2 ⟨fun entry hmem => arranged_of_not_isBlock (hfront entry hmem),
      fun entry hmem => (hback entry hmem).2⟩
  rw [arrangedTable_of_arranged harranged, List.filter_append, List.filter_append,
    List.filter_eq_self.2 fun entry hmem => by simp [hfront entry hmem],
    List.filter_eq_nil_iff.2 fun entry hmem => by simp [(hback entry hmem).1],
    List.filter_eq_nil_iff.2 fun entry hmem => by simp [hfront entry hmem],
    List.filter_eq_self.2 fun entry hmem => (hback entry hmem).1, List.append_nil, List.nil_append]

theorem arrangedTable_singleton {v : Value} (harranged : v.arranged = v) (key : String) :
    arrangedTable [(key, v)] = [(key, v)] := by
  rw [arrangedTable_of_arranged (by simp [harranged])]
  cases hblock : v.isBlock <;> simp [hblock]

theorem arrangedTables_eq_map (tables : List Table) :
    arrangedTables tables = tables.map arrangedTable := by
  induction tables with
  | nil => rw [arrangedTables, List.map_nil]
  | cons table rest ih => rw [arrangedTables, ih, List.map_cons, arrangedTable]

end LSystem.Toml
