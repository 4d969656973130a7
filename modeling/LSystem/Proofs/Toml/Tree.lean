import LSystem.Toml.Document

/-!
# Changes deep inside a table

A heading changes a table deep inside the one that is built. The way there is the same for all
headings inside a table, so their sections can be added where they apply, and the result is put into
the outer table as one change (`addSections_inside`).
-/

namespace LSystem.Toml.Node

/-! ### One key -/

theorem alter_of_not_mem {key : String} {entries : Entries}
    (hnew : key ∉ entries.map Prod.fst) (f : Option Node → Option Node) :
    alter key f entries = (f none).map fun node => entries ++ [(key, node)] := by
  induction entries with
  | nil => rfl
  | cons entry entries ih =>
    obtain ⟨k, node⟩ := entry
    rw [List.map_cons, List.mem_cons, not_or] at hnew
    rw [alter, if_neg (Ne.symm hnew.1), ih hnew.2, Option.map_map]
    rfl

theorem alter_last {key : String} {entries : Entries} (hnew : key ∉ entries.map Prod.fst)
    (node : Node) (f : Option Node → Option Node) :
    alter key f (entries ++ [(key, node)]) =
      (f (some node)).map fun node => entries ++ [(key, node)] := by
  induction entries with
  | nil => rw [List.nil_append, alter, if_pos rfl]; rfl
  | cons entry entries ih =>
    obtain ⟨k, other⟩ := entry
    rw [List.map_cons, List.mem_cons, not_or] at hnew
    rw [List.cons_append, alter, if_neg (Ne.symm hnew.1), ih hnew.2, Option.map_map]
    rfl

theorem alter_bind (key : String) (f g : Option Node → Option Node) (entries : Entries) :
    (alter key f entries).bind (alter key g) =
      alter key (fun old => (f old).bind fun node => g (some node)) entries := by
  induction entries with
  | nil =>
    rw [alter, alter]
    cases f none with
    | none => rfl
    | some node => rw [Option.map_some, Option.bind_some, alter, if_pos rfl]; rfl
  | cons entry entries ih =>
    obtain ⟨k, node⟩ := entry
    rw [alter, alter]
    split
    · next heq =>
      cases f (some node) with
      | none => rfl
      | some changed => rw [Option.map_some, Option.bind_some, alter, if_pos heq]; rfl
    · next hne =>
      rw [← ih]
      cases alter key f entries with
      | none => rfl
      | some changed => rw [Option.map_some, Option.bind_some, alter, if_neg hne]; rfl

/-! ### The last element -/

theorem alterLast_append {α : Type} (f : α → Option α) (xs : List α) (x : α) :
    alterLast f (xs ++ [x]) = (f x).map fun x => xs ++ [x] := by
  induction xs with
  | nil => rfl
  | cons y xs ih =>
    obtain ⟨z, zs, hzs⟩ := List.exists_cons_of_ne_nil (List.append_ne_nil_of_right_ne_nil xs
      (List.cons_ne_nil x []))
    rw [List.cons_append, hzs, alterLast, ← hzs, ih, Option.map_map]
    rfl

theorem alterLast_bind {α : Type} (f g : α → Option α) (xs : List α) :
    (alterLast f xs).bind (alterLast g) = alterLast (fun x => (f x).bind g) xs := by
  rcases List.eq_nil_or_concat xs with rfl | ⟨front, x, rfl⟩
  · rfl
  · rw [List.concat_eq_append, alterLast_append, alterLast_append]
    cases f x with
    | none => rfl
    | some changed =>
      rw [Option.map_some, Option.bind_some, alterLast_append, Option.bind_some]

/-! ### Paths -/

/-- A change of the table that a heading passes through. -/
def into (f : Entries → Option Entries) : Option Node → Option Node
  | none => (f []).map (.table .passed)
  | some (.table origin inner) => (f inner).map (.table origin)
  | some (.elements tables) => (alterLast f tables).map .elements
  | some (.value _) => none

theorem into_bind (f g : Entries → Option Entries) (old : Option Node) :
    (into f old).bind (fun node => into g (some node)) =
      into (fun entries => (f entries).bind g) old := by
  rcases old with _ | v | ⟨origin, inner⟩ | tables
  · simp only [into]
    cases f [] with
    | none => rfl
    | some changed => rfl
  · rfl
  · simp only [into]
    cases f inner with
    | none => rfl
    | some changed => rfl
  · simp only [into, ← alterLast_bind]
    cases alterLast f tables with
    | none => rfl
    | some changed => rfl

theorem enter_cons (f : Entries → Option Entries) (parent : String) (parents : List String) :
    enter f (parent :: parents) = alter parent (into (enter f parents)) := by
  funext entries
  rw [enter]
  congr 1

/-! ### Headings -/

/-- The lines under one heading. -/
def addSection (entries : Entries) (s : Section) : Option Entries :=
  match s.heading with
  | .table path => addTable path s.pairs entries
  | .element path => addElement path s.pairs entries

def addSections (sections : List Section) (entries : Entries) : Option Entries :=
  sections.foldlM addSection entries

theorem addSections_cons (s : Section) (sections : List Section) (entries : Entries) :
    addSections (s :: sections) entries = (addSection entries s).bind (addSections sections) := by
  rw [addSections, List.foldlM_cons]
  rfl

theorem addSections_append (front back : List Section) (entries : Entries) :
    addSections (front ++ back) entries = (addSections front entries).bind (addSections back) := by
  rw [addSections, List.foldlM_append]
  rfl

end LSystem.Toml.Node

namespace LSystem.Toml

/-- A path inside the table with the given name. -/
def Path.inside (parent : String) (path : Path) : Path := ⟨parent :: path.parents, path.name⟩

def Heading.inside (parent : String) : Heading → Heading
  | .table path => .table (path.inside parent)
  | .element path => .element (path.inside parent)

def Section.inside (parent : String) (s : Section) : Section := ⟨s.heading.inside parent, s.pairs⟩

namespace Node

theorem addSection_inside (parent : String) (s : Section) (entries : Entries) :
    addSection entries (s.inside parent) =
      alter parent (into fun entries => addSection entries s) entries := by
  obtain ⟨heading, pairs⟩ := s
  cases heading with
  | table path => exact congrFun (enter_cons _ parent path.parents) entries
  | element path => exact congrFun (enter_cons _ parent path.parents) entries

/-- What stands under headings inside a table is one change of this table. -/
theorem addSections_inside (parent : String) {sections : List Section} (hsome : sections ≠ [])
    (entries : Entries) :
    addSections (sections.map (·.inside parent)) entries =
      alter parent (into (addSections sections)) entries := by
  induction sections generalizing entries with
  | nil => exact absurd rfl hsome
  | cons s sections ih =>
    have hfirst : addSections (s :: sections) =
        fun entries => (addSection entries s).bind (addSections sections) := by
      funext entries
      exact addSections_cons s sections entries
    rw [List.map_cons, addSections_cons, addSection_inside, hfirst]
    cases sections with
    | nil =>
      have hdone : ∀ change : Option Entries, change.bind (addSections []) = change := by
        intro change
        cases change with
        | none => rfl
        | some entries => rfl
      simp only [hdone, List.map_nil]
    | cons t sections =>
      have hrest : addSections ((t :: sections).map (·.inside parent)) =
          alter parent (into (addSections (t :: sections))) := by
        funext entries
        exact ih (by simp) entries
      rw [hrest, alter_bind]
      congr 1
      funext old
      exact into_bind (fun entries => addSection entries s) (addSections (t :: sections)) old

end Node

theorem Document.toTable?_eq (d : Document) :
    d.toTable? = ((Node.addPairs d.pairs []).bind (Node.addSections d.sections)).map Node.toTable :=
  rfl

end LSystem.Toml
