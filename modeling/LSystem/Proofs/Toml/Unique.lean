import LSystem.Proofs.Toml.Tree

/-!
# No key is named twice

In a table that is read from a text no key stands twice, and neither does one in any table inside it
(`readTable?_distinct`). A document comes to a table step by step, and every step changes one place
of the tree that is built: it adds a key that is not there, or it goes on into the table that a key
stands for. What has to be kept is therefore a property of the whole tree, and it is enough that a
change at one key keeps it (`keeps_alter`); the way down to the place is the same change again.
-/

namespace LSystem.Toml

/-- Entries with different keys, each of which stands for something that satisfies a condition. -/
structure Distinct {α : Type} (P : α → Prop) (entries : List (String × α)) : Prop where
  keys : (entries.map Prod.fst).Nodup
  values : ∀ entry ∈ entries, P entry.2

/-- In no table of the value a key stands twice. -/
inductive Value.Unique : Value → Prop
  | string (s : String) : Unique (.string s)
  | integer (n : Int) : Unique (.integer n)
  | float (x : Float) : Unique (.float x)
  | boolean (b : Bool) : Unique (.boolean b)
  | datetime (text : String) : Unique (.datetime text)
  | array {items : List Value} (hitems : ∀ v ∈ items, Unique v) : Unique (.array items)
  | table {entries : Table} (hkeys : (entries.map Prod.fst).Nodup)
      (hvalues : ∀ entry ∈ entries, Unique entry.2) : Unique (.table entries)
  | elements {tables : List Table} (hkeys : ∀ entries ∈ tables, (entries.map Prod.fst).Nodup)
      (hvalues : ∀ entries ∈ tables, ∀ entry ∈ entries, Unique entry.2) :
      Unique (.elements tables)

/-- In no table under construction a key stands twice. -/
inductive Node.Unique : Node → Prop
  | value {v : Value} (hv : v.Unique) : Unique (.value v)
  | table (origin : Origin) {entries : Node.Entries} (hkeys : (entries.map Prod.fst).Nodup)
      (hvalues : ∀ entry ∈ entries, Unique entry.2) : Unique (.table origin entries)
  | elements {tables : List Node.Entries} (hkeys : ∀ entries ∈ tables, (entries.map Prod.fst).Nodup)
      (hvalues : ∀ entries ∈ tables, ∀ entry ∈ entries, Unique entry.2) :
      Unique (.elements tables)

theorem Value.unique_table_iff {entries : Table} :
    (Value.table entries).Unique ↔ Distinct Value.Unique entries := by
  constructor
  · rintro (_ | _ | _ | _ | _ | _ | ⟨hkeys, hvalues⟩)
    exact ⟨hkeys, hvalues⟩
  · rintro ⟨hkeys, hvalues⟩
    exact .table hkeys hvalues

theorem Value.unique_elements_iff {tables : List Table} :
    (Value.elements tables).Unique ↔ ∀ entries ∈ tables, Distinct Value.Unique entries := by
  constructor
  · rintro (_ | _ | _ | _ | _ | _ | _ | ⟨hkeys, hvalues⟩) entries hmem
    exact ⟨hkeys entries hmem, hvalues entries hmem⟩
  · intro htables
    exact .elements (fun entries hmem => (htables entries hmem).keys) fun entries hmem =>
      (htables entries hmem).values

theorem Node.unique_table_iff {origin : Origin} {entries : Node.Entries} :
    (Node.table origin entries).Unique ↔ Distinct Node.Unique entries := by
  constructor
  · rintro (_ | ⟨_, hkeys, hvalues⟩)
    exact ⟨hkeys, hvalues⟩
  · rintro ⟨hkeys, hvalues⟩
    exact .table origin hkeys hvalues

theorem Node.unique_elements_iff {tables : List Node.Entries} :
    (Node.elements tables).Unique ↔ ∀ entries ∈ tables, Distinct Node.Unique entries := by
  constructor
  · rintro (_ | _ | ⟨hkeys, hvalues⟩) entries hmem
    exact ⟨hkeys entries hmem, hvalues entries hmem⟩
  · intro htables
    exact .elements (fun entries hmem => (htables entries hmem).keys) fun entries hmem =>
      (htables entries hmem).values

section Distinct

variable {α : Type} {P : α → Prop}

theorem distinct_nil : Distinct P [] := ⟨List.nodup_nil, List.forall_mem_nil _⟩

theorem distinct_cons_iff {key : String} {x : α} {entries : List (String × α)} :
    Distinct P ((key, x) :: entries) ↔
      key ∉ entries.map Prod.fst ∧ P x ∧ Distinct P entries := by
  constructor
  · rintro ⟨hkeys, hvalues⟩
    obtain ⟨hkey, hkeys⟩ := List.nodup_cons.1 hkeys
    obtain ⟨hx, hvalues⟩ := List.forall_mem_cons.1 hvalues
    exact ⟨hkey, hx, hkeys, hvalues⟩
  · rintro ⟨hkey, hx, hkeys, hvalues⟩
    exact ⟨List.nodup_cons.2 ⟨hkey, hkeys⟩, List.forall_mem_cons.2 ⟨hx, hvalues⟩⟩

theorem Distinct.concat {key : String} {x : α} {entries : List (String × α)}
    (hentries : Distinct P entries) (hnew : key ∉ entries.map Prod.fst) (hx : P x) :
    Distinct P (entries ++ [(key, x)]) := by
  constructor
  · rw [List.map_append, List.map_singleton, List.nodup_append]
    refine ⟨hentries.keys, List.pairwise_singleton _ key, fun k hk other hother => ?_⟩
    rw [List.mem_singleton.1 hother]
    rintro rfl
    exact hnew hk
  · intro entry hmem
    rcases List.mem_append.1 hmem with hmem | hmem
    · exact hentries.values entry hmem
    · rw [List.mem_singleton.1 hmem]
      exact hx

theorem Distinct.filter {entries : List (String × α)} (hentries : Distinct P entries)
    (p : String × α → Bool) : Distinct P (entries.filter p) :=
  ⟨hentries.keys.sublist (List.filter_sublist.map Prod.fst),
    fun entry hmem => hentries.values entry ((List.mem_filter.1 hmem).1)⟩

end Distinct

/-- A run over a list ends with what each of its steps keeps. -/
theorem foldlM_keeps {α β : Type} {P : β → Prop} {f : β → α → Option β} {items : List α}
    (hstep : ∀ item ∈ items, ∀ before after, P before → f before item = some after → P after)
    {start last : β} (hstart : P start) (hrun : items.foldlM f start = some last) : P last := by
  induction items generalizing start with
  | nil => exact Option.some.inj hrun ▸ hstart
  | cons item items ih =>
    obtain ⟨hfirst, hrest⟩ := List.forall_mem_cons.1 hstep
    rw [List.foldlM_cons] at hrun
    obtain ⟨after, hafter, hrun⟩ := Option.bind_eq_some_iff.1 hrun
    exact ih hrest (hfirst start after hstart hafter) hrun

namespace Node

/-! ### Changes -/

/-- A change of entries that names no key twice. -/
def Keeps (f : Entries → Option Entries) : Prop :=
  ∀ entries changed, Distinct Unique entries → f entries = some changed →
    Distinct Unique changed

/-- A change of what a key stands for, if anything, that names no key twice. -/
def KeepsAt (f : Option Node → Option Node) : Prop :=
  ∀ old node, (∀ before, old = some before → before.Unique) → f old = some node → node.Unique

theorem mem_keys_alter {key : String} {f : Option Node → Option Node} {entries changed : Entries}
    (halter : alter key f entries = some changed) {k : String} (hk : k ∈ changed.map Prod.fst) :
    k = key ∨ k ∈ entries.map Prod.fst := by
  induction entries generalizing changed with
  | nil =>
    obtain ⟨node, -, rfl⟩ := Option.map_eq_some_iff.1 halter
    exact .inl (by simpa using hk)
  | cons entry entries ih =>
    obtain ⟨first, old⟩ := entry
    rw [alter] at halter
    split at halter
    · obtain ⟨node, -, rfl⟩ := Option.map_eq_some_iff.1 halter
      exact .inr hk
    · obtain ⟨rest, hrest, rfl⟩ := Option.map_eq_some_iff.1 halter
      rcases List.mem_cons.1 hk with rfl | hk
      · exact .inr List.mem_cons_self
      · exact (ih hrest hk).imp_right (List.mem_cons_of_mem _)

theorem keeps_alter {f : Option Node → Option Node} (hf : KeepsAt f) (key : String) :
    Keeps (alter key f) := by
  intro entries changed hentries halter
  induction entries generalizing changed with
  | nil =>
    obtain ⟨node, hnode, rfl⟩ := Option.map_eq_some_iff.1 halter
    have hunique := hf none node (fun _ hnone => nomatch hnone) hnode
    exact distinct_cons_iff.2 ⟨List.not_mem_nil, hunique, distinct_nil⟩
  | cons entry entries ih =>
    obtain ⟨first, old⟩ := entry
    obtain ⟨hfirst, hold, hentries⟩ := distinct_cons_iff.1 hentries
    rw [alter] at halter
    split at halter
    · obtain ⟨node, hnode, rfl⟩ := Option.map_eq_some_iff.1 halter
      have hunique := hf (some old) node (fun _ hsame => Option.some.inj hsame ▸ hold) hnode
      exact distinct_cons_iff.2 ⟨hfirst, hunique, hentries⟩
    · next hne =>
      obtain ⟨rest, hrest, rfl⟩ := Option.map_eq_some_iff.1 halter
      refine distinct_cons_iff.2 ⟨fun hmem => ?_, hold, ih rest hentries hrest⟩
      rcases mem_keys_alter hrest hmem with hsame | hmem
      · exact hne hsame
      · exact hfirst hmem

theorem Keeps.alterLast {f : Entries → Option Entries} (hf : Keeps f)
    {tables changed : List Entries} (htables : ∀ entries ∈ tables, Distinct Unique entries)
    (halter : Node.alterLast f tables = some changed) :
    ∀ entries ∈ changed, Distinct Unique entries := by
  rcases List.eq_nil_or_concat tables with rfl | ⟨front, last, rfl⟩
  · exact nomatch halter
  · rw [List.concat_eq_append] at htables halter
    rw [alterLast_append] at halter
    obtain ⟨after, hafter, rfl⟩ := Option.map_eq_some_iff.1 halter
    intro entries hmem
    rcases List.mem_append.1 hmem with hmem | hmem
    · exact htables entries (List.mem_append_left _ hmem)
    · rw [List.mem_singleton.1 hmem]
      exact hf last after (htables last (by simp)) hafter

section Inside

variable {f : Entries → Option Entries}

theorem Keeps.table (hf : Keeps f) {origin : Origin} {inner : Entries} {node : Node}
    (hinner : Distinct Unique inner) (hnode : (f inner).map (.table origin) = some node) :
    node.Unique := by
  obtain ⟨changed, hchanged, rfl⟩ := Option.map_eq_some_iff.1 hnode
  exact unique_table_iff.2 (hf inner changed hinner hchanged)

theorem Keeps.elements (hf : Keeps f) {tables : List Entries} {node : Node}
    (htables : ∀ entries ∈ tables, Distinct Unique entries)
    (hnode : (Node.alterLast f tables).map .elements = some node) : node.Unique := by
  obtain ⟨changed, hchanged, rfl⟩ := Option.map_eq_some_iff.1 hnode
  exact unique_elements_iff.2 (hf.alterLast htables hchanged)

theorem keepsAt_into (hf : Keeps f) : KeepsAt (into f) := by
  intro old node hold hnode
  rcases old with _ | v | ⟨origin, inner⟩ | tables
  · exact hf.table distinct_nil hnode
  · exact nomatch hnode
  · exact hf.table (unique_table_iff.1 (hold _ rfl)) hnode
  · exact hf.elements (unique_elements_iff.1 (hold _ rfl)) hnode

end Inside

/-! ### Values under paths -/

theorem keeps_addPath (name : String) {v : Value} (hv : v.Unique) (parents : List String) :
    Keeps (addPath name v parents) := by
  induction parents with
  | nil =>
    refine keeps_alter (fun old node hold hnode => ?_) name
    cases old with
    | none => exact Option.some.inj hnode ▸ .value hv
    | some before => exact nomatch hnode
  | cons parent parents ih =>
    refine keeps_alter (fun old node hold hnode => ?_) parent
    rcases old with _ | value | ⟨origin, inner⟩ | tables
    · exact ih.table distinct_nil hnode
    · exact nomatch hnode
    · have hinner := unique_table_iff.1 (hold _ rfl)
      cases origin with
      | heading => exact nomatch hnode
      | passed =>
        simp only at hnode
        split at hnode
        · exact nomatch hnode
        · exact ih.table hinner hnode
      | dotted => exact ih.table hinner hnode
    · simp only at hnode
      split at hnode
      · exact nomatch hnode
      · exact ih.elements (unique_elements_iff.1 (hold _ rfl)) hnode

theorem keeps_addPairs {pairs : List Pair} (hpairs : ∀ p ∈ pairs, p.2.Unique) :
    Keeps (addPairs pairs) := fun _ _ hentries hadd =>
  foldlM_keeps
    (fun p hp before after => keeps_addPath p.1.name (hpairs p hp) p.1.parents before after)
    hentries hadd

/-! ### Headings -/

theorem keeps_enter {f : Entries → Option Entries} (hf : Keeps f) (parents : List String) :
    Keeps (enter f parents) := by
  induction parents with
  | nil => exact hf
  | cons parent parents ih =>
    rw [enter_cons]
    exact keeps_alter (keepsAt_into ih) parent

theorem keeps_addTable (path : Path) {pairs : List Pair} (hpairs : ∀ p ∈ pairs, p.2.Unique) :
    Keeps (addTable path pairs) := by
  refine keeps_enter (fun entries changed hentries hadd => ?_) path.parents
  split at hadd
  · next hnone =>
    obtain ⟨inner, hinner, rfl⟩ := Option.map_eq_some_iff.1 hadd
    have hunique := keeps_addPairs hpairs [] inner distinct_nil hinner
    refine hentries.concat (fun hmem => ?_) (unique_table_iff.2 hunique)
    obtain ⟨entry, hentry, hname⟩ := List.mem_map.1 hmem
    rw [List.lookup_eq_none_iff] at hnone
    exact bne_iff_ne.1 (hnone entry hentry) hname.symm
  · next passed hpassed =>
    obtain ⟨inner, hinner, rfl⟩ := Option.map_eq_some_iff.1 hadd
    obtain ⟨front, back, hsplit, -⟩ := List.lookup_eq_some_iff.1 hpassed
    have hbefore := hentries.values (path.name, .table .passed passed) (by rw [hsplit]; simp)
    have hunique := keeps_addPairs hpairs passed inner (unique_table_iff.1 hbefore) hinner
    refine (hentries.filter _).concat (fun hmem => ?_) (unique_table_iff.2 hunique)
    obtain ⟨entry, hentry, hname⟩ := List.mem_map.1 hmem
    rw [List.mem_filter] at hentry
    exact of_decide_eq_true hentry.2 hname
  · exact nomatch hadd

theorem keeps_addElement (path : Path) {pairs : List Pair} (hpairs : ∀ p ∈ pairs, p.2.Unique) :
    Keeps (addElement path pairs) := by
  refine keeps_enter (keeps_alter (fun old node hold hnode => ?_) path.name) path.parents
  rcases old with _ | value | ⟨origin, inner⟩ | tables
  · obtain ⟨inner, hinner, rfl⟩ := Option.map_eq_some_iff.1 hnode
    have hunique := keeps_addPairs hpairs [] inner distinct_nil hinner
    exact unique_elements_iff.2 (by simpa using hunique)
  · exact nomatch hnode
  · exact nomatch hnode
  · obtain ⟨inner, hinner, rfl⟩ := Option.map_eq_some_iff.1 hnode
    have hunique := keeps_addPairs hpairs [] inner distinct_nil hinner
    refine unique_elements_iff.2 fun entries hmem => ?_
    rcases List.mem_append.1 hmem with hmem | hmem
    · exact unique_elements_iff.1 (hold _ rfl) entries hmem
    · rw [List.mem_singleton.1 hmem]
      exact hunique

/-! ### Finished tables -/

theorem keys_toTable (entries : Entries) :
    (toTable entries).map Prod.fst = entries.map Prod.fst := by
  induction entries with
  | nil => rw [toTable]; rfl
  | cons entry entries ih =>
    obtain ⟨key, node⟩ := entry
    rw [toTable, List.map_cons, List.map_cons, ih]

mutual

theorem unique_toValue : ∀ node : Node, node.Unique → node.toValue.Unique
  | .value v, hnode => by
    cases hnode with
    | value hv => rw [toValue]; exact hv
  | .table _ entries, hnode => by
    rw [toValue]
    have hentries := unique_table_iff.1 hnode
    refine .table ?_ (unique_toTable entries hentries.values)
    rw [keys_toTable]
    exact hentries.keys
  | .elements tables, hnode => by
    rw [toValue]
    exact Value.unique_elements_iff.2 (distinct_toTables tables (unique_elements_iff.1 hnode))

theorem unique_toTable : ∀ entries : List (String × Node),
    (∀ entry ∈ entries, entry.2.Unique) → ∀ entry ∈ toTable entries, entry.2.Unique
  | [], _ => by
    rw [toTable]
    exact List.forall_mem_nil _
  | (key, node) :: rest, hentries => by
    obtain ⟨hnode, hrest⟩ := List.forall_mem_cons.1 hentries
    rw [toTable]
    exact List.forall_mem_cons.2 ⟨unique_toValue node hnode, unique_toTable rest hrest⟩

theorem distinct_toTables : ∀ tables : List (List (String × Node)),
    (∀ entries ∈ tables, Distinct Unique entries) →
      ∀ entries ∈ toTables tables, Distinct Value.Unique entries
  | [], _ => by
    rw [toTables]
    exact List.forall_mem_nil _
  | entries :: rest, htables => by
    obtain ⟨hentries, hrest⟩ := List.forall_mem_cons.1 htables
    rw [toTables]
    refine List.forall_mem_cons.2 ⟨⟨?_, unique_toTable entries hentries.values⟩,
      distinct_toTables rest hrest⟩
    rw [keys_toTable]
    exact hentries.keys

end

theorem distinct_toTable {entries : Entries} (hentries : Distinct Unique entries) :
    Distinct Value.Unique (toTable entries) :=
  Value.unique_table_iff.1 (unique_toValue (.table .heading entries)
    (unique_table_iff.2 hentries))

end Node

/-! ### Values in texts -/

theorem exists_of_map_fst {α β σ : Type} {f : α → β} {read : Option (α × σ)} {b : β} {rest : σ}
    (hmap : read.map (fun (a, rest) => (f a, rest)) = some (b, rest)) :
    ∃ a, read = some (a, rest) ∧ b = f a := by
  obtain ⟨⟨a, _⟩, hread, hsame⟩ := Option.map_eq_some_iff.1 hmap
  obtain ⟨rfl, rfl⟩ := Prod.mk.inj hsame
  exact ⟨a, hread, rfl⟩

/-- A reader of values that only gives values without repeated keys. -/
def GivesUnique (value : List Char → Option (Value × List Char)) : Prop :=
  ∀ cs v rest, value cs = some (v, rest) → v.Unique

theorem unique_scalar? {word : List Char} {v : Value} (hscalar : scalar? word = some v) :
    v.Unique := by
  rw [scalar?] at hscalar
  split at hscalar
  · exact Option.some.inj hscalar ▸ .boolean true
  · split at hscalar
    · exact Option.some.inj hscalar ▸ .boolean false
    · split at hscalar
      · exact Option.some.inj hscalar ▸ .integer _
      · split at hscalar
        · exact Option.some.inj hscalar ▸ .float _
        · split at hscalar
          · exact Option.some.inj hscalar ▸ .datetime _
          · exact nomatch hscalar

theorem givesUnique_word? : GivesUnique word? := by
  intro cs v rest hword
  simp only [word?] at hword
  split at hword
  · rw [Option.some.injEq, Prod.mk.injEq] at hword
    exact hword.1 ▸ .datetime _
  · obtain ⟨v', hv', hsame⟩ := Option.map_eq_some_iff.1 hword
    rw [Prod.mk.injEq] at hsame
    exact hsame.1 ▸ unique_scalar? hv'

theorem givesUnique_leaf? : GivesUnique leaf? := by
  intro cs v rest hleaf
  rw [leaf?] at hleaf
  split at hleaf
  · obtain ⟨s, -, rfl⟩ := exists_of_map_fst hleaf
    exact .string s
  · exact givesUnique_word? cs v rest hleaf

theorem unique_items? {value : List Char → Option (Value × List Char)} (hvalue : GivesUnique value)
    {fuel : Nat} {cs rest : List Char} {vs : List Value}
    (hitems : items? value fuel cs = some (vs, rest)) : ∀ v ∈ vs, v.Unique := by
  induction fuel generalizing cs rest vs with
  | zero => exact nomatch hitems
  | succ fuel ih =>
    rw [items?] at hitems
    split at hitems
    · rw [Option.some.injEq, Prod.mk.injEq] at hitems
      exact hitems.1 ▸ List.forall_mem_nil _
    · split at hitems
      · exact nomatch hitems
      · next v after hv =>
        split at hitems
        · obtain ⟨ws, hws, rfl⟩ := exists_of_map_fst hitems
          exact List.forall_mem_cons.2 ⟨hvalue _ v after hv, ih hws⟩
        · rw [Option.some.injEq, Prod.mk.injEq] at hitems
          exact hitems.1 ▸ List.forall_mem_singleton.2 (hvalue _ v after hv)
        · exact nomatch hitems

theorem unique_pair? {value : List Char → Option (Value × List Char)} (hvalue : GivesUnique value)
    {cs rest : List Char} {p : Pair} (hpair : pair? value cs = some (p, rest)) : p.2.Unique := by
  rw [pair?] at hpair
  split at hpair
  · obtain ⟨v, hv, rfl⟩ := exists_of_map_fst hpair
    exact hvalue _ v rest hv
  · exact nomatch hpair

theorem unique_pairs? {value : List Char → Option (Value × List Char)} (hvalue : GivesUnique value)
    {fuel : Nat} {cs rest : List Char} {ps : List Pair}
    (hpairs : pairs? value fuel cs = some (ps, rest)) : ∀ p ∈ ps, p.2.Unique := by
  induction fuel generalizing cs rest ps with
  | zero => exact nomatch hpairs
  | succ fuel ih =>
    rw [pairs?] at hpairs
    split at hpairs
    · exact nomatch hpairs
    · next p after hp =>
      split at hpairs
      · obtain ⟨qs, hqs, rfl⟩ := exists_of_map_fst hpairs
        exact List.forall_mem_cons.2 ⟨unique_pair? hvalue hp, ih hqs⟩
      · rw [Option.some.injEq, Prod.mk.injEq] at hpairs
        exact hpairs.1 ▸ List.forall_mem_singleton.2 (unique_pair? hvalue hp)
      · exact nomatch hpairs

theorem unique_inlineTable? {ps : List Pair} (hps : ∀ p ∈ ps, p.2.Unique) {v : Value}
    (htable : inlineTable? ps = some v) : v.Unique := by
  obtain ⟨entries, hentries, rfl⟩ := Option.map_eq_some_iff.1 htable
  have hdistinct := Node.keeps_addPairs hps [] entries distinct_nil hentries
  exact Value.unique_table_iff.2 (Node.distinct_toTable hdistinct)

theorem givesUnique_value? (depth : Nat) : GivesUnique (value? depth) := by
  induction depth with
  | zero => exact givesUnique_leaf?
  | succ depth ih =>
    intro cs v rest hvalue
    unfold value? at hvalue
    split at hvalue
    · obtain ⟨vs, hvs, rfl⟩ := exists_of_map_fst hvalue
      exact .array (unique_items? ih hvs)
    · split at hvalue
      · rw [Option.some.injEq, Prod.mk.injEq] at hvalue
        exact hvalue.1 ▸ Value.unique_table_iff.2 distinct_nil
      · split at hvalue
        · next hps =>
          obtain ⟨w, hw, hsame⟩ := Option.map_eq_some_iff.1 hvalue
          rw [Prod.mk.injEq] at hsame
          exact hsame.1 ▸ unique_inlineTable? (unique_pairs? ih hps) hw
        · exact nomatch hvalue
    · exact givesUnique_leaf? _ v rest hvalue

/-! ### Documents -/

/-- The value on a line, if there is one, repeats no key. -/
def Line.Unique : Line → Prop
  | .pair p => p.2.Unique
  | .heading _ => True

theorem unique_line? {cs rest : List Char} {line : Line} (hline : line? cs = some (line, rest)) :
    line.Unique := by
  rw [line?] at hline
  split at hline
  · obtain ⟨h, -, rfl⟩ := exists_of_map_fst hline
    trivial
  · obtain ⟨p, hp, rfl⟩ := exists_of_map_fst hline
    exact unique_pair? (givesUnique_value? _) hp

theorem unique_lines? {fuel : Nat} {cs : List Char} {lines : List Line}
    (hlines : lines? fuel cs = some lines) : ∀ line ∈ lines, line.Unique := by
  induction fuel generalizing cs lines with
  | zero => exact nomatch hlines
  | succ fuel ih =>
    rw [lines?] at hlines
    split at hlines
    · exact Option.some.inj hlines ▸ List.forall_mem_nil _
    · split at hlines
      · obtain ⟨after, -, hrest⟩ := Option.bind_eq_some_iff.1 hlines
        exact ih hrest
      · split at hlines
        · exact nomatch hlines
        · next line after hline =>
          obtain ⟨more, hmore, rfl⟩ := Option.map_eq_some_iff.1 hlines
          obtain ⟨_, -, hrest⟩ := Option.bind_eq_some_iff.1 hmore
          exact List.forall_mem_cons.2 ⟨unique_line? hline, ih hrest⟩

namespace Document

theorem unique_ofLines {lines : List Line} (hlines : ∀ line ∈ lines, line.Unique) :
    (∀ p ∈ (ofLines lines).pairs, p.2.Unique) ∧
      ∀ s ∈ (ofLines lines).sections, ∀ p ∈ s.pairs, p.2.Unique := by
  induction lines with
  | nil =>
    rw [ofLines]
    exact ⟨List.forall_mem_nil _, List.forall_mem_nil _⟩
  | cons line lines ih =>
    obtain ⟨hline, hlines⟩ := List.forall_mem_cons.1 hlines
    obtain ⟨hpairs, hsections⟩ := ih hlines
    cases line with
    | pair p =>
      rw [ofLines]
      exact ⟨List.forall_mem_cons.2 ⟨hline, hpairs⟩, hsections⟩
    | heading h =>
      rw [ofLines]
      exact ⟨List.forall_mem_nil _, List.forall_mem_cons.2 ⟨hpairs, hsections⟩⟩

theorem distinct_toTable? {d : Document} (hpairs : ∀ p ∈ d.pairs, p.2.Unique)
    (hsections : ∀ s ∈ d.sections, ∀ p ∈ s.pairs, p.2.Unique) {table : Table}
    (htable : d.toTable? = some table) : Distinct Value.Unique table := by
  rw [toTable?_eq] at htable
  obtain ⟨entries, hentries, rfl⟩ := Option.map_eq_some_iff.1 htable
  obtain ⟨root, hroot, hentries⟩ := Option.bind_eq_some_iff.1 hentries
  refine Node.distinct_toTable (foldlM_keeps (fun s hs before after hbefore hafter => ?_)
    (Node.keeps_addPairs hpairs [] root distinct_nil hroot) hentries)
  rw [Node.addSection] at hafter
  split at hafter
  · exact Node.keeps_addTable _ (hsections s hs) before after hbefore hafter
  · exact Node.keeps_addElement _ (hsections s hs) before after hbefore hafter

end Document

/-- In a table that is read from a text, and in all tables inside it, no key stands twice. -/
theorem readTable?_distinct {text : String} {table : Table}
    (hread : readTable? text = some table) : Distinct Value.Unique table := by
  obtain ⟨d, hd, htable⟩ := Option.bind_eq_some_iff.1 hread
  obtain ⟨lines, hlines, rfl⟩ := Option.map_eq_some_iff.1 hd
  obtain ⟨hpairs, hsections⟩ := Document.unique_ofLines (unique_lines? hlines)
  exact Document.distinct_toTable? hpairs hsections htable

end LSystem.Toml
