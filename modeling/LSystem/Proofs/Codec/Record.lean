import LSystem.Codec.Record
import LSystem.Proofs.Codec.RoundTrip

/-!
# The layout of records

A record is decoded entry by entry, in the order of the table. Where no key stands twice, the order
matters for nothing but the fault that is reported first: each field sets a part of the record of
its own, so if the table is decoded at all, it is decoded alike in every order (`ofTable_of_perm`).
Keys that are no field change nothing (`ofTable_filter_names`). A missing entry leaves the field as
it was at the start (`ofTable_without_cons`), which a pairing refuses (`Pairing.ofTable_without`).
-/

namespace LSystem.Codec

open Toml (Value Table)

theorem exists_of_bind_eq_ok {α β ε : Type} {first : Except ε α} {next : α → Except ε β} {b : β}
    (hbind : first >>= next = .ok b) : ∃ a, first = .ok a ∧ next a = .ok b := by
  cases first with
  | error e => exact nomatch hbind
  | ok a => exact ⟨a, rfl, hbind⟩

/-- A step may be exchanged for another one that does not fail where the first did not. -/
theorem bind_eq_ok_of_imp {α β ε : Type} {first second : Except ε α} {next : α → Except ε β} {b : β}
    (himp : ∀ a, first = .ok a → second = .ok a) (hbind : first >>= next = .ok b) :
    second >>= next = .ok b := by
  obtain ⟨a, ha, hb⟩ := exists_of_bind_eq_ok hbind
  rw [himp a ha]
  exact hb

/-- The entries of a table without those with the given keys. -/
def without (keys : List String) (entries : Table) : Table :=
  entries.filter fun entry => entry.1 ∉ keys

/-- The second table has the entries of the first, in any order, and further ones whose keys are not
known. -/
def Wider (known : List String) (entries wide : Table) : Prop :=
  ∃ further : Table, (∀ entry ∈ further, entry.1 ∉ known) ∧ wide.Perm (entries ++ further)

theorem without_cons (keys : List String) (key : String) (v : Value) (rest : Table) :
    without keys ((key, v) :: rest) =
      if key ∈ keys then without keys rest else (key, v) :: without keys rest := by
  rw [without, List.filter_cons]
  by_cases hkey : key ∈ keys <;> simp [hkey, without]

theorem mem_of_mem_without {keys : List String} {entries : Table} {entry : String × Value}
    (hmem : entry ∈ without keys entries) : entry ∈ entries := (List.mem_filter.1 hmem).1

theorem nodup_keys_without {entries : Table} (hkeys : (entries.map Prod.fst).Nodup)
    (keys : List String) : ((without keys entries).map Prod.fst).Nodup :=
  hkeys.sublist (List.filter_sublist.map Prod.fst)

namespace Fields

variable {ρ : Type}

def names (fields : Fields ρ) : List String := fields.map Prod.fst

/-- Decodes one entry. -/
def enter (fields : Fields ρ) (record : ρ) (entry : String × Value) : Except ShapeFault ρ :=
  match fields.lookup entry.1 with
  | some decode => decode record entry.2
  | none => .ok record

variable {fields : Fields ρ} {start done : ρ} {entries : Table}

theorem ofTable_cons (fields : Fields ρ) (start : ρ) (entry : String × Value) (rest : Table) :
    fields.ofTable start (entry :: rest) =
      fields.enter start entry >>= fun record => fields.ofTable record rest := by
  rw [ofTable, List.foldlM_cons]
  rfl

theorem enter_of_not_mem {entry : String × Value} (hunknown : entry.1 ∉ fields.names)
    (record : ρ) : fields.enter record entry = .ok record := by
  have hnone : fields.lookup entry.1 = none := by
    rw [List.lookup_eq_none_iff]
    intro field hmem
    exact bne_iff_ne.2 fun hsame => hunknown (List.mem_map.2 ⟨field, hmem, hsame.symm⟩)
  rw [enter, hnone]

/-- Entries whose keys are no field are skipped. -/
theorem ofTable_filter_names (fields : Fields ρ) (start : ρ) (entries : Table) :
    fields.ofTable start (entries.filter fun entry => entry.1 ∈ fields.names) =
      fields.ofTable start entries := by
  induction entries generalizing start with
  | nil => rfl
  | cons entry entries ih =>
    rw [List.filter_cons, ofTable_cons]
    by_cases hknown : entry.1 ∈ fields.names
    · rw [if_pos (decide_eq_true hknown), ofTable_cons]
      congr 1
      funext record
      exact ih record
    · rw [if_neg (by simpa using hknown), enter_of_not_mem hknown, ok_bind, ih]

/-! ### Missing fields -/

/-- A field whose entry is left out keeps the value that it has at the start. -/
theorem ofTable_without_cons {α : Type} {decode : Decoder α} {set : ρ → α → ρ} {key : String}
    (hfield : fields.lookup key = some fun record v => do return set record (← decode v))
    {v : Value} {new old : α} (hdecode : decode v = .ok new) (hold : set start old = start)
    (keys : List String) (rest : Table) :
    fields.ofTable start (without keys ((key, v) :: rest)) =
      fields.ofTable (set start (if key ∈ keys then old else new)) (without keys rest) := by
  rw [without_cons]
  split
  · rw [hold]
  · rw [ofTable_cons, enter, hfield]
    simp only [hdecode, ok_bind]
    rfl

/-! ### Order -/

/-- The two decoders can take turns. -/
def Commute (first second : ρ → Decoder ρ) : Prop :=
  ∀ record done v w, (first record v >>= fun between => second between w) = .ok done →
    (second record w >>= fun between => first between v) = .ok done

/-- No field has an influence on what another one is decoded to. -/
def Independent (fields : Fields ρ) : Prop :=
  ∀ first ∈ fields, ∀ second ∈ fields, first.1 ≠ second.1 → Commute first.2 second.2

/-- Decoders that set different parts of a record can take turns. -/
theorem commute_of_set {α β : Type} {decode : Decoder α} {decode' : Decoder β} {set : ρ → α → ρ}
    {set' : ρ → β → ρ} (hset : ∀ record a b, set' (set record a) b = set (set' record b) a) :
    Commute (fun record v => do return set record (← decode v))
      (fun record v => do return set' record (← decode' v)) := by
  intro record done v w hdone
  obtain ⟨between, hfirst, hsecond⟩ := exists_of_bind_eq_ok hdone
  obtain ⟨a, ha, hfirst⟩ := exists_of_bind_eq_ok hfirst
  obtain ⟨b, hb, hsecond⟩ := exists_of_bind_eq_ok hsecond
  obtain rfl := Except.ok.inj hfirst
  obtain rfl := Except.ok.inj hsecond
  simp only [ha, hb, ok_bind, hset]
  rfl

theorem enter_comm (hfields : fields.Independent) {first second : String × Value}
    (hne : first.1 ≠ second.1)
    (hdone : (fields.enter start first >>= fun record => fields.enter record second) = .ok done) :
    (fields.enter start second >>= fun record => fields.enter record first) = .ok done := by
  have hmem : ∀ {key decode}, fields.lookup key = some decode → (key, decode) ∈ fields := by
    intro key decode hlookup
    obtain ⟨front, back, hsplit, -⟩ := List.lookup_eq_some_iff.1 hlookup
    rw [hsplit]
    exact List.mem_append_right front List.mem_cons_self
  simp only [enter] at hdone ⊢
  cases hfirst : fields.lookup first.1 with
  | none =>
    simp only [hfirst, ok_bind] at hdone ⊢
    rw [hdone, ok_bind]
  | some decode =>
    cases hsecond : fields.lookup second.1 with
    | none =>
      simp only [hfirst, hsecond] at hdone ⊢
      obtain ⟨record, hrecord, hsame⟩ := exists_of_bind_eq_ok hdone
      rw [ok_bind, hrecord, hsame]
    | some decode' =>
      simp only [hfirst, hsecond] at hdone ⊢
      exact hfields _ (hmem hfirst) _ (hmem hsecond) hne _ _ _ _ hdone

/-- A table that is decoded is decoded alike in every order. -/
theorem ofTable_of_perm (hfields : fields.Independent) {other : Table} (hperm : entries.Perm other)
    (hkeys : (entries.map Prod.fst).Nodup) (hread : fields.ofTable start entries = .ok done) :
    fields.ofTable start other = .ok done := by
  induction hperm generalizing start with
  | nil => exact hread
  | cons entry _ ih =>
    rw [ofTable_cons] at hread ⊢
    obtain ⟨record, hentry, hrest⟩ := exists_of_bind_eq_ok hread
    rw [hentry, ok_bind]
    exact ih (List.nodup_cons.1 hkeys).2 hrest
  | swap first second rest =>
    have hne : second.1 ≠ first.1 := fun hsame =>
      (List.nodup_cons.1 hkeys).1 (hsame ▸ List.mem_cons_self)
    simp only [ofTable_cons, ← bind_assoc] at hread ⊢
    obtain ⟨record, hboth, hrest⟩ := exists_of_bind_eq_ok hread
    rw [enter_comm hfields hne hboth, ok_bind, hrest]
  | trans hperm _ ih ih' => exact ih' ((hperm.map Prod.fst).nodup_iff.1 hkeys) (ih hkeys hread)

/-- Neither another order nor further keys that are no field change what a table is decoded to. -/
theorem ofTable_of_wider (hfields : fields.Independent) {wide : Table}
    (hwide : Wider fields.names entries wide) (hkeys : (entries.map Prod.fst).Nodup)
    (hread : fields.ofTable start entries = .ok done) : fields.ofTable start wide = .ok done := by
  obtain ⟨further, hfurther, hperm⟩ := hwide
  have hnone : (further.filter fun entry => entry.1 ∈ fields.names) = [] := by
    simpa [List.filter_eq_nil_iff] using hfurther
  have hknown := hperm.filter fun entry => entry.1 ∈ fields.names
  rw [List.filter_append, hnone, List.append_nil] at hknown
  rw [← ofTable_filter_names] at hread ⊢
  exact ofTable_of_perm hfields hknown.symm (hkeys.sublist (List.filter_sublist.map Prod.fst)) hread

/-- Values may be exchanged for others that are decoded alike. -/
theorem ofTable_of_forall₂ {other : Table}
    (hentries : List.Forall₂ (fun entry entry' => ∀ record done,
      fields.enter record entry = .ok done → fields.enter record entry' = .ok done) entries other)
    (hread : fields.ofTable start entries = .ok done) : fields.ofTable start other = .ok done := by
  induction hentries generalizing start with
  | nil => exact hread
  | cons hentry _ ih =>
    rw [ofTable_cons] at hread ⊢
    obtain ⟨record, hrecord, hrest⟩ := exists_of_bind_eq_ok hread
    rw [hentry start record hrecord, ok_bind]
    exact ih hrest

end Fields

namespace Pairing

variable {α β : Type} {p : Pairing α β}

theorem independent_fields (p : Pairing α β) : p.fields.Independent := by
  intro first hfirst second hsecond hne
  simp only [fields, List.mem_cons, List.not_mem_nil, or_false] at hfirst hsecond
  rcases hfirst with rfl | rfl <;> rcases hsecond with rfl | rfl
  · exact absurd rfl hne
  · exact Fields.commute_of_set fun _ _ _ => rfl
  · exact Fields.commute_of_set fun _ _ _ => rfl
  · exact absurd rfl hne

theorem ofTable_of_wider {entries wide : Table} {pair : α × β} (hwide : Wider p.names entries wide)
    (hkeys : (entries.map Prod.fst).Nodup) (hread : p.ofTable entries = .ok pair) :
    p.ofTable wide = .ok pair :=
  bind_eq_ok_of_imp
    (fun _ hrecord => Fields.ofTable_of_wider p.independent_fields hwide hkeys hrecord) hread

/-- The first field that is missing is reported. -/
theorem ofTable_without (hne : p.firstName ≠ p.secondName) {v w : Value} {a : α} {b : β}
    (ha : p.first v = .ok a) (hb : p.second w = .ok b) (omitted : List String) :
    p.ofTable (without omitted [(p.firstName, v), (p.secondName, w)]) =
      match p.names.find? (· ∈ omitted) with
      | some name => .error (.missingField name)
      | none => .ok (a, b) := by
  have hfirst : p.fields.enter (none, none) (p.firstName, v) = .ok (some a, none) := by
    simp [Fields.enter, fields, ha]
  have hsecond : ∀ first, p.fields.enter (first, none) (p.secondName, w) = .ok (first, some b) := by
    have hother : (p.secondName == p.firstName) = false := beq_false_of_ne hne.symm
    simp [Fields.enter, fields, List.lookup, hother, hb]
  have hrecord : p.fields.ofTable (none, none)
      (without omitted [(p.firstName, v), (p.secondName, w)]) =
        .ok (if p.firstName ∈ omitted then none else some a,
          if p.secondName ∈ omitted then none else some b) := by
    have hnil : ∀ record, p.fields.ofTable record (without omitted []) = .ok record := fun _ => rfl
    by_cases hone : p.firstName ∈ omitted <;> by_cases htwo : p.secondName ∈ omitted <;>
      simp [without_cons, Fields.ofTable_cons, hone, htwo, hfirst, hsecond, hnil]
  rw [ofTable, hrecord, ok_bind]
  by_cases hone : p.firstName ∈ omitted <;> by_cases htwo : p.secondName ∈ omitted <;>
    simp [names, fields, hone, htwo]

end Pairing

end LSystem.Codec
