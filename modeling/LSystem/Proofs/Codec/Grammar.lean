import LSystem.Proofs.Codec.Record
import LSystem.Proofs.Text.ByteOrder

/-!
# Which tables are grammars

A table of words is a grammar exactly if each of its keys is one character, of however many bytes.
The symbols are then in the order of the keys, so no two entries meet and the grammar is written as
the same words again (`exists_wordsOfGrammar_eq`).

If some key is not one character, the table is refused with the first such key
(`grammarOfWords_eq_error`). The words are looked at by increasing key, not as the document has
them, so the order of the document has no influence on which key that is; and increasing means
increasing in UTF-8, since that is the order of strings.

The main statement is `grammarOfTable_tableOfWords`.
-/

namespace LSystem.Codec

open Toml (Table)

/-! ### Keys -/

theorem exists_singleton_of_length {key : String} (hlength : key.length = 1) :
    ∃ c, String.singleton c = key := by
  rw [← String.length_toList, List.length_eq_one_iff] at hlength
  obtain ⟨c, hc⟩ := hlength
  exact ⟨c, String.toList_injective (by rw [hc, String.toList_singleton])⟩

theorem symbol_of_length_ne_one {key : String} (hlength : key.length ≠ 1) :
    symbol key = .error (.ruleKey key) := by
  rw [symbol]
  split
  · next c hc =>
    rw [← String.length_toList, hc] at hlength
    exact absurd rfl hlength
  · rfl

theorem singleton_lt_iff {left right : Char} :
    String.singleton left < String.singleton right ↔ left < right := by
  refine ⟨fun hlt => ?_, singleton_lt⟩
  rcases lt_trichotomy left right with hless | rfl | hgreater
  · exact hless
  · exact absurd hlt (lt_irrefl _)
  · exact absurd hlt (lt_asymm (singleton_lt hgreater))

/-! ### Tables that are grammars -/

variable {m : SortedMap String String}

/-- Words with keys of one character each are the productions of a grammar. -/
theorem exists_wordsOfGrammar_eq (hkeys : ∀ entry ∈ m.toList, entry.1.length = 1) :
    ∃ g, wordsOfGrammar g = m := by
  let spell : Char × String → String × String := fun rule => (.singleton rule.1, rule.2)
  have hspelled : m.toList ∈ Set.range (List.map spell) := by
    rw [Set.range_list_map]
    intro entry hmem
    obtain ⟨c, hc⟩ := exists_singleton_of_length (hkeys entry hmem)
    exact ⟨(c, entry.2), Prod.ext hc rfl⟩
  obtain ⟨rules, hrules⟩ := hspelled
  have hordered : rules.Pairwise fun a b => a.1 < b.1 := by
    have hwords := m.ordered
    rw [← hrules, List.pairwise_map] at hwords
    exact hwords.imp singleton_lt_iff.1
  exact ⟨⟨⟨rules, hordered⟩⟩, SortedMap.eq_of_toList_eq hrules⟩

theorem rule?_eq_get?_wordsOfGrammar (g : Grammar) (c : Char) :
    g.rule? c = (wordsOfGrammar g).get? (.singleton c) := by
  ext replacement
  rw [Grammar.rule?, SortedMap.get?_eq_some_iff, SortedMap.get?_eq_some_iff, wordsOfGrammar,
    List.mem_map]
  constructor
  · exact fun hmem => ⟨(c, replacement), hmem, rfl⟩
  · rintro ⟨rule, hmem, hrule⟩
    obtain ⟨hkey, rfl⟩ := Prod.mk.inj hrule
    rwa [← String.singleton_inj.1 hkey]

theorem length_of_mem_wordsOfGrammar {g : Grammar} {entry : String × String}
    (hmem : entry ∈ (wordsOfGrammar g).toList) : entry.1.length = 1 := by
  obtain ⟨rule, -, rfl⟩ := List.mem_map.1 hmem
  exact String.length_singleton

/-! ### Order -/

theorem mapM_eq_ok_iff {α β ε : Type} {f : α → Except ε β} {xs : List α} {ys : List β} :
    xs.mapM f = .ok ys ↔ List.Forall₂ (fun x y => f x = .ok y) xs ys := by
  induction xs generalizing ys with
  | nil =>
    rw [List.mapM_nil, List.forall₂_nil_left_iff]
    exact ⟨fun hnil => (Except.ok.inj hnil).symm, fun hnil => congrArg Except.ok hnil.symm⟩
  | cons x xs ih =>
    rw [List.mapM_cons, List.forall₂_cons_left_iff]
    constructor
    · intro hall
      obtain ⟨y, hy, hrest⟩ := exists_of_bind_eq_ok hall
      obtain ⟨zs, hzs, hdone⟩ := exists_of_bind_eq_ok hrest
      exact ⟨y, zs, hy, ih.1 hzs, (Except.ok.inj hdone).symm⟩
    · rintro ⟨y, zs, hy, hzs, rfl⟩
      rw [hy, ok_bind, ih.2 hzs, ok_bind]
      rfl

/-- A grammar does not depend on the order of its table. -/
theorem grammarOfTable_of_perm {entries other : Table} {g : Grammar} (hperm : entries.Perm other)
    (hkeys : (entries.map Prod.fst).Nodup) (hread : grammarOfTable entries = .ok g) :
    grammarOfTable other = .ok g := by
  obtain ⟨m, hwords, hgrammar⟩ := exists_of_bind_eq_ok hread
  obtain ⟨pairs, hpairs, hm⟩ := exists_of_bind_eq_ok hwords
  obtain rfl := Except.ok.inj hm
  rw [mapM_eq_ok_iff] at hpairs
  have hsameKeys : pairs.map Prod.fst = entries.map Prod.fst := by
    rw [← List.forall₂_eq_eq_eq, List.forall₂_map_left_iff, List.forall₂_map_right_iff]
    refine hpairs.flip.imp fun pair entry hpair => ?_
    obtain ⟨word, -, hdone⟩ := exists_of_bind_eq_ok hpair
    rw [← Except.ok.inj hdone]
  obtain ⟨otherPairs, hother, hotherPerm⟩ := List.perm_comp_forall₂ hperm.symm hpairs
  have hsame := SortedMap.ofList_eq_of_perm hotherPerm.symm (by rwa [hsameKeys])
  rw [grammarOfTable, words, mapM_eq_ok_iff.2 hother, ok_bind, ← hsame]
  exact hgrammar

/-! ### Tables that are none -/

theorem mapM_append_eq_error {α β ε : Type} {f : α → Except ε β} {front back : List α} {x : α}
    {e : ε} (hfront : ∀ y ∈ front, ∃ b, f y = .ok b) (hx : f x = .error e) :
    (front ++ x :: back).mapM f = .error e := by
  induction front with
  | nil =>
    rw [List.nil_append, List.mapM_cons, hx]
    rfl
  | cons y front ih =>
    obtain ⟨⟨b, hb⟩, hfront⟩ := List.forall_mem_cons.1 hfront
    rw [List.cons_append, List.mapM_cons, hb, ok_bind, ih hfront]
    rfl

/-- The first key that is not one character is reported. -/
theorem grammarOfWords_eq_error (hbad : ∃ entry ∈ m.toList, entry.1.length ≠ 1) :
    ∃ entry ∈ m.toList, entry.1.length ≠ 1 ∧
      (∀ other ∈ m.toList, other.1.length ≠ 1 → other.1 = entry.1 ∨ entry.1 < other.1) ∧
      grammarOfWords m = .error (.ruleKey entry.1) := by
  have hfound : (m.toList.find? fun entry => entry.1.length != 1).isSome = true := by
    simpa using hbad
  obtain ⟨entry, hentry⟩ := Option.isSome_iff_exists.1 hfound
  obtain ⟨hlength, front, back, hsplit, hfront⟩ := List.find?_eq_some_iff_append.1 hentry
  simp only [bne_iff_ne, Bool.not_eq_true', bne_eq_false_iff_eq] at hlength hfront
  have hordered := m.ordered
  rw [hsplit] at hordered
  refine ⟨entry, by rw [hsplit]; simp, hlength, fun other hmem hother => ?_, ?_⟩
  · rw [hsplit] at hmem
    rcases List.mem_append.1 hmem with hmem | hmem
    · exact absurd (hfront other hmem) hother
    · rcases List.mem_cons.1 hmem with rfl | hmem
      · exact .inl rfl
      · exact .inr (List.rel_of_pairwise_cons (List.pairwise_append.1 hordered).2.1 hmem)
  · rw [grammarOfWords, hsplit, mapM_append_eq_error (e := .ruleKey entry.1)]
    · rfl
    · intro earlier hmem
      obtain ⟨c, hc⟩ := exists_singleton_of_length (hfront earlier hmem)
      rw [← hc, symbol_singleton]
      exact ⟨_, rfl⟩
    · rw [symbol_of_length_ne_one hlength]
      rfl

theorem grammarOfWords_eq_ok_iff {g : Grammar} :
    grammarOfWords m = .ok g ↔ wordsOfGrammar g = m := by
  constructor
  · intro hread
    by_cases hkeys : ∀ entry ∈ m.toList, entry.1.length = 1
    · obtain ⟨h, rfl⟩ := exists_wordsOfGrammar_eq hkeys
      rw [grammarOfWords_wordsOfGrammar] at hread
      rw [Except.ok.inj hread]
    · obtain ⟨entry, hmem, hlength⟩ : ∃ entry ∈ m.toList, entry.1.length ≠ 1 := by
        simpa using hkeys
      obtain ⟨_, -, -, -, herror⟩ := grammarOfWords_eq_error ⟨entry, hmem, hlength⟩
      rw [herror] at hread
      exact nomatch hread
  · rintro rfl
    exact grammarOfWords_wordsOfGrammar g

/-- Words are accepted as a grammar, in whatever order they stand in the document, exactly if each
key is one character. The grammar then replaces each symbol by its word and nothing else, has as
many productions as there are words, and is written as the same words by increasing code point. If
some keys are not one character, the message names the first of them in the order of their bytes.
And every grammar is written as words from which it is read back. -/
theorem grammarOfTable_tableOfWords :
    (∀ (m : SortedMap String String) (entries : List (String × String)),
      entries.Perm m.toList →
        ((∃ g, grammarOfTable (tableOfWords entries) = .ok g) ↔
          ∀ entry ∈ m.toList, entry.1.length = 1) ∧
        (∀ g, grammarOfTable (tableOfWords entries) = .ok g →
          (∀ c, g.rule? c = m.get? (.singleton c)) ∧ g.size = m.size ∧
            tableOfGrammar g = tableOfWords m.toList ∧
            g.toList.Pairwise fun a b => a.1.toNat < b.1.toNat) ∧
        ((∃ entry ∈ m.toList, entry.1.length ≠ 1) →
          ∃ entry ∈ m.toList, entry.1.length ≠ 1 ∧
            (∀ other ∈ m.toList, other.1.length ≠ 1 →
              other.1 = entry.1 ∨ Text.bytes entry.1 < Text.bytes other.1) ∧
            (grammarOfTable (tableOfWords entries)).mapError ShapeFault.message =
              .error s!"rule key {Text.quote entry.1} must be a single character")) ∧
    ∀ g : Grammar, ∃ m : SortedMap String String,
      tableOfGrammar g = tableOfWords m.toList ∧ grammarOfTable (tableOfGrammar g) = .ok g := by
  refine ⟨fun m entries hperm => ?_,
    fun g => ⟨wordsOfGrammar g, tableOfGrammar_eq g, grammarOfTable_tableOfGrammar g⟩⟩
  have hread : grammarOfTable (tableOfWords entries) = grammarOfWords m := by
    rw [grammarOfTable, words_tableOfWords hperm, ok_bind]
  rw [hread]
  refine ⟨⟨?_, fun hkeys => ?_⟩, fun g hg => ?_, fun hbad => ?_⟩
  · rintro ⟨g, hg⟩ entry hmem
    rw [← grammarOfWords_eq_ok_iff.1 hg] at hmem
    exact length_of_mem_wordsOfGrammar hmem
  · obtain ⟨g, hg⟩ := exists_wordsOfGrammar_eq hkeys
    exact ⟨g, grammarOfWords_eq_ok_iff.2 hg⟩
  · obtain rfl := grammarOfWords_eq_ok_iff.1 hg
    have hsize : g.size = (wordsOfGrammar g).size := (List.length_map _).symm
    exact ⟨rule?_eq_get?_wordsOfGrammar g, hsize, tableOfGrammar_eq g, g.rules.ordered⟩
  · obtain ⟨entry, hmem, hlength, hfirst, herror⟩ := grammarOfWords_eq_error hbad
    refine ⟨entry, hmem, hlength, fun other hother hlong => ?_, by rw [herror]; rfl⟩
    exact (hfirst other hother hlong).imp_right Text.bytes_lt_bytes_iff.2

/-- Two keys of one character are accepted in either order. Of three others, which stand in the
document by decreasing bytes, the last is reported; one of them looks like a single character, but
is a letter with an accent behind it. -/
theorem grammarOfTable_tableOfWords_accents :
    let m : SortedMap String String := .ofList [("X", "Xé"), ("é", "")]
    let bad : SortedMap String String :=
      .ofList [("e\u0301", "F"), ("ab", "G"), ("abc", "H"), ("é", "")]
    [("é", ""), ("X", "Xé")].Perm m.toList ∧
      (∃ g, grammarOfTable (tableOfWords [("é", ""), ("X", "Xé")]) = .ok g ∧
        g.rule? 'é' = some "" ∧ g.rule? 'F' = none ∧ g.size = 2) ∧
      [("é", ""), ("e\u0301", "F"), ("abc", "H"), ("ab", "G")].Perm bad.toList ∧
      (grammarOfTable
          (tableOfWords [("é", ""), ("e\u0301", "F"), ("abc", "H"), ("ab", "G")])).mapError
        ShapeFault.message = .error "rule key \"ab\" must be a single character" := by
  intro m bad
  have hperm : [("é", ""), ("X", "Xé")].Perm m.toList := by decide
  have hbadPerm : [("é", ""), ("e\u0301", "F"), ("abc", "H"), ("ab", "G")].Perm bad.toList := by
    decide
  obtain ⟨hiff, hrules, -⟩ := grammarOfTable_tableOfWords.1 m _ hperm
  obtain ⟨g, hg⟩ := hiff.2 (by decide)
  obtain ⟨hrule, hsize, -⟩ := hrules g hg
  obtain ⟨-, -, herror⟩ := grammarOfTable_tableOfWords.1 bad _ hbadPerm
  obtain ⟨entry, hmem, hlength, hfirst, hmessage⟩ := herror ⟨("ab", "G"), by decide, by decide⟩
  have hleast : ∀ entry ∈ bad.toList, ¬Text.bytes entry.1 < Text.bytes "ab" := by decide +kernel
  have hkey := (hfirst ("ab", "G") (by decide) (by decide)).resolve_right (hleast entry hmem)
  have hquote : Text.quote "ab" = "\"ab\"" := by decide +kernel
  rw [← hkey, hquote] at hmessage
  exact ⟨hperm, ⟨g, hg, (hrule 'é').trans (by decide), (hrule 'F').trans (by decide),
    hsize.trans (by decide)⟩, hbadPerm, hmessage⟩

end LSystem.Codec
