import LSystem.Codec.Record
import LSystem.Grammar.Basic

/-!
# Grammars in documents

A grammar is a table from symbols to replacements. All replacements are read before the keys are
looked at, and of the keys that are not one character the smallest is reported, wherever it stands.
-/

namespace LSystem.Codec

open Toml (Table)

def symbol (key : String) : Except ShapeFault Char :=
  match key.toList with
  | [c] => .ok c
  | _ => .error (.ruleKey key)

/-- The words of a table, by increasing key. -/
def words (entries : Table) : Except ShapeFault (SortedMap String String) :=
  return .ofList (← entries.mapM fun entry => return (entry.1, ← text entry.2))

/-- The grammar with the given replacements. -/
def grammarOfWords (words : SortedMap String String) : Except ShapeFault Grammar :=
  return .ofRules (← words.toList.mapM fun entry => return (← symbol entry.1, entry.2))

def grammarOfTable (entries : Table) : Except ShapeFault Grammar := do
  grammarOfWords (← words entries)

def grammar : Decoder Grammar := fun v =>
  match entries? v with
  | some entries => grammarOfTable entries
  | none => invalidType v "a map"

def tableOfGrammar (g : Grammar) : Table :=
  g.toList.map fun rule => (String.singleton rule.1, .string rule.2)

end LSystem.Codec
