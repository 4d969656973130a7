import LSystem.SortedMap

/-!
# Grammars

A grammar gives some symbols a replacement. Symbols are characters and replacements are words, that
is strings of symbols. A symbol without a production is a terminal: rewriting leaves it as it is.
-/

namespace LSystem

/-- A set of productions, at most one for each symbol. -/
structure Grammar where
  rules : SortedMap Char String
deriving DecidableEq

namespace Grammar

def empty : Grammar := ⟨.empty⟩

instance : Inhabited Grammar := ⟨empty⟩

/-- The grammar with the given productions: of two for one symbol the later counts. -/
def ofRules (rules : List (Char × String)) : Grammar := ⟨.ofList rules⟩

def rule? (g : Grammar) (symbol : Char) : Option String := g.rules.get? symbol

/-- Adds or changes the production of a symbol, and gives the replacement that it had. -/
def setRule (g : Grammar) (symbol : Char) (replacement : String) : Option String × Grammar :=
  let result := g.rules.exchange symbol replacement
  (result.1, ⟨result.2⟩)

def withRule (g : Grammar) (symbol : Char) (replacement : String) : Grammar :=
  (g.setRule symbol replacement).2

/-- Makes a symbol a terminal again, and gives the replacement that it had. -/
def removeRule (g : Grammar) (symbol : Char) : Option String × Grammar :=
  let result := g.rules.extract symbol
  (result.1, ⟨result.2⟩)

def toList (g : Grammar) : List (Char × String) := g.rules.toList

def size (g : Grammar) : Nat := g.rules.size

def isEmpty (g : Grammar) : Bool := g.rules.isEmpty

/-- What one pass makes of a symbol: its replacement, or the symbol itself if it is a terminal. -/
def image (g : Grammar) (symbol : Char) : String := (g.rule? symbol).getD (String.singleton symbol)

end Grammar

end LSystem
