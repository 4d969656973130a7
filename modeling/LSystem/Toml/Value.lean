/-!
# TOML values

A TOML document is a table: a list of keys with their values, in the order of the document. Floats
are double precision floats; a date or a time is kept as its text. An array that is written item by
item and one whose elements are tables under headings are told apart.
-/

namespace LSystem.Toml

/-- What a key of a document can stand for. -/
inductive Value where
  | string (text : String)
  | integer (n : Int)
  | float (x : Float)
  | boolean (b : Bool)
  | datetime (text : String)
  | array (items : List Value)
  | table (entries : List (String × Value))
  /-- The elements of an array of tables, each of which has a heading of its own. -/
  | elements (tables : List (List (String × Value)))

/-- Keys with their values, in the order of the document. -/
abbrev Table := List (String × Value)

namespace Value

/-- The values in an array or an array of tables. -/
def items? : Value → Option (List Value)
  | array items => some items
  | elements tables => some (tables.map table)
  | _ => none

/-- The value for a list of tables. Without headings nothing would be left of an empty list, so that
is an array. -/
def ofTables : List Table → Value
  | [] => array []
  | tables => elements tables

end Value

end LSystem.Toml
