import DocPress.Text.Basic

-- The values of a document. A table knows where it came from until the document is complete.

namespace DocPress.Toml

-- How a table came about. It decides who may add to the table.
inductive Origin where
  -- The table has a header of its own, or is the whole document.
  | header
  -- The table was passed through by the header of another one.
  | implied
  -- The table was passed through by a dotted key.
  | dotted
  -- The table stands between braces.
  | inline
  deriving DecidableEq, Repr

-- Floats and dates are kept as they were written.
inductive Value where
  | string (x : Text)
  | integer (n : Int)
  | float (source : Text)
  | boolean (b : Bool)
  | datetime (source : Text)
  | array (items : List Value)
  -- An array whose elements are tables with headers.
  | tables (items : List Value)
  | table (origin : Origin) (entries : List (Text × Value))
  deriving Inhabited, Repr

abbrev Entries := List (Text × Value)

end DocPress.Toml
