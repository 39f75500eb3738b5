-- Data as a file states it, of whatever format: what a grammar is read from. The entries of a
-- record stand in the order of the file. Values that no grammar has a use for are only told apart
-- from those it has.
namespace LightestFirst

inductive Datum where
  | text (value : String)
  | integer (value : Int)
  | other
  | list (elements : List Datum)
  | record (entries : List (String × Datum))

end LightestFirst
