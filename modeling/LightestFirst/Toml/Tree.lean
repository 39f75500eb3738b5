import LightestFirst.Datum
-- The table that the statements of a TOML document put together. A table knows how it came about,
-- because that decides what may still be added to it.
namespace LightestFirst
namespace Toml

inductive Origin where
  -- named on the way to another table by a header
  | passed
  -- opened by a header of its own
  | opened
  -- made by a key with dots
  | dotted
deriving DecidableEq

inductive Entry where
  | value (value : Datum)
  | table (origin : Origin) (entries : List (String × Entry))
  -- an array of tables, the last one apart and the others from the last to the first
  | tables (last : List (String × Entry)) (before : List (List (String × Entry)))

abbrev Entries := List (String × Entry)

def find? (entries : Entries) (name : String) : Option Entry :=
  (entries.find? (fun entry => entry.1 = name)).map (·.2)

def set (entries : Entries) (name : String) (entry : Entry) : Entries :=
  match entries with
  | [] => [(name, entry)]
  | (key, held) :: rest =>
    if key = name then (name, entry) :: rest else (key, held) :: set rest name entry

def insert (value : Datum) : List String → Entries → Option Entries
  | [], _ => none
  | [name], entries =>
    match find? entries name with
    | none => some (set entries name (.value value))
    | some _ => none
  | name :: path, entries =>
    match find? entries name with
    | none => (insert value path []).map (fun inner => set entries name (.table .dotted inner))
    | some (.table .dotted inner) =>
      (insert value path inner).map (fun inner => set entries name (.table .dotted inner))
    | some _ => none

-- Changes the table that a header path leads to; of an array of tables it is the last one.
def change (update : Entries → Option Entries) : List String → Entries → Option Entries
  | [], entries => update entries
  | name :: path, entries =>
    match find? entries name with
    | some (.table origin inner) =>
      (change update path inner).map (fun inner => set entries name (.table origin inner))
    | some (.tables last before) =>
      (change update path last).map (fun last => set entries name (.tables last before))
    | _ => none

def openTable : List String → Entries → Option Entries
  | [], _ => none
  | [name], entries =>
    match find? entries name with
    | none => some (set entries name (.table .opened []))
    | some (.table .passed inner) => some (set entries name (.table .opened inner))
    | some _ => none
  | name :: path, entries =>
    match find? entries name with
    | none => (openTable path []).map (fun inner => set entries name (.table .passed inner))
    | some (.table origin inner) =>
      (openTable path inner).map (fun inner => set entries name (.table origin inner))
    | some (.tables last before) =>
      (openTable path last).map (fun last => set entries name (.tables last before))
    | some (.value _) => none

-- Opens the next table of an array of tables, which only headers like this can have begun.
def openElement : List String → Entries → Option Entries
  | [], _ => none
  | [name], entries =>
    match find? entries name with
    | none => some (set entries name (.tables [] []))
    | some (.tables last before) => some (set entries name (.tables [] (last :: before)))
    | some _ => none
  | name :: path, entries =>
    match find? entries name with
    | none => (openElement path []).map (fun inner => set entries name (.table .passed inner))
    | some (.table origin inner) =>
      (openElement path inner).map (fun inner => set entries name (.table origin inner))
    | some (.tables last before) =>
      (openElement path last).map (fun last => set entries name (.tables last before))
    | some (.value _) => none

mutual

def Entry.close : Entry → Datum
  | .value value => value
  | .table _ entries => .record (closeAll entries)
  | .tables last before => .list ((.record (closeAll last) :: closeEach before).reverse)

def closeAll : List (String × Entry) → List (String × Datum)
  | [] => []
  | (name, entry) :: rest => (name, entry.close) :: closeAll rest

def closeEach : List (List (String × Entry)) → List Datum
  | [] => []
  | entries :: rest => .record (closeAll entries) :: closeEach rest

end

end Toml
end LightestFirst
