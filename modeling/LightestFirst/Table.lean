-- A table from names to values, as the list of its entries. The first entry of a name is the one
-- that counts; putting a value under a name leaves no other.
namespace LightestFirst

abbrev Table (β : Type) := List (String × β)

namespace Table
variable {β : Type}

def get? (table : Table β) (name : String) : Option β :=
  match table with
  | [] => none
  | (key, value) :: rest => if key = name then some value else get? rest name

def erase (table : Table β) (name : String) : Table β :=
  table.filter (fun entry => entry.1 ≠ name)

def put (table : Table β) (name : String) (value : β) : Table β :=
  (name, value) :: erase table name

@[simp] theorem get?_erase_self (table : Table β) (name : String) :
    get? (erase table name) name = none := by
  induction table with
  | nil => rfl
  | cons entry rest ih =>
    obtain ⟨key, value⟩ := entry
    by_cases same : key = name
    · simpa [erase, same] using ih
    · simpa [erase, get?, same] using ih

theorem get?_erase_of_ne (table : Table β) {name other : String} (different : other ≠ name) :
    get? (erase table name) other = get? table other := by
  induction table with
  | nil => rfl
  | cons entry rest ih =>
    obtain ⟨key, value⟩ := entry
    by_cases same : key = name
    · subst same; simpa [erase, get?, Ne.symm different] using ih
    · have kept : erase ((key, value) :: rest) name = (key, value) :: erase rest name := by
        simp [erase, same]
      rw [kept, get?, get?, ih]

@[simp] theorem get?_put_self (table : Table β) (name : String) (value : β) :
    get? (put table name value) name = some value := by
  simp [put, get?]

theorem get?_put_of_ne (table : Table β) {name other : String} (value : β) (different : other ≠ name) :
    get? (put table name value) other = get? table other := by
  simp [put, get?, Ne.symm different, get?_erase_of_ne table different]

section Found
variable {table : Table β} {name other : String} {value found : β}

theorem get?_of_erase (there : get? (erase table name) other = some found) : get? table other = some found := by
  by_cases same : other = name
  · rw [same, get?_erase_self] at there
    cases there
  · rwa [get?_erase_of_ne table same] at there

theorem get?_of_put (there : get? (put table name value) other = some found) :
    found = value ∨ get? table other = some found := by
  by_cases same : other = name
  · rw [same, get?_put_self] at there
    exact .inl (Option.some.inj there).symm
  · rw [get?_put_of_ne table value same] at there
    exact .inr there

end Found

end Table
end LightestFirst
