/-!
# Named things

Lists of things under names. A thing is found under the first entry with its name; putting a thing
under a name replaces that entry or adds one at the end.
-/

namespace AssetShell

abbrev Named (α : Type) := List (String × α)

namespace Named

variable {α : Type}

def get? (name : String) : Named α → Option α
  | [] => none
  | (other, a) :: r => if other = name then some a else get? name r

def put (name : String) (a : α) : Named α → Named α
  | [] => [(name, a)]
  | (other, b) :: r => if other = name then (name, a) :: r else (other, b) :: put name a r

/-- Of several entries with one name the last counts. -/
def ofList (entries : List (String × α)) : Named α :=
  entries.foldl (fun l (name, a) => l.put name a) []

theorem get?_put (name other : String) (a : α) (l : Named α) :
    (l.put name a).get? other = if other = name then some a else l.get? other := by
  induction l with
  | nil => simp only [put, get?, eq_comm]
  | cons entry r ih =>
    obtain ⟨found, b⟩ := entry
    simp only [put]
    split
    · rename_i h
      subst h
      by_cases h : other = found
      · simp [get?, h]
      · simp [get?, h, Ne.symm h]
    · rename_i h
      simp only [get?, ih]
      split
      · rename_i ho
        subst ho
        simp [h]
      · rfl

/-- Inserts before the first name that is not smaller. -/
def insertSorted (name : String) (a : α) : Named α → Named α
  | [] => [(name, a)]
  | (other, b) :: r =>
    if other < name then (other, b) :: insertSorted name a r else (name, a) :: (other, b) :: r

/-- The entries in the order of their names, those of one name in their old order. -/
def sorted : Named α → Named α
  | [] => []
  | (name, a) :: r => insertSorted name a (sorted r)

end Named

end AssetShell
