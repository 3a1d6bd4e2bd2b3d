import Shebang.Text

/-!
Maps from names to values that keep the order in which names were first put in. Putting a name again
changes its value and not its place.
-/

namespace Shebang

abbrev OrderedMap (α : Type) := List (Text × α)

namespace OrderedMap

variable {α : Type}

def find? (key : Text) : OrderedMap α → Option α
  | [] => none
  | (k, v) :: rest => if k = key then some v else find? key rest

def contains (m : OrderedMap α) (key : Text) : Bool := (find? key m).isSome

def put (key : Text) (value : α) : OrderedMap α → OrderedMap α
  | [] => [(key, value)]
  | (k, v) :: rest => if k = key then (k, value) :: rest else (k, v) :: put key value rest

def erase (m : OrderedMap α) (key : Text) : OrderedMap α := m.filter fun e => e.1 != key

def keys (m : OrderedMap α) : List Text := m.map Prod.fst

def values (m : OrderedMap α) : List α := m.map Prod.snd

def ofList (entries : List (Text × α)) : OrderedMap α :=
  entries.foldl (fun m e => m.put e.1 e.2) []

theorem keys_put (m : OrderedMap α) (key : Text) (value : α) :
    (m.put key value).keys = if key ∈ m.keys then m.keys else m.keys ++ [key] := by
  induction m with
  | nil => simp [put, keys]
  | cons e rest ih =>
    obtain ⟨k, v⟩ := e
    simp only [keys] at ih
    by_cases h : k = key
    · simp [put, keys, h]
    · have h' : ¬key = k := fun e => h e.symm
      by_cases hm : key ∈ List.map Prod.fst rest <;> simp_all [put, keys]

theorem find?_put (m : OrderedMap α) (key other : Text) (value : α) :
    (m.put key value).find? other = if other = key then some value else m.find? other := by
  induction m with
  | nil => simp [put, find?, eq_comm]
  | cons e rest ih =>
    obtain ⟨k, v⟩ := e
    by_cases h : k = key
    · subst h
      by_cases ho : other = k
      · simp [put, find?, ho]
      · have ho' : ¬k = other := fun e => ho e.symm
        simp [put, find?, ho, ho']
    · by_cases ho : k = other
      · subst ho
        simp [put, find?, h]
      · simp [put, find?, h, ho, ih]

end OrderedMap

end Shebang
