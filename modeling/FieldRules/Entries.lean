namespace FieldRules

/-- Named values in the order in which the names first came. -/
abbrev Entries (α : Type) := List (String × α)

namespace Entries

/-! Two ways to take in a further entry: `put` keeps the place of a name that is
already there and gives it the new value, `putSorted` keeps the names in code
point order. `get?` looks a name up. -/

def names (entries : Entries α) : List String := entries.map Prod.fst

def get? (entries : Entries α) (name : String) : Option α :=
  match entries with
  | [] => none
  | (other, value) :: rest => if name = other then some value else get? rest name

def contains (entries : Entries α) (name : String) : Bool :=
  (entries.get? name).isSome

def put (entries : Entries α) (name : String) (value : α) : Entries α :=
  match entries with
  | [] => [(name, value)]
  | (other, old) :: rest =>
      if name = other then (other, value) :: rest
      else (other, old) :: put rest name value

def putAll (entries more : Entries α) : Entries α :=
  more.foldl (fun entries entry => entries.put entry.1 entry.2) entries

/-- A repeated name keeps its first place and its last value. -/
def ofList (pairs : List (String × α)) : Entries α := putAll [] pairs

/-- The names are ordered by code point, which is also the order of their
UTF-8 bytes. -/
def putSorted (entries : Entries α) (name : String) (value : α) : Entries α :=
  match entries with
  | [] => [(name, value)]
  | (other, old) :: rest =>
      if name = other then (name, value) :: rest
      else if name < other then (name, value) :: (other, old) :: rest
      else (other, old) :: putSorted rest name value

/-- A repeated name keeps its last value. -/
def sort (pairs : List (String × α)) : Entries α :=
  pairs.foldl (fun entries entry => putSorted entries entry.1 entry.2) []

def mapValues (f : α → β) (entries : Entries α) : Entries β :=
  entries.map fun entry => (entry.1, f entry.2)

def update (entries : Entries α) (name : String) (f : α → α) : Entries α :=
  entries.map fun entry => if entry.1 = name then (entry.1, f entry.2) else entry

def Distinct (entries : Entries α) : Prop := entries.names.Nodup

@[simp] theorem names_nil : names ([] : Entries α) = [] := rfl

@[simp] theorem names_cons (entry : String × α) (rest : Entries α) :
    names (entry :: rest) = entry.1 :: names rest := rfl

@[simp] theorem get?_nil (name : String) : get? ([] : Entries α) name = none := rfl

@[simp] theorem get?_cons_self (name : String) (value : α) (rest : Entries α) :
    get? ((name, value) :: rest) name = some value := if_pos rfl

@[simp] theorem get?_cons_of_ne {name other : String} (differ : name ≠ other) (value : α)
    (rest : Entries α) : get? ((other, value) :: rest) name = get? rest name := if_neg differ

@[simp] theorem put_nil (name : String) (value : α) :
    put ([] : Entries α) name value = [(name, value)] := rfl

@[simp] theorem put_cons_self (name : String) (old value : α) (rest : Entries α) :
    put ((name, old) :: rest) name value = (name, value) :: rest := if_pos rfl

@[simp] theorem put_cons_of_ne {name other : String} (differ : name ≠ other) (old value : α)
    (rest : Entries α) :
    put ((other, old) :: rest) name value = (other, old) :: put rest name value := if_neg differ

@[simp] theorem mapValues_nil (f : α → β) : mapValues f [] = [] := rfl

@[simp] theorem mapValues_cons (f : α → β) (entry : String × α) (rest : Entries α) :
    mapValues f (entry :: rest) = (entry.1, f entry.2) :: mapValues f rest := rfl

theorem get?_put (entries : Entries α) (name other : String) (value : α) :
    (entries.put name value).get? other =
      if other = name then some value else entries.get? other := by
  induction entries with
  | nil => rfl
  | cons entry rest ih =>
      obtain ⟨key, old⟩ := entry
      by_cases same : name = key
      · subst same
        rw [put_cons_self, get?]
        split
        · rfl
        · next differ => rw [get?_cons_of_ne differ]
      · rw [put_cons_of_ne same, get?, ih]
        split
        · next isKey =>
            subst isKey
            simp [Ne.symm same]
        · next differ => rw [get?_cons_of_ne differ]

theorem names_put (entries : Entries α) (name : String) (value : α) :
    (entries.put name value).names =
      if name ∈ entries.names then entries.names else entries.names ++ [name] := by
  induction entries with
  | nil => simp
  | cons entry rest ih =>
      obtain ⟨key, old⟩ := entry
      by_cases same : name = key
      · subst same
        simp
      · simp only [put_cons_of_ne same, names_cons, ih, List.mem_cons, same, false_or]
        split
        · rfl
        · rfl

theorem Distinct.put {entries : Entries α} (distinct : entries.Distinct)
    (name : String) (value : α) : (entries.put name value).Distinct := by
  unfold Distinct at *
  rw [names_put]
  split
  · exact distinct
  · next absent =>
      rw [List.nodup_append]
      refine ⟨distinct, by simp, ?_⟩
      intro a ha b hb
      simp only [List.mem_singleton] at hb
      subst hb
      exact fun equal => absent (equal ▸ ha)

end Entries

end FieldRules
