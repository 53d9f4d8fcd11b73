/-!
Tables from names to values, in the order in which the names came. A name that
is already there is never entered a second time.
-/

namespace Turnstile

structure Index (α : Type) where
  entries : List (String × α) := []

namespace Index

def find? (index : Index α) (name : String) : Option α := index.entries.lookup name

def contains (index : Index α) (name : String) : Bool := (index.find? name).isSome

def names (index : Index α) : List String := index.entries.map Prod.fst

def size (index : Index α) : Nat := index.entries.length

def insertNew (index : Index α) (name : String) (value : α) : Index α :=
  if index.contains name then index else ⟨index.entries ++ [(name, value)]⟩

def modifyEntries (name : String) (change : α → α) : List (String × α) → List (String × α)
  | [] => []
  | (key, value) :: rest =>
      if key = name then (key, change value) :: rest
      else (key, value) :: modifyEntries name change rest

def modify (index : Index α) (name : String) (change : α → α) : Index α :=
  ⟨modifyEntries name change index.entries⟩

theorem map_fst_modifyEntries (name : String) (change : α → α) (entries : List (String × α)) :
    (modifyEntries name change entries).map Prod.fst = entries.map Prod.fst := by
  induction entries with
  | nil => rfl
  | cons entry rest ih =>
      obtain ⟨key, value⟩ := entry
      simp only [modifyEntries]
      split
      · rfl
      · simp only [List.map_cons, ih]

@[simp] theorem names_modify (index : Index α) (name : String) (change : α → α) :
    (index.modify name change).names = index.names :=
  map_fst_modifyEntries name change index.entries

theorem lookup_modifyEntries_self (name : String) (change : α → α)
    (entries : List (String × α)) :
    (modifyEntries name change entries).lookup name = (entries.lookup name).map change := by
  induction entries with
  | nil => rfl
  | cons entry rest ih =>
      obtain ⟨key, value⟩ := entry
      simp only [modifyEntries]
      split
      · rename_i hkey
        subst hkey
        simp
      · rename_i hkey
        have hbeq : (name == key) = false := by
          simpa using fun h : name = key => hkey h.symm
        simp only [List.lookup_cons, hbeq]
        exact ih

theorem lookup_modifyEntries_of_ne {name other : String} (hne : other ≠ name)
    (change : α → α) (entries : List (String × α)) :
    (modifyEntries name change entries).lookup other = entries.lookup other := by
  induction entries with
  | nil => rfl
  | cons entry rest ih =>
      obtain ⟨key, value⟩ := entry
      simp only [modifyEntries]
      split
      · rename_i hkey
        subst hkey
        have hbeq : (other == key) = false := by simpa using hne
        simp [List.lookup_cons, hbeq]
      · simp only [List.lookup_cons]
        split
        · rfl
        · exact ih

@[simp] theorem find?_modify_self (index : Index α) (name : String) (change : α → α) :
    (index.modify name change).find? name = (index.find? name).map change :=
  lookup_modifyEntries_self name change index.entries

theorem find?_modify_of_ne {name other : String} (hne : other ≠ name) (index : Index α)
    (change : α → α) : (index.modify name change).find? other = index.find? other :=
  lookup_modifyEntries_of_ne hne change index.entries

theorem lookup_append (first second : List (String × α)) (name : String) :
    (first ++ second).lookup name = ((first.lookup name).or (second.lookup name)) := by
  induction first with
  | nil => simp
  | cons entry rest ih =>
      obtain ⟨key, value⟩ := entry
      simp only [List.cons_append, List.lookup_cons]
      split
      · rfl
      · exact ih

@[simp] theorem find?_insertNew_self (index : Index α) (name : String) (value : α) :
    (index.insertNew name value).find? name = some ((index.find? name).getD value) := by
  unfold insertNew contains
  cases hfind : index.find? name with
  | some old => simp [hfind]
  | none =>
      simp only [Option.isSome_none, Bool.false_eq_true, ↓reduceIte, Option.getD_none]
      simp only [find?] at hfind ⊢
      rw [lookup_append, hfind]
      simp

theorem find?_insertNew_of_ne {name other : String} (hne : other ≠ name) (index : Index α)
    (value : α) : (index.insertNew name value).find? other = index.find? other := by
  unfold insertNew
  split
  · rfl
  · have hbeq : (other == name) = false := by simpa using hne
    simp only [find?]
    rw [lookup_append]
    simp [List.lookup_cons, hbeq]

end Index

end Turnstile
