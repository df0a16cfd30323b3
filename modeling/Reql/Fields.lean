/-!
Named fields kept in the order in which the names first appeared.

A JSON object, the members of an object value and the optional arguments of a term are all of this
kind: a list of names with values in which a second value for a name takes the place of the first
one, without moving it.  Only `insert` and `ofList` are used to grow such a list, and they keep the
names apart, so the list is a finite map with a remembered order.
-/

namespace Reql

abbrev Fields (α : Type) := List (String × α)

namespace Fields

variable {α β : Type}

/-- `insert fields name value` sets the value in place when the name is present, and at the end
otherwise. -/
def insert : Fields α → String → α → Fields α
  | [], name, value => [(name, value)]
  | (n, v) :: rest, name, value =>
      if n = name then (n, value) :: rest else (n, v) :: insert rest name value

def names (fields : Fields α) : List String := fields.map Prod.fst

def values (fields : Fields α) : List α := fields.map Prod.snd

def get? : Fields α → String → Option α
  | [], _ => none
  | (n, v) :: rest, name => if n = name then some v else get? rest name

def erase (fields : Fields α) (name : String) : Fields α :=
  fields.filter fun pair => pair.1 ≠ name

def insertAll (fields : Fields α) (pairs : List (String × α)) : Fields α :=
  pairs.foldl (fun acc pair => insert acc pair.1 pair.2) fields

/-- In `ofList pairs` each name stands at the position of its first pair, with the value of its last
one. -/
def ofList (pairs : List (String × α)) : Fields α := insertAll [] pairs

def Distinct (fields : Fields α) : Prop := (names fields).Nodup

@[simp] theorem names_nil : names ([] : Fields α) = [] := rfl

@[simp] theorem names_cons (pair : String × α) (fields : Fields α) :
    names (pair :: fields) = pair.1 :: names fields := rfl

/-- `insert` adds at most the inserted name, at the end. -/
theorem names_insert (fields : Fields α) (name : String) (value : α) :
    names (insert fields name value) =
      if name ∈ names fields then names fields else names fields ++ [name] := by
  induction fields with
  | nil => simp [insert]
  | cons pair rest ih =>
    obtain ⟨n, v⟩ := pair
    by_cases h : n = name
    · simp [insert, h]
    · have hne : name ≠ n := fun e => h e.symm
      by_cases hm : name ∈ names rest <;> simp [insert, h, hne, ih, hm]

theorem distinct_nil : Distinct ([] : Fields α) := List.nodup_nil

theorem Distinct.insert {fields : Fields α} (h : Distinct fields) (name : String) (value : α) :
    Distinct (insert fields name value) := by
  unfold Distinct at *
  rw [names_insert]
  split
  · exact h
  · rename_i hm
    rw [List.nodup_append]
    refine ⟨h, by simp, ?_⟩
    intro a ha b hb
    simp only [List.mem_singleton] at hb
    subst hb
    rintro rfl
    exact hm ha

theorem Distinct.insertAll {fields : Fields α} (h : Distinct fields)
    (pairs : List (String × α)) : Distinct (insertAll fields pairs) := by
  induction pairs generalizing fields with
  | nil => exact h
  | cons pair rest ih => exact ih (h.insert pair.1 pair.2)

theorem distinct_ofList (pairs : List (String × α)) : Distinct (ofList pairs) :=
  distinct_nil.insertAll pairs

theorem get?_insert (fields : Fields α) (name other : String) (value : α) :
    get? (insert fields name value) other =
      if name = other then some value else get? fields other := by
  induction fields with
  | nil => simp [insert, get?]
  | cons pair rest ih =>
    obtain ⟨n, v⟩ := pair
    by_cases h : n = name
    · subst h
      by_cases ho : n = other <;> simp [insert, get?, ho]
    · by_cases ho : n = other
      · subst ho
        have hne : ¬ name = n := fun e => h e.symm
        simp [insert, get?, h, hne]
      · simp [insert, get?, h, ho, ih]

theorem Distinct.erase {fields : Fields α} (h : Distinct fields) (name : String) :
    Distinct (erase fields name) :=
  List.Nodup.sublist ((List.filter_sublist ..).map Prod.fst) h

end Fields
end Reql
