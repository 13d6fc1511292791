/-!
# Named fields in the order they were written

A field list keeps the place of a name that is set again, and puts a new name last.

* `Fields.get?`, `Fields.set`, `Fields.names` : the operations;
* `Fields.get?_set` : what a look-up answers after a change;
* `Fields.names_set` : which names there are after it, and in which order.
-/

namespace ScriptTrace

/-- Names with values, in order. -/
abbrev Fields (α : Type) := List (String × α)

namespace Fields

variable {α : Type}

def names (fields : Fields α) : List String := fields.map (·.1)

/-- The value under a name. -/
def get? (name : String) : Fields α → Option α
  | [] => none
  | (k, v) :: rest => if k = name then some v else get? name rest

/-- Puts a value under a name: in its place if it has one, else at the end. -/
def set (name : String) (value : α) : Fields α → Fields α
  | [] => [(name, value)]
  | (k, v) :: rest => if k = name then (k, value) :: rest else (k, v) :: set name value rest

/-- Sets many fields, in order. -/
def setAll (fields : Fields α) (news : Fields α) : Fields α :=
  news.foldl (fun acc (k, v) => set k v acc) fields

theorem get?_set (name key : String) (value : α) : ∀ fields : Fields α,
    get? key (set name value fields) = if name = key then some value else get? key fields
  | [] => by simp [set, get?]
  | (k, v) :: rest => by
    by_cases h : k = name
    · subst h; simp only [set, get?, if_pos]; split <;> rfl
    · by_cases hk : k = key
      · subst hk; simp [set, get?, h, Ne.symm h]
      · simp [set, get?, h, hk, get?_set name key value rest]

theorem names_set (name : String) (value : α) : ∀ fields : Fields α,
    names (set name value fields) = if name ∈ names fields then names fields else names fields ++ [name]
  | [] => by simp [set, names]
  | (k, v) :: rest => by
    by_cases h : k = name
    · subst h; simp [set, names]
    · have ih := names_set name value rest
      simp only [names, set, h, if_false, List.map_cons, List.mem_cons, List.cons_append] at ih ⊢
      rw [ih]
      by_cases hr : name ∈ rest.map (·.1)
      · simp [hr]
      · simp [hr, Ne.symm h]

end Fields

end ScriptTrace
