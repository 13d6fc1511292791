import ScriptTrace.Syntax.Layer

/-!
# Trees with a note at every value

A function on trees is often best told node by node: what it answers for a node depends on the
answers for everything below it, at any depth. `Json.annotate` computes such answers from the leaves
up and keeps each beside its value, so that no bound on the depth of a tree is ever needed.

* `Annotated β` : a value with a note of type `β` at every level;
* `Json.annotate` : the notes given by one rule for all nodes;
* `Json.get?_annotateFields`, `Json.source_annotate` : looking up and taking notes commute, and the
  value itself is kept.
-/

namespace ScriptTrace

/-- A value with its note, the plain JSON it stands for, and its layer of noted children. -/
inductive Annotated (β : Type) where
  | mk (note : β) (source : Json) (content : Layer (Annotated β))

namespace Annotated

variable {β : Type}

def note : Annotated β → β
  | mk note _ _ => note

def source : Annotated β → Json
  | mk _ source _ => source

def content : Annotated β → Layer (Annotated β)
  | mk _ _ content => content

/-- The plain value of a layer of noted values. -/
def plain : Layer (Annotated β) → Json
  | .null => .null
  | .bool b => .bool b
  | .int n => .int n
  | .float x => .float x
  | .str s => .str s
  | .arr items => .arr (items.map source)
  | .obj fields => .obj (fields.map fun f => (f.1, f.2.source))

/-- Plain strings, met where a loop runs over names or characters, have the default note. -/
instance [Inhabited β] : Layered (Annotated β) := ⟨content, fun s => mk default (.str s) (.str s)⟩

end Annotated

namespace Json

variable {β : Type} (f : Layer (Annotated β) → β)

mutual

/-- The value with the note `f` gives at every level. -/
def annotate : Json → Annotated β
  | null => .mk (f .null) null .null
  | bool b => .mk (f (.bool b)) (bool b) (.bool b)
  | int n => .mk (f (.int n)) (int n) (.int n)
  | float x => .mk (f (.float x)) (float x) (.float x)
  | str s => .mk (f (.str s)) (str s) (.str s)
  | arr items =>
    let content := .arr (annotateItems items)
    .mk (f content) (arr items) content
  | obj fields =>
    let content := .obj (annotateFields fields)
    .mk (f content) (obj fields) content

def annotateItems : List Json → List (Annotated β)
  | [] => []
  | x :: xs => annotate x :: annotateItems xs

def annotateFields : List (String × Json) → List (String × Annotated β)
  | [] => []
  | (k, x) :: xs => (k, annotate x) :: annotateFields xs

end

/-- The note of a whole value. -/
def note (j : Json) : β := (annotate f j).note

theorem annotateItems_eq_map : ∀ items : List Json, annotateItems f items = items.map (annotate f)
  | [] => rfl
  | _ :: xs => by simp [annotateItems, annotateItems_eq_map xs]

theorem get?_annotateFields (key : String) : ∀ fields : Fields Json,
    Fields.get? key (annotateFields f fields) = (Fields.get? key fields).map (annotate f)
  | [] => rfl
  | (k, x) :: xs => by
    by_cases h : k = key
    · simp [annotateFields, Fields.get?, h]
    · simp [annotateFields, Fields.get?, h, get?_annotateFields key xs]

theorem source_annotate (j : Json) : (annotate f j).source = j := by
  cases j <;> rfl

end Json

end ScriptTrace
