import ScriptTrace.Probe.Tree
import ScriptTrace.Syntax.Binding
import ScriptTrace.Syntax.Node

/-!
# Steps of a pass

A pass walks through a tree with one value in focus. A step may look at the value in focus, change it,
or work on a part of it; a fault ends the pass and leaves everything as it stands at that moment, with
the focus back where the step began.

* `Pass` : the value in focus, the shared parts, and the bookkeeping of the pass;
* `Step` : a step;
* `Step.inField`, `Step.eachItem` : a step on a field, and one on each item of a list;
* `Step.withQueue`, `Step.inClass` : a step with a queue of its own, and one inside a class.
-/

namespace ScriptTrace

/-- Probes waiting to be placed around the statement being visited. -/
structure Queue where
  before : List Tree
  after : List Tree
  /-- Whether the next statement is always reached, so that probes may follow. -/
  allowsAfter : Bool
  deriving Inhabited

def Queue.empty (allowsAfter : Bool) : Queue := ⟨[], [], allowsAfter⟩

/-- The state of a pass. -/
structure Pass where
  /-- The value in focus, never a shared place. -/
  focus : Tree
  /-- The parts that several places share. -/
  parts : List Tree
  /-- The program the tree was read from. -/
  code : Option String
  queue : Queue
  /-- The names of the enclosing classes, the innermost first. -/
  classes : List Json
  /-- How many loop variables have been introduced. -/
  counter : Nat
  deriving Inhabited

/-- A step of a pass. -/
abbrev Step (α : Type) := ExceptT Fault (StateM Pass) α

namespace Step

variable {α : Type}

/-- A step from its effect on the state. -/
def ofEffect (f : Pass → Except Fault α × Pass) : Step α := ExceptT.mk f

/-- The effect of a step. -/
def effect (act : Step α) (s : Pass) : Except Fault α × Pass := act.run.run s

/-! ## Looking at the focus -/

def focus : Step Tree := return (← get).focus

def setFocus (t : Tree) : Step Unit := modify fun s => { s with focus := t }

/-- The value at a place: a shared part is looked up. -/
def resolve (t : Tree) : Step Tree := do
  match t with
  | .shared k => return (← get).parts.getD k .null
  | t => return t

/-- The plain JSON of a value. -/
def plain (t : Tree) : Step Json := return t.expand (← get).parts

/-- The field under `key` as its place holds it. -/
def place (key : String) : Step Tree := do ((layer (← focus)).require key)

/-- The field under `key`, which must be there. -/
def child (key : String) : Step Tree := do resolve (← place key)

/-- The field under `key`, none when it is missing or null. -/
def child? (key : String) : Step (Option Tree) := do
  match (← focus) with
  | .obj _ fields =>
    match Fields.get? key fields with
    | some .null | none => return none
    | some t => return some (← resolve t)
  | _ => throw .unsupported

/-- Whether the field under `key` counts as true. -/
def flag (key : String) : Step Bool := do
  return ((← child? key).map fun t => (layer t).truthy).getD false

/-- The plain JSON of a field, null when it is missing. -/
def plainField (key : String) : Step Json := do plain ((← focus).field key)

/-- The position of the focus; none for a value that is no node. -/
def position : Step Json := do
  if (← focus).isNode then plainField "loc" else return .null

/-- The line in which the focus starts. -/
def line : Step Json := do (Node.lineOf (← position))

/-- The line in which the focus ends. -/
def endLine : Step Json := do (Node.endLineOf (← position))

/-- The text by which a condition is shown. -/
def conditionText (test : Tree) : Step Json := do
  return .str (← (Node.conditionText (← plain test) (← get).code))

/-! ## Changing the focus -/

def mark : Step Unit := do setFocus (← focus).mark

def setField (key : String) (value : Tree) : Step Unit := do
  setFocus ((← focus).setField key value)

/-- Changes the list in focus; `otherwise` is the fault where there is none. -/
def changeList (otherwise : Fault) (f : List Tree → List Tree) : Step Unit := do
  match ← focus with
  | .arr items => setFocus (.arr (f items))
  | _ => throw otherwise

/-! ## Working on parts -/

/-- A step on a value that is not the focus: its answer, the value at the place afterwards, and the
state with the focus as before. -/
def within (act : Step α) (t : Tree) (s : Pass) : (Except Fault α × Tree) × Pass :=
  match t with
  | .shared k =>
    let (r, after) := act.effect { s with focus := s.parts.getD k .null }
    ((r, t), { after with focus := s.focus, parts := after.parts.set k after.focus })
  | t =>
    let (r, after) := act.effect { s with focus := t }
    ((r, after.focus), { after with focus := s.focus })

/-- A step on the field under `key`. -/
def inField (key : String) (act : Step α) : Step α := ofEffect fun s =>
  match (layer s.focus).require key with
  | .error fault => (.error fault, s)
  | .ok t =>
    let ((r, t), s) := within act t s
    (r, { s with focus := s.focus.setField key t })

/-- A step on each of some values in order, up to the first fault. -/
def withinEach (act : Step α) : List Tree → Pass → (Except Fault (List α) × List Tree) × Pass
  | [], s => ((.ok [], []), s)
  | t :: ts, s =>
    match within act t s with
    | ((.error fault, t), s) => ((.error fault, t :: ts), s)
    | ((.ok a, t), s) =>
      let ((r, ts), s) := withinEach act ts s
      ((r.map (a :: ·), t :: ts), s)

/-- A step on each element of the focus. Only those of a list are kept as they are left. -/
def eachItem (act : Step α) : Step (List α) := ofEffect fun s =>
  match (layer s.focus).elements with
  | .error fault => (.error fault, s)
  | .ok items =>
    let ((r, items), s) := withinEach act items s
    match s.focus with
    | .arr _ => (r, { s with focus := .arr items })
    | _ => (r, s)

/-! ## Bookkeeping -/

/-- A step with a queue of its own: its answer and the probes it queued. -/
def withQueue (allowsAfter : Bool) (act : Step α) : Step (α × Queue) := ofEffect fun s =>
  let (r, after) := act.effect { s with queue := .empty allowsAfter }
  (r.map (·, after.queue), { after with queue := s.queue })

/-- A step on an expression whose assignments must not queue probes. -/
def quietly (act : Step α) : Step α := return (← withQueue false act).1

def queueBefore (probe : Tree) : Step Unit :=
  modify fun s => { s with queue := { s.queue with before := s.queue.before ++ [probe] } }

def queueAfter (probe : Tree) : Step Unit :=
  modify fun s => { s with queue := { s.queue with after := s.queue.after ++ [probe] } }

/-- A step inside a class of this name. -/
def inClass (name : Json) (act : Step α) : Step α := ofEffect fun s =>
  let (r, after) := act.effect { s with classes := name :: s.classes }
  (r, { after with classes := s.classes })

/-- The next unused number for a loop variable. -/
def freshNumber : Step Nat := do
  modify fun s => { s with counter := s.counter + 1 }
  return (← get).counter

end Step

end ScriptTrace
