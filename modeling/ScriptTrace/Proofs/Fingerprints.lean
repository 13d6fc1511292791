import ScriptTrace.Proofs.CanonicalText
import ScriptTrace.Trace.Frame

/-!
# Fingerprints tell states apart

A fingerprint is the canonical text of the globals and of the name, arguments and locals of every open call.
Two states have the same fingerprint exactly if these look alike; lines play no part.

* `CallFrame.LooksLike` : two calls with the same name, and arguments and locals that are alike;
* `fingerprint_eq_iff` : the fingerprints of two states.
-/

namespace ScriptTrace

namespace Json

theorem alike_str {s t : String} : Alike (str s) (str t) ↔ s = t := by
  constructor
  · intro h
    cases h with
    | str => rfl
    | number hs _ => cases hs
  · rintro rfl
    exact .str s

theorem alike_arr {xs ys : List Json} : Alike (arr xs) (arr ys) ↔ List.Forall₂ Alike xs ys := by
  constructor
  · intro h
    cases h with
    | arr h => exact h
    | number hs _ => cases hs
  · exact .arr

theorem alike_obj_iff {fs gs : Fields Json} :
    Alike (obj fs) (obj gs) ↔ ∀ key, Option.Rel Alike (Fields.get? key fs) (Fields.get? key gs) := by
  constructor
  · intro h
    cases h with
    | obj h => exact h
    | number hs _ => cases hs
  · exact .obj

end Json

namespace CallFrame

/-- Arguments and locals are objects whose names are distinct, at any depth. -/
structure Distinct (c : CallFrame) : Prop where
  args : (Json.obj c.args).Distinct
  locals : (Json.obj c.locals).Distinct

structure LooksLike (c d : CallFrame) : Prop where
  function : c.function = d.function
  args : Json.Alike (.obj c.args) (.obj d.args)
  locals : Json.Alike (.obj c.locals) (.obj d.locals)

theorem Distinct.signature {c : CallFrame} (h : c.Distinct) : c.signature.Distinct := by
  refine Json.everyObject_arr.2 fun x hx => ?_
  simp only [List.mem_cons, List.not_mem_nil, or_false] at hx
  rcases hx with rfl | rfl | rfl
  · rfl
  · exact h.args
  · exact h.locals

theorem alike_signature {c d : CallFrame} : Json.Alike c.signature d.signature ↔ c.LooksLike d := by
  rw [signature, signature, Json.alike_arr, List.forall₂_cons, List.forall₂_cons, List.forall₂_cons, Json.alike_str]
  constructor
  · rintro ⟨hfunction, hargs, hlocals, -⟩
    exact ⟨hfunction, hargs, hlocals⟩
  · intro h
    exact ⟨h.function, h.args, h.locals, .nil⟩

end CallFrame

/-! ## States -/

/-- The value whose text is a fingerprint. -/
def stateJson (globals : Fields Json) (stack : List CallFrame) : Json :=
  .obj [("globals", .obj globals), ("stack", .arr (stack.reverse.map (·.signature)))]

theorem fingerprint_eq (globals : Fields Json) (stack : List CallFrame) :
    fingerprint globals stack = (stateJson globals stack).render := rfl

theorem stateJson_distinct {globals : Fields Json} {stack : List CallFrame} (hglobals : (Json.obj globals).Distinct)
    (hstack : ∀ c ∈ stack, c.Distinct) : (stateJson globals stack).Distinct := by
  refine Json.everyObject_obj.2 ⟨by simp [Fields.names], fun f hf => ?_⟩
  simp only [List.mem_cons, List.not_mem_nil, or_false] at hf
  rcases hf with rfl | rfl
  · exact hglobals
  · refine Json.everyObject_arr.2 fun x hx => ?_
    obtain ⟨c, hc, rfl⟩ := List.mem_map.1 hx
    exact (hstack c (List.mem_reverse.1 hc)).signature

theorem alike_stack {s t : List CallFrame} :
    Json.Alike (.arr (s.reverse.map (·.signature))) (.arr (t.reverse.map (·.signature))) ↔
      List.Forall₂ CallFrame.LooksLike s t := by
  rw [Json.alike_arr, List.forall₂_map_left_iff, List.forall₂_map_right_iff]
  simp only [CallFrame.alike_signature]
  exact List.forall₂_reverse_iff

theorem alike_stateJson {g g' : Fields Json} {s s' : List CallFrame} : Json.Alike (stateJson g s) (stateJson g' s') ↔
    Json.Alike (.obj g) (.obj g') ∧ List.Forall₂ CallFrame.LooksLike s s' := by
  rw [← alike_stack, stateJson, stateJson, Json.alike_obj_iff]
  constructor
  · intro h
    have hglobals := h "globals"
    have hstack := h "stack"
    simp only [Fields.get?, if_true, if_neg (show "globals" ≠ "stack" by decide)] at hglobals hstack
    cases hglobals with
    | some hglobals =>
      cases hstack with
      | some hstack => exact ⟨hglobals, hstack⟩
  · rintro ⟨hglobals, hstack⟩ key
    simp only [Fields.get?]
    split
    · exact .some hglobals
    · split
      · exact .some hstack
      · exact .none

section States

variable {g g' : Fields Json} {s s' : List CallFrame} (hg : (Json.obj g).Distinct) (hg' : (Json.obj g').Distinct)
  (hs : ∀ c ∈ s, c.Distinct) (hs' : ∀ c ∈ s', c.Distinct)

include hg hg' hs hs'

theorem render_stateJson_iff : (stateJson g s).render = (stateJson g' s').render ↔
    Json.Alike (.obj g) (.obj g') ∧ List.Forall₂ CallFrame.LooksLike s s' := by
  rw [← alike_stateJson]
  exact Json.render_eq_iff (stateJson_distinct hg hs) (stateJson_distinct hg' hs')

/-- Two states have the same fingerprint exactly if their globals are alike, and their stacks call by call. -/
theorem fingerprint_eq_iff : fingerprint g s = fingerprint g' s' ↔
    Json.Alike (.obj g) (.obj g') ∧ List.Forall₂ CallFrame.LooksLike s s' := by
  rw [fingerprint_eq, fingerprint_eq]
  exact render_stateJson_iff hg hg' hs hs'

end States

/-- Two variables in either order, with an open call that has the one or the other of two arguments. -/
def orderedGlobals : Fields Json := [("x", .int 1), ("y", .str "é")]

def reorderedGlobals : Fields Json := [("y", .str "é"), ("x", .int 1)]

def callWith (argument : Json) : CallFrame := { function := "f", args := [("a", .arr [argument])] }

theorem fingerprint_eq_iff_reordered : (Json.obj orderedGlobals).Distinct ∧ (Json.obj reorderedGlobals).Distinct ∧
    (∀ argument ∈ [Json.int 1, .bool true], (callWith argument).Distinct) ∧
    (fingerprint orderedGlobals [callWith (.int 1)] = fingerprint reorderedGlobals [callWith (.bool true)] ↔
      Json.Alike (.obj orderedGlobals) (.obj reorderedGlobals) ∧
        List.Forall₂ CallFrame.LooksLike [callWith (.int 1)] [callWith (.bool true)]) := by
  have hordered : (Json.obj orderedGlobals).Distinct := by rfl
  have hreordered : (Json.obj reorderedGlobals).Distinct := by rfl
  have hcall : ∀ argument ∈ [Json.int 1, .bool true], (callWith argument).Distinct := by
    simp only [List.mem_cons, List.not_mem_nil, or_false]
    rintro argument (rfl | rfl)
    · exact ⟨by rfl, by rfl⟩
    · exact ⟨by rfl, by rfl⟩
  refine ⟨hordered, hreordered, hcall, fingerprint_eq_iff hordered hreordered (fun c hc => ?_) fun c hc => ?_⟩
  · rw [List.mem_singleton.1 hc]
    exact hcall _ (by simp)
  · rw [List.mem_singleton.1 hc]
    exact hcall _ (by simp)

end ScriptTrace
