import ScriptTrace.Proofs.ShownFrames
import ScriptTrace.Proofs.TestContexts

/-!
# Inner variables hide outer ones

The variables that a frame shows together are those of its layers: the locals and then the arguments of each call, from
the call that the event completed outwards, and the globals last. A name has the value of the innermost layer that has
it, whatever the calls further out hold under the same name.

* `Frame.layers` : the layers of a frame, innermost first;
* `get?_visibleLocals` : the value of a name among variables that were set layer by layer;
* `completedBy` : the call that an event completes;
* `Playback.locals_layered` : the variables of every frame of a run.
-/

namespace ScriptTrace

/-! ## Layers -/

/-- The variables of a call, those that hide others first. -/
def CallFrame.layers (c : CallFrame) : List (Fields Json) := [c.locals, c.args]

/-- The variables that a frame shows, layer by layer from the innermost outwards. -/
def Frame.layers (f : Frame) : List (Fields Json) := (f.completed.toList ++ f.stack).flatMap CallFrame.layers ++ [f.globals]

/-- The variables of a call hide those that are in sight already. -/
theorem get?_addCall {c : CallFrame} (h : c.Distinct) (name : String) (view : Fields Json) :
    Fields.get? name (addCall view c) = (c.layers.findSome? (Fields.get? name)).or (Fields.get? name view) := by
  have hlocals := Fields.get?_perm (List.reverse_perm c.locals).symm h.locals.nodup name
  have hargs := Fields.get?_perm (List.reverse_perm c.args).symm h.args.nodup name
  rw [addCall, Fields.get?_setAll, Fields.get?_setAll, ← hlocals, ← hargs, CallFrame.layers, List.findSome?_cons,
    List.findSome?_cons, List.findSome?_nil]
  cases Fields.get? name c.locals with
  | some v => rfl
  | none => cases Fields.get? name c.args <;> rfl

/-- Calls are added from the outermost to the innermost, so the layers are looked through the other way round. -/
theorem get?_visibleLocals {globals : Fields Json} {stack : List CallFrame} {completed : Option CallFrame}
    (h : ∀ c ∈ completed.toList ++ stack, c.Distinct) (name : String) :
    Fields.get? name (visibleLocals globals stack completed) =
      ((completed.toList ++ stack).flatMap CallFrame.layers ++ [globals]).findSome? (Fields.get? name) := by
  have hreverse : stack.reverse ++ completed.toList = (completed.toList ++ stack).reverse := by
    cases completed <;> simp
  rw [visibleLocals, hreverse, List.foldl_reverse]
  generalize completed.toList ++ stack = calls at h
  induction calls with
  | nil => simp
  | cons c calls ih =>
    rw [List.foldr_cons, get?_addCall (h c List.mem_cons_self), List.flatMap_cons, List.append_assoc, List.findSome?_append,
      ih fun d hd => h d (List.mem_cons_of_mem c hd)]

/-! ## Completed calls -/

/-- The call that an event completes: the innermost open call, if the event ends a call. A call that returns has its
value from then on. -/
def completedBy (stack : List CallFrame) (e : Event) : Option CallFrame :=
  if e.kind = .ret then stack.head?.map fun c => { c with returnValue := e.value, returned := true }
  else if e.kind = .throw then stack.head?
  else none

theorem completed_after (s : Scene) (e : Event) : (s.after e).completed = completedBy s.stack e := by
  unfold Scene.after completedBy
  cases e.kind <;> rfl

theorem distinct_completedBy {s : Scene} (h : s.Distinct) (e : Event) : ∀ c ∈ completedBy s.stack e, c.Distinct := by
  have hhead : ∀ c ∈ s.stack.head?, c.Distinct := fun c hc => h.stack c (List.mem_of_head? hc)
  intro c hc
  unfold completedBy at hc
  split at hc
  · obtain ⟨top, htop, rfl⟩ := Option.map_eq_some_iff.1 hc
    exact ⟨(hhead top htop).args, (hhead top htop).locals⟩
  · split at hc
    · exact hhead c hc
    · cases hc

/-! ## Frames -/

/-- What a frame shows after an event in a scene: the call that the event completed, the open calls and the globals, and
of every name the value in the innermost layer that has it. -/
structure Frame.Layered (f : Frame) (before : Scene) (e : Event) : Prop where
  completed : f.completed = completedBy before.stack e
  stack : f.stack = (before.after e).scene.stack
  globals : f.globals = (before.after e).scene.globals
  value : ∀ name, Fields.get? name f.locals = f.layers.findSome? (Fields.get? name)
  missing : ∀ name, Fields.get? name f.locals = none ↔ ∀ layer ∈ f.layers, Fields.get? name layer = none

namespace Playback

/-- The picture after an event is layered. -/
theorem layered_picture {p : Playback} {e : Event} (hp : p.scene.Distinct) (he : e.Distinct) :
    (p.picture e (p.scene.after e)).Layered p.scene e := by
  have hcalls : ∀ c ∈ (p.scene.after e).completed.toList ++ (p.scene.after e).scene.stack, c.Distinct := by
    intro c hc
    rcases List.mem_append.1 hc with hc | hc
    · rw [completed_after] at hc
      exact distinct_completedBy hp e c (Option.mem_toList.1 hc)
    · exact (hp.after he).stack c hc
  have hvalue (name : String) : Fields.get? name (p.picture e (p.scene.after e)).locals =
      (p.picture e (p.scene.after e)).layers.findSome? (Fields.get? name) := get?_visibleLocals hcalls name
  refine ⟨completed_after p.scene e, rfl, rfl, hvalue, fun name => ?_⟩
  rw [← List.findSome?_eq_none_iff]
  exact iff_of_eq (congrArg (· = none) (hvalue name))

/-- The frames that an event adds are layered, that of a failure apart. -/
theorem exists_layered_frames {p : Playback} {e : Event} (hp : p.scene.Distinct) (he : e.Distinct) :
    ∃ new, (p.step e).frames = p.frames ++ new ∧ ∀ f ∈ new, f.error = none → f.Layered p.scene e := by
  obtain ⟨-, hstep⟩ | ⟨-, ⟨-, hstep⟩ | ⟨-, hstep⟩ | ⟨-, hstep⟩ | ⟨-, hstep⟩⟩ := step_cases p e
  · exact ⟨[], by rw [hstep, List.append_nil], by simp⟩
  · refine ⟨[Frame.failed e.message e.line], by rw [hstep]; rfl, fun f hf herror => ?_⟩
    rw [List.mem_singleton.1 hf] at herror
    cases herror
  · exact ⟨[], by rw [hstep, List.append_nil], by simp⟩
  · exact ⟨[], by rw [hstep, List.append_nil], by simp⟩
  · rw [hstep]
    cases hshows : p.shows e (p.scene.after e).scene with
    | true =>
      rw [apply_of_shows hshows]
      refine ⟨[p.picture e (p.scene.after e)], rfl, fun f hf _ => ?_⟩
      rw [List.mem_singleton.1 hf]
      exact layered_picture hp he
    | false =>
      rw [apply_of_not_shows hshows]
      exact ⟨[], (List.append_nil _).symm, by simp⟩

/-- Every frame of a run is given by one of its events. Unless it is that of a failure, it shows of every name the value
in the innermost layer that has it, and no name that no layer has. -/
theorem locals_layered (events : List Event) (h : ∀ e ∈ events, e.Distinct) :
    playback events = (List.range events.length).flatMap (framesAt events) ∧
      ∀ k e, events[k]? = some e → ∀ f ∈ framesAt events k, f.error = none →
        f.Layered (run (events.take k)).scene e := by
  refine ⟨by rw [← playback_take, List.take_length], fun k e he f hf herror => ?_⟩
  have hscene : (run (events.take k)).scene.Distinct := distinct_run fun x hx => h x (List.mem_of_mem_take hx)
  obtain ⟨new, hnew, hlayered⟩ := exists_layered_frames hscene (h e (List.mem_of_getElem? he))
  rw [framesAt_eq he hnew] at hf
  exact hlayered f hf herror

/-- A call in a call of one function, both with an `n`; the inner one has a local besides and returns. -/
def recursiveEvents : List Event :=
  [{ kind := .assign, locals := [("n", .int 9), ("r", .int 0)] }, { kind := .call, name := some "f", args := [("n", .int 2)] },
    { kind := .declare, locals := [("r", .int 7)] }, { kind := .call, name := some "f", args := [("n", .int 1)] },
    { kind := .ret, value := .int 1 }, { kind := .ret, value := .int 2 }]

theorem locals_layered_recursive : (∀ e ∈ recursiveEvents, e.Distinct) ∧ ∃ f, framesAt recursiveEvents 4 = [f] ∧
    f.error = none ∧ f.Layered (run (recursiveEvents.take 4)).scene { kind := .ret, value := .int 1 } ∧
    Fields.get? "n" f.locals = some (.int 1) ∧ Fields.get? "r" f.locals = some (.int 7) := by
  have hdistinct : ∀ e ∈ recursiveEvents, e.Distinct := by
    simp only [recursiveEvents, List.mem_cons, List.not_mem_nil, or_false]
    rintro e (rfl | rfl | rfl | rfl | rfl | rfl) <;> exact ⟨by rfl, by rfl⟩
  obtain ⟨f, hf⟩ : ∃ f, framesAt recursiveEvents 4 = [f] := ⟨_, rfl⟩
  have herror : (framesAt recursiveEvents 4).map (·.error) = [none] := rfl
  have hn : (framesAt recursiveEvents 4).map (fun f => Fields.get? "n" f.locals) = [some (.int 1)] := rfl
  have hr : (framesAt recursiveEvents 4).map (fun f => Fields.get? "r" f.locals) = [some (.int 7)] := rfl
  rw [hf, List.map_singleton, List.singleton_inj] at herror hn hr
  refine ⟨hdistinct, f, hf, herror, ?_, hn, hr⟩
  exact (locals_layered recursiveEvents hdistinct).2 4 _ rfl f (by rw [hf]; exact List.mem_singleton_self f) herror

end Playback

end ScriptTrace
