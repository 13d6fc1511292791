import ScriptTrace.Trace.Playback
import Mathlib.Data.List.Induction

/-!
# One event of a playback

* `Playback.step_cases` : everything that an event can do;
* `Playback.apply_of_shows`, `Playback.apply_of_not_shows` : events that bear on what is seen;
* `Playback.frames_foldl` : no event changes or removes a frame.
-/

namespace ScriptTrace

namespace Playback

theorem run_append (events : List Event) (e : Event) : run (events ++ [e]) = (run events).step e := by
  rw [run, List.foldl_append]
  rfl

/-! ## Events that bear on what is seen -/

theorem apply_of_shows {p : Playback} {e : Event} (h : p.shows e (p.scene.after e).scene = true) : p.apply e =
    { p with
      scene := (p.scene.after e).scene
      shown := some (p.scene.after e).scene.fingerprint
      pending := none
      frames := p.frames ++ [p.picture e (p.scene.after e)] } :=
  if_pos h

theorem apply_of_not_shows {p : Playback} {e : Event} (h : p.shows e (p.scene.after e).scene = false) :
    p.apply e = { p with scene := (p.scene.after e).scene } :=
  if_neg (by rw [h]; decide)

@[simp] theorem scene_apply (p : Playback) (e : Event) : (p.apply e).scene = (p.scene.after e).scene := by
  cases h : p.shows e (p.scene.after e).scene with
  | true => rw [apply_of_shows h]
  | false => rw [apply_of_not_shows h]

@[simp] theorem finished_apply (p : Playback) (e : Event) : (p.apply e).finished = p.finished := by
  cases h : p.shows e (p.scene.after e).scene with
  | true => rw [apply_of_shows h]
  | false => rw [apply_of_not_shows h]

/-- The frames that an event adds have its scene. -/
theorem frames_apply (p : Playback) (e : Event) : ∃ new, (p.apply e).frames = p.frames ++ new ∧ ∀ f ∈ new,
    f.stack = (p.apply e).scene.stack ∧ f.globals = (p.apply e).scene.globals ∧ f.stdout = (p.apply e).scene.stdout := by
  cases h : p.shows e (p.scene.after e).scene with
  | true =>
    rw [apply_of_shows h]
    refine ⟨[p.picture e (p.scene.after e)], rfl, fun f hf => ?_⟩
    rw [List.mem_singleton.1 hf]
    exact ⟨rfl, rfl, rfl⟩
  | false =>
    rw [apply_of_not_shows h]
    exact ⟨[], (List.append_nil _).symm, by simp⟩

/-! ## All events -/

/-- An event after a failure counts for nothing; a failure ends the run; a test waits; what is for information only
changes nothing; all others bear on what is seen. -/
theorem step_cases (p : Playback) (e : Event) :
    (p.finished = true ∧ p.step e = p) ∨
    p.finished = false ∧
      ((e.kind = .error ∧ p.step e = p.fail e) ∨
       (e.kind = .test ∧ p.step e = { p with pending := some (testText e) }) ∨
       ((∃ word, e.kind = .note word) ∧ p.step e = p) ∨
       ((e.kind.isSignificant = true ∨ e.kind.isWrite = true) ∧ p.step e = p.apply e)) := by
  unfold step
  cases hfinished : p.finished with
  | true => exact .inl ⟨rfl, if_pos rfl⟩
  | false =>
    rw [if_neg (by decide)]
    refine .inr ⟨rfl, ?_⟩
    cases hk : e.kind with
    | error => exact .inl ⟨rfl, rfl⟩
    | test => exact .inr (.inl ⟨rfl, rfl⟩)
    | note word => exact .inr (.inr (.inl ⟨⟨word, rfl⟩, rfl⟩))
    | call | ret | throw | stdout => exact .inr (.inr (.inr ⟨.inl rfl, rfl⟩))
    | declare | assign => exact .inr (.inr (.inr ⟨.inr rfl, rfl⟩))

theorem frames_step (p : Playback) (e : Event) : p.frames <+: (p.step e).frames := by
  obtain ⟨-, hstep⟩ | ⟨-, ⟨-, hstep⟩ | ⟨-, hstep⟩ | ⟨-, hstep⟩ | ⟨-, hstep⟩⟩ := step_cases p e
  · exact ⟨[], by rw [hstep, List.append_nil]⟩
  · exact ⟨[Frame.failed e.message e.line], by rw [hstep]; rfl⟩
  · exact ⟨[], by rw [hstep, List.append_nil]⟩
  · exact ⟨[], by rw [hstep, List.append_nil]⟩
  · obtain ⟨new, hnew, -⟩ := frames_apply p e
    rw [hstep, hnew]
    exact List.prefix_append ..

/-- No event changes or removes a frame. -/
theorem frames_foldl (events : List Event) (p : Playback) : p.frames <+: (events.foldl step p).frames := by
  induction events generalizing p with
  | nil => exact List.prefix_refl _
  | cons e events ih => exact (frames_step p e).trans (ih (p.step e))

end Playback

end ScriptTrace
