import ScriptTrace.Proofs.Fingerprints
import ScriptTrace.Proofs.PlaybackSteps

/-!
# The frames show the changes

The fingerprint that a playback keeps is that of its scene, whether or not the last event gave a frame. So a
write gives a frame exactly if it changes what is seen or follows a test, and an event that tells nothing new
may as well be left out.

* `Scene.LooksLike` : scenes with the same variables and calls;
* `Playback.UpToDate` : the fingerprint that is kept is that of the scene, after any events;
* `Playback.Redundant`, `Playback.Prunes` : events that tell nothing, and lists of events without them;
* `Playback.frames_exact` : which events give a frame.
-/

namespace ScriptTrace

/-! ## Distinct names -/

/-- The variables of an event are objects whose names are distinct, at any depth. -/
structure Event.Distinct (e : Event) : Prop where
  args : (Json.obj e.args).Distinct
  locals : (Json.obj e.locals).Distinct

namespace Scene

structure Distinct (s : Scene) : Prop where
  globals : (Json.obj s.globals).Distinct
  stack : ∀ c ∈ s.stack, c.Distinct

/-- Scenes that show the same variables and calls. -/
structure LooksLike (s t : Scene) : Prop where
  globals : Json.Alike (.obj s.globals) (.obj t.globals)
  stack : List.Forall₂ CallFrame.LooksLike s.stack t.stack

theorem fingerprint_eq_fingerprint {s t : Scene} (hs : s.Distinct) (ht : t.Distinct) :
    s.fingerprint = t.fingerprint ↔ s.LooksLike t := by
  rw [fingerprint, fingerprint, fingerprint_eq, fingerprint_eq,
    render_stateJson_iff hs.globals ht.globals hs.stack ht.stack]
  exact ⟨fun h => ⟨h.1, h.2⟩, fun h => ⟨h.globals, h.stack⟩⟩

end Scene

theorem Json.Distinct.set {fields : Fields Json} {v : Json} (h : (obj fields).Distinct) (hv : v.Distinct) (key : String) :
    (obj (Fields.set key v fields)).Distinct := by
  have hnd : (Fields.names (Fields.set key v fields)).Nodup := by
    rw [Fields.names_set]
    split
    · exact h.nodup
    · next hkey =>
      refine List.nodup_append.2 ⟨h.nodup, by simp, fun a ha b hb => ?_⟩
      rw [List.mem_singleton.1 hb]
      rintro rfl
      exact hkey ha
  refine everyObject_obj.2 ⟨decide_eq_true hnd, fun f hf => ?_⟩
  have hfound : Fields.get? f.1 (Fields.set key v fields) = some f.2 := Fields.get?_of_mem hnd hf
  rw [Fields.get?_set] at hfound
  split at hfound
  · rw [← Option.some.inj hfound]
    exact hv
  · exact h.field (Fields.mem_of_get? hfound)

theorem Json.Distinct.setAll {fields news : Fields Json} (h : (obj fields).Distinct) (hnews : (obj news).Distinct) :
    (obj (Fields.setAll fields news)).Distinct := by
  have hvalues : ∀ f ∈ news, f.2.Distinct := fun f hf => hnews.field hf
  clear hnews
  induction news generalizing fields with
  | nil => exact h
  | cons f news ih =>
    rw [Fields.setAll_cons]
    exact ih (h.set (hvalues f (by simp)) f.1) fun g hg => hvalues g (List.mem_cons_of_mem f hg)

section After

variable {s : Scene} {e : Event}

/-- The variables that a write sets: those of the innermost open call, or the globals. -/
def Scene.variables (s : Scene) : Fields Json := (s.stack.head?.map (·.locals)).getD s.globals

/-- Writing the values that the variables have changes nothing. -/
theorem Scene.write_of_same {values : Fields Json} (h : ∀ f ∈ values, Fields.get? f.1 s.variables = some f.2) :
    s.write values = s := by
  unfold Scene.write
  split
  · next top rest hstack =>
    have hlocals : Fields.setAll top.locals values = top.locals :=
      Fields.setAll_of_same (by simpa [Scene.variables, hstack] using h)
    rw [hlocals, ← hstack]
  · next hstack =>
    have hglobals : Fields.setAll s.globals values = s.globals :=
      Fields.setAll_of_same (by simpa [Scene.variables, hstack] using h)
    rw [hglobals]

theorem Scene.Distinct.write {values : Fields Json} (h : s.Distinct) (hvalues : (Json.obj values).Distinct) :
    (s.write values).Distinct := by
  unfold Scene.write
  split
  · next top rest hstack =>
    refine ⟨h.globals, fun c hc => ?_⟩
    have htop : top.Distinct := h.stack top (by simp [hstack])
    rcases List.mem_cons.1 hc with rfl | hc
    · exact ⟨htop.args, htop.locals.setAll hvalues⟩
    · exact h.stack c (by simp [hstack, hc])
  · next hstack => exact ⟨h.globals.setAll hvalues, fun c hc => h.stack c hc⟩

theorem Scene.Distinct.after (h : s.Distinct) (he : e.Distinct) : (s.after e).scene.Distinct := by
  have htail : Scene.Distinct { s with stack := s.stack.tail } :=
    ⟨h.globals, fun c hc => h.stack c (List.mem_of_mem_tail hc)⟩
  unfold Scene.after
  cases e.kind with
  | call =>
    refine ⟨h.globals, fun c hc => ?_⟩
    rcases List.mem_cons.1 hc with rfl | hc
    · exact ⟨he.args, by rfl⟩
    · exact h.stack c hc
  | declare | assign => exact h.write he.locals
  | ret | throw => exact htail
  | stdout => exact ⟨h.globals, h.stack⟩
  | test | error | note _ => exact h

end After

namespace Playback

variable {p : Playback} {e : Event}

theorem distinct_step (h : p.scene.Distinct) (he : e.Distinct) : (p.step e).scene.Distinct := by
  obtain ⟨-, hstep⟩ | ⟨-, ⟨-, hstep⟩ | ⟨-, hstep⟩ | ⟨-, hstep⟩ | ⟨-, hstep⟩⟩ := step_cases p e
  · rwa [hstep]
  · rw [hstep]
    exact ⟨by rfl, by simp [fail]⟩
  · rwa [hstep]
  · rwa [hstep]
  · rw [hstep, scene_apply]
    exact h.after he

theorem distinct_run {events : List Event} (h : ∀ e ∈ events, e.Distinct) : (run events).scene.Distinct := by
  induction events using List.reverseRecOn with
  | nil => exact ⟨by rfl, by simp [run]⟩
  | append_singleton events e ih =>
    rw [run_append]
    exact distinct_step (ih fun e he => h e (List.mem_append_left _ he)) (h e (by simp))

/-! ## The fingerprint that is kept -/

/-- Until a failure, the fingerprint of the last frame is that of the scene. -/
def UpToDate (p : Playback) : Prop := p.finished = false → p.shown.getD emptyFingerprint = p.scene.fingerprint

theorem UpToDate.step (h : p.UpToDate) (e : Event) : (p.step e).UpToDate := by
  obtain ⟨-, hstep⟩ | ⟨hrunning, ⟨-, hstep⟩ | ⟨-, hstep⟩ | ⟨-, hstep⟩ | ⟨-, hstep⟩⟩ := step_cases p e
  · rwa [hstep]
  · rw [hstep]
    intro hfinished
    cases hfinished
  · rwa [hstep]
  · rwa [hstep]
  · rw [hstep]
    intro _
    cases hshows : p.shows e (p.scene.after e).scene with
    | true =>
      rw [apply_of_shows hshows]
      rfl
    | false =>
      -- no frame: the event left the fingerprint as it was
      have hsame : (p.scene.after e).scene.fingerprint = p.shown.getD emptyFingerprint := by
        simp only [shows, Bool.or_eq_false_iff, bne_eq_false_iff_eq] at hshows
        exact hshows.2
      rw [apply_of_not_shows hshows]
      exact hsame.symm

theorem upToDate_run (events : List Event) : (run events).UpToDate := by
  induction events using List.reverseRecOn with
  | nil => exact fun _ => rfl
  | append_singleton events e ih =>
    rw [run_append]
    exact ih.step e

/-! ## Frames -/

theorem exists_frame_of_shows (hshows : p.shows e (p.scene.after e).scene = true) :
    ∃ f, (p.apply e).frames = p.frames ++ [f] :=
  ⟨p.picture e (p.scene.after e), by rw [apply_of_shows hshows]⟩

theorem step_eq_apply (hrunning : p.finished = false) (h : e.kind.isSignificant = true ∨ e.kind.isWrite = true) :
    p.step e = p.apply e := by
  obtain ⟨hfinished, -⟩ | ⟨-, ⟨hk, -⟩ | ⟨hk, -⟩ | ⟨⟨_, hk⟩, -⟩ | ⟨-, hstep⟩⟩ := step_cases p e
  · rw [hrunning] at hfinished
    cases hfinished
  · rw [hk] at h
    rcases h with h | h <;> cases h
  · rw [hk] at h
    rcases h with h | h <;> cases h
  · rw [hk] at h
    rcases h with h | h <;> cases h
  · exact hstep

theorem shows_of_isSignificant (h : e.kind.isSignificant = true) (s : Scene) : p.shows e s = true := by
  rw [shows, h, Bool.true_or, Bool.true_or]

/-- A write is shown after a test, and if it changes what is seen. -/
theorem shows_of_isWrite (hrunning : p.finished = false) (hup : p.UpToDate) (hp : p.scene.Distinct) (he : e.Distinct)
    (h : e.kind.isWrite = true) : p.shows e (p.scene.after e).scene = true ↔
      p.pending.isSome = true ∨ ¬ (p.scene.after e).scene.LooksLike p.scene := by
  have hsignificant : e.kind.isSignificant = false := by
    cases hk : e.kind <;> simp_all [Kind.isSignificant, Kind.isWrite]
  rw [shows, hsignificant, h, Bool.false_or, Bool.and_true, Bool.or_eq_true, bne_iff_ne, hup hrunning, ne_eq,
    Scene.fingerprint_eq_fingerprint (hp.after he) hp]

/-- Which events give a frame, and that they give one. -/
structure FramesExact (p : Playback) (e : Event) : Prop where
  significant : e.kind.isSignificant = true → ∃ f, (p.step e).frames = p.frames ++ [f]
  write : e.kind.isWrite = true → (p.pending.isSome = true ∨ ¬ (p.scene.after e).scene.LooksLike p.scene) →
    ∃ f, (p.step e).frames = p.frames ++ [f]
  sameWrite : e.kind.isWrite = true → ¬ (p.pending.isSome = true ∨ ¬ (p.scene.after e).scene.LooksLike p.scene) →
    (p.step e).frames = p.frames
  informational : (e.kind = .test ∨ ∃ word, e.kind = .note word) → (p.step e).frames = p.frames

theorem framesExact (hrunning : p.finished = false) (hup : p.UpToDate) (hp : p.scene.Distinct) (he : e.Distinct) :
    p.FramesExact e where
  significant h := by
    rw [step_eq_apply hrunning (.inl h)]
    exact exists_frame_of_shows (shows_of_isSignificant h _)
  write h hshown := by
    rw [step_eq_apply hrunning (.inr h)]
    exact exists_frame_of_shows ((shows_of_isWrite hrunning hup hp he h).2 hshown)
  sameWrite h hsame := by
    have hshows : p.shows e (p.scene.after e).scene = false := by
      rw [← Bool.not_eq_true, shows_of_isWrite hrunning hup hp he h]
      exact hsame
    rw [step_eq_apply hrunning (.inr h), apply_of_not_shows hshows]
  informational h := by
    unfold step
    rw [hrunning, if_neg (by decide)]
    rcases h with h | ⟨word, h⟩
    · rw [h]
    · rw [h]

/-! ## Events that tell nothing -/

/-- For information only, or a write of the values that the variables have, with no test waiting. -/
def Redundant (p : Playback) (e : Event) : Prop :=
  (∃ word, e.kind = .note word) ∨
    e.kind.isWrite = true ∧ p.pending = none ∧ ∀ f ∈ e.locals, Fields.get? f.1 p.scene.variables = some f.2

/-- The events of a run that are left when those that tell nothing are deleted. -/
inductive Prunes : Playback → List Event → List Event → Prop
  | nil (p : Playback) : Prunes p [] []
  | drop {p : Playback} {e : Event} {events kept : List Event} :
    p.Redundant e → Prunes (p.step e) events kept → Prunes p (e :: events) kept
  | keep {p : Playback} {e : Event} {events kept : List Event} :
    ¬ p.Redundant e → Prunes (p.step e) events kept → Prunes p (e :: events) (e :: kept)

theorem exists_prunes (p : Playback) (events : List Event) : ∃ kept, Prunes p events kept := by
  induction events generalizing p with
  | nil => exact ⟨[], .nil p⟩
  | cons e events ih =>
    obtain ⟨kept, hkept⟩ := ih (p.step e)
    by_cases h : p.Redundant e
    · exact ⟨kept, .drop h hkept⟩
    · exact ⟨e :: kept, .keep h hkept⟩

/-- An event that tells nothing changes nothing. -/
theorem step_of_redundant (hup : p.UpToDate) (h : p.Redundant e) : p.step e = p := by
  obtain ⟨-, hstep⟩ | ⟨hrunning, hcase⟩ := step_cases p e
  · exact hstep
  rcases h with ⟨word, hnote⟩ | ⟨hwrite, hpending, hvalues⟩
  · unfold step
    rw [hrunning, if_neg (by decide), hnote]
  · have hscene : (p.scene.after e).scene = p.scene := by
      have hkind : e.kind = .declare ∨ e.kind = .assign := by
        cases hk : e.kind <;> simp_all [Kind.isWrite]
      have hafter : (p.scene.after e).scene = p.scene.write e.locals := by
        rcases hkind with hk | hk <;> rw [Scene.after, hk]
      rw [hafter, Scene.write_of_same hvalues]
    have hsignificant : e.kind.isSignificant = false := by
      cases hk : e.kind <;> simp_all [Kind.isSignificant, Kind.isWrite]
    have hshows : p.shows e (p.scene.after e).scene = false := by
      rw [shows, hsignificant, hpending, hscene, hup hrunning]
      simp
    rw [step_eq_apply hrunning (.inr hwrite), apply_of_not_shows hshows, hscene]

theorem foldl_prunes {events kept : List Event} (hup : p.UpToDate) (h : Prunes p events kept) :
    kept.foldl step p = events.foldl step p := by
  induction h with
  | nil => rfl
  | @drop p e events kept hredundant _ ih =>
    have hsame := step_of_redundant hup hredundant
    rw [List.foldl_cons, hsame]
    rw [hsame] at ih
    exact ih hup
  | keep _ _ ih => exact ih (hup.step _)

/-- In every state of a run that has not failed, the fingerprint that is kept is that of the scene; calls, ends of
calls and printed lines give one frame each, writes if a test waits or what is seen changes, and information none. The
frames stay the same when the events that tell nothing are deleted. -/
theorem frames_exact (events : List Event) (h : ∀ e ∈ events, e.Distinct) :
    ((run events).finished = false →
      (run events).shown.getD emptyFingerprint = (run events).scene.fingerprint ∧
        ∀ e, e.Distinct → (run events).FramesExact e) ∧
      (∃ kept, Prunes {} events kept) ∧ ∀ kept, Prunes {} events kept → playback kept = playback events := by
  refine ⟨fun hrunning => ⟨upToDate_run events hrunning, fun e he => ?_⟩, exists_prunes {} events, fun kept hkept => ?_⟩
  · exact framesExact hrunning (upToDate_run events) (distinct_run h) he
  · exact congrArg Playback.frames (foldl_prunes (upToDate_run []) hkept)

/-- A variable that is written twice with one value, and a loop. -/
def repeatedEvents : List Event :=
  [{ kind := .declare, locals := [("x", .int 1)] }, { kind := .note "loop" }, { kind := .assign, locals := [("x", .int 1)] }]

theorem frames_exact_repeated : (∀ e ∈ repeatedEvents, e.Distinct) ∧
    Prunes {} repeatedEvents [{ kind := .declare, locals := [("x", .int 1)] }] ∧
    playback [{ kind := .declare, locals := [("x", .int 1)] }] = playback repeatedEvents := by
  have hdistinct : ∀ e ∈ repeatedEvents, e.Distinct := by
    simp only [repeatedEvents, List.mem_cons, List.not_mem_nil, or_false]
    rintro e (rfl | rfl | rfl)
    · exact ⟨by rfl, by rfl⟩
    · exact ⟨by rfl, by rfl⟩
    · exact ⟨by rfl, by rfl⟩
  have hpruned : Prunes {} repeatedEvents [{ kind := .declare, locals := [("x", .int 1)] }] := by
    refine .keep ?_ (.drop (.inl ⟨"loop", rfl⟩) (.drop (.inr ⟨rfl, ?_, ?_⟩) (.nil _)))
    · simp [Redundant, Scene.variables, Fields.get?]
    · rfl
    · intro f hf
      rw [List.mem_singleton.1 hf]
      rfl
  exact ⟨hdistinct, hpruned, (frames_exact repeatedEvents hdistinct).2.2 _ hpruned⟩

end Playback

end ScriptTrace
