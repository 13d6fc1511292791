import ScriptTrace.Proofs.TopLevelCalls

/-!
# The depth of the stack

The run that is shown is selected with a counter of open calls, and played back with a stack of them. Both
stop at zero, so they agree after any events, even though the stack is empty where the run starts.

* `Playback.length_stack_run` : the stack is as deep as the counter says;
* `exists_append_selectRun` : the events before the selected run leave no call open;
* `Playback.exists_later_frames` : where the frames of calls come from;
* `Playback.stack_depths` : the frames of the selected run.
-/

namespace ScriptTrace

/-! ## Depths within the selected run -/

/-- The events before the selected run leave no call open. -/
theorem exists_append_selectRun (events : List Event) :
    ∃ before, before ++ selectRun events = events ∧ openCalls before = 0 := by
  by_cases h : ∃ e ∈ events, e.kind = .call
  · obtain ⟨start, hlast, hdrop⟩ := selectRun_eq_drop h
    refine ⟨events.take start, by rw [hdrop, List.take_append_drop], ?_⟩
    exact ((mem_topLevelCalls events start).1 (List.mem_of_getLast? hlast)).2
  · exact ⟨[], selectRun_eq_self fun e he hcall => h ⟨e, he, hcall⟩, rfl⟩

/-- The counter within the selected run is the one at the same position of all events. -/
theorem openCalls_take_selectRun (events : List Event) (n : Nat) : openCalls ((selectRun events).take n) =
    openCalls (events.take (events.length - (selectRun events).length + n)) := by
  obtain ⟨before, hsplit, hclosed⟩ := exists_append_selectRun events
  have hlength : events.length - (selectRun events).length = before.length := by
    have := congrArg List.length hsplit
    rw [List.length_append] at this
    omega
  have htake : events.take (before.length + n) = before ++ (selectRun events).take n := by
    conv => lhs; rw [← hsplit]
    exact List.take_length_add_append n
  rw [hlength, htake, openCalls_append hclosed]

theorem openCalls_take_succ {events : List Event} {n : Nat} {e : Event} (h : events[n]? = some e) :
    openCalls (events.take (n + 1)) = openAfter (openCalls (events.take n)) e := by
  rw [List.take_add_one, h, Option.toList_some, openCalls_concat]

section OneTopLevelCall

variable {events : List Event} (hone : topLevelCalls events = [0])

include hone

/-- A later call is made within another one. -/
theorem openCalls_pos_of_later_call {n : Nat} {e : Event} (hn : 0 < n) (he : events[n]? = some e)
    (hcall : e.kind = .call) : 0 < openCalls (events.take n) := by
  refine Nat.pos_of_ne_zero fun hzero => ?_
  have hmem : n ∈ topLevelCalls events := (mem_topLevelCalls events n).2 ⟨⟨e, he, hcall⟩, hzero⟩
  rw [hone, List.mem_singleton] at hmem
  omega

/-- Once no call is open, none is opened any more. -/
theorem openCalls_stays_zero {m n : Nat} (hm : 0 < m) (hle : m ≤ n) (hzero : openCalls (events.take m) = 0) :
    openCalls (events.take n) = 0 := by
  induction hle with
  | refl => exact hzero
  | @step n hle ih =>
    cases he : events[n]? with
    | none =>
      have hall : events.length ≤ n := List.getElem?_eq_none_iff.1 he
      rwa [List.take_of_length_le (Nat.le_succ_of_le hall), ← List.take_of_length_le hall]
    | some e =>
      have hcall : e.kind ≠ .call := fun hcall =>
        absurd ih (Nat.ne_of_gt (openCalls_pos_of_later_call hone (Nat.lt_of_lt_of_le hm hle) he hcall))
      rw [openCalls_take_succ he, ih, openAfter_eq, if_neg hcall]
      split <;> rfl

end OneTopLevelCall

/-! ## Frames of calls -/

/-- Whether a frame shows a call, with or without a test before it. -/
def Frame.isCall (f : Frame) : Bool := f.action == "call" || f.action == "call (after test)"

namespace Playback

theorem length_stack_run {events : List Event} (h : ∀ e ∈ events, e.kind ≠ .error) :
    (run events).scene.stack.length = openCalls events := by
  rw [← length_openPositions, ← List.length_reverse]
  exact (run_scene h).2.stack.length_eq.symm

theorem kind_of_isCall_picture {p : Playback} {e : Event} {c : Change}
    (hkind : e.kind.isSignificant = true ∨ e.kind.isWrite = true) (h : (p.picture e c).isCall = true) : e.kind = .call := by
  have haction : (p.picture e c).action = e.kind.word ∨ (p.picture e c).action = e.kind.word ++ " (after test)" := by
    unfold picture action
    split
    · exact .inr rfl
    · exact .inl rfl
  unfold Frame.isCall at h
  rcases haction with haction | haction
  · rw [haction] at h
    cases hk : e.kind <;> rw [hk] at hkind h <;> revert hkind h <;> simp [Kind.isSignificant, Kind.isWrite, Kind.word]
  · rw [haction] at h
    cases hk : e.kind <;> rw [hk] at hkind h <;> revert hkind h <;> simp [Kind.isSignificant, Kind.isWrite, Kind.word]

/-- Only a call gives a frame of a call, and the frame has the stack after it. -/
theorem frames_step_of_ne_error {p : Playback} {e : Event} (hkind : e.kind ≠ .error) :
    ∃ new, (p.step e).frames = p.frames ++ new ∧
      ∀ f ∈ new, f.stack = (p.step e).scene.stack ∧ (f.isCall = true → e.kind = .call) := by
  have hnone (s : Scene) : ∃ new, p.frames = p.frames ++ new ∧
      ∀ f ∈ new, f.stack = s.stack ∧ (f.isCall = true → e.kind = .call) := ⟨[], (List.append_nil _).symm, by simp⟩
  obtain ⟨-, hstep⟩ | ⟨-, ⟨herror, -⟩ | ⟨-, hstep⟩ | ⟨-, hstep⟩ | ⟨hshown, hstep⟩⟩ := step_cases p e
  · rw [hstep]
    exact hnone _
  · exact absurd herror hkind
  · rw [hstep]
    exact hnone _
  · rw [hstep]
    exact hnone _
  · rw [hstep]
    cases hshows : p.shows e (p.scene.after e).scene with
    | false =>
      rw [apply_of_not_shows hshows]
      exact hnone _
    | true =>
      rw [apply_of_shows hshows]
      refine ⟨[p.picture e (p.scene.after e)], rfl, fun f hf => ?_⟩
      rw [List.mem_singleton.1 hf]
      exact ⟨rfl, kind_of_isCall_picture hshown⟩

/-- The frames of calls that later events add: each is of a call among them, and has the stack after it. -/
theorem exists_later_frames (past later : List Event) (h : ∀ e ∈ later, e.kind ≠ .error) :
    ∃ new, (run (past ++ later)).frames = (run past).frames ++ new ∧ ∀ f ∈ new, f.isCall = true →
      ∃ n e, past.length ≤ n ∧ (past ++ later)[n]? = some e ∧ e.kind = .call ∧
        f.stack = (run ((past ++ later).take (n + 1))).scene.stack := by
  induction later using List.reverseRecOn with
  | nil => exact ⟨[], by simp, by simp⟩
  | append_singleton later e ih =>
    obtain ⟨new, hnew, hcalls⟩ := ih fun e he => h e (List.mem_append_left _ he)
    obtain ⟨last, hlast, hstack⟩ := frames_step_of_ne_error (p := run (past ++ later)) (h e (by simp))
    refine ⟨new ++ last, ?_, fun f hf hcall => ?_⟩
    · rw [← List.append_assoc, run_append, hlast, hnew, List.append_assoc]
    rw [← List.append_assoc]
    rcases List.mem_append.1 hf with hf | hf
    · obtain ⟨n, call, hle, hget, hkind, heq⟩ := hcalls f hf hcall
      have hlt : n < (past ++ later).length := (List.getElem?_eq_some_iff.1 hget).1
      exact ⟨n, call, hle, by rw [List.getElem?_append_left hlt, hget], hkind,
        by rw [heq, List.take_append_of_le_length hlt]⟩
    · refine ⟨(past ++ later).length, e, by simp, by simp, (hstack f hf).2 hcall, ?_⟩
      have hall : (past ++ later ++ [e]).take ((past ++ later).length + 1) = past ++ later ++ [e] :=
        List.take_of_length_le (Nat.le_of_eq List.length_append)
      rw [(hstack f hf).1, hall, run_append]

/-- A call that comes first gives one frame. -/
theorem frames_of_first_call {e : Event} (h : e.kind = .call) :
    ∃ f, (run [e]).frames = [f] ∧ f.action = "call" ∧ f.stack.length = 1 := by
  have hshows : shows {} e (Scene.after {} e).scene = true := by rw [shows, h]; rfl
  refine ⟨picture {} e (Scene.after {} e), ?_, ?_, ?_⟩
  · rw [run, List.foldl_cons, List.foldl_nil, step, if_neg (by decide), h]
    exact congrArg frames (apply_of_shows hshows)
  · rw [picture, action, if_neg (by decide), h]
    rfl
  · rw [picture, Scene.after, h]
    rfl

/-- Without a failure, the stack after any events is as deep as the counter of open calls says. So if there is a call,
the first frame of the selected run is of a call, with one call open; the later ones of calls have two at least; the
depth within the run is that of the counter at the same position of all events; and once the stack is empty, it stays
empty. -/
theorem stack_depths (events : List Event) (h : ∀ e ∈ events, e.kind ≠ .error) :
    (∀ n, (run (events.take n)).scene.stack.length = openCalls (events.take n)) ∧
      ((∃ e ∈ events, e.kind = .call) →
        (∃ first later, playback (selectRun events) = first :: later ∧ first.action = "call" ∧ first.stack.length = 1 ∧
          ∀ f ∈ later, f.isCall = true → 2 ≤ f.stack.length) ∧
        (∀ n, (run ((selectRun events).take n)).scene.stack.length =
          openCalls (events.take (events.length - (selectRun events).length + n))) ∧
        ∀ m n, 0 < m → m ≤ n → (run ((selectRun events).take m)).scene.stack = [] →
          (run ((selectRun events).take n)).scene.stack = []) := by
  have hdepth {part : List Event} (hpart : ∀ e ∈ part, e ∈ events) (n : Nat) :
      (run (part.take n)).scene.stack.length = openCalls (part.take n) :=
    length_stack_run fun e he => h e (hpart e (List.mem_of_mem_take he))
  have hrun : ∀ e ∈ selectRun events, e ∈ events := fun e he => (selectRun_suffix events).subset he
  refine ⟨hdepth fun _ he => he, fun hcall => ⟨?_, fun n => ?_, fun m n hm hle hempty => ?_⟩⟩
  · obtain ⟨⟨e, rest, hcons, hkind⟩, hone⟩ := topLevelCalls_selectRun hcall
    obtain ⟨first, hfirst, haction, hlength⟩ := frames_of_first_call hkind
    obtain ⟨later, hlater, hcalls⟩ := exists_later_frames [e] rest fun a ha =>
      h a (hrun a (by rw [hcons]; exact List.mem_cons_of_mem e ha))
    rw [List.singleton_append, ← hcons] at hlater hcalls
    refine ⟨first, later, ?_, haction, hlength, fun f hf hfcall => ?_⟩
    · rw [playback, hlater, hfirst, List.singleton_append]
    · obtain ⟨n, call, hn, hget, hcallkind, hstack⟩ := hcalls f hf hfcall
      have hpos := openCalls_pos_of_later_call hone hn hget hcallkind
      rw [hstack, hdepth hrun, openCalls_take_succ hget, openAfter_eq, if_pos hcallkind]
      omega
  · rw [hdepth hrun, openCalls_take_selectRun]
  · have hone := (topLevelCalls_selectRun hcall).2
    rw [← List.length_eq_zero_iff, hdepth hrun] at hempty ⊢
    exact openCalls_stays_zero hone hm hle hempty

theorem stack_depths_twoRuns : (∀ e ∈ twoRuns.take 5, e.kind ≠ .error) ∧ (∃ e ∈ twoRuns.take 5, e.kind = .call) ∧
    (∃ first later, playback (selectRun (twoRuns.take 5)) = first :: later ∧ first.action = "call" ∧
      first.stack.length = 1 ∧ ∀ f ∈ later, f.isCall = true → 2 ≤ f.stack.length) ∧
    (run ((selectRun (twoRuns.take 5)).take 4)).scene.stack = [] := by
  have hkinds : ∀ e ∈ twoRuns.take 5, e.kind ≠ .error := by decide
  have hcall : ∃ e ∈ twoRuns.take 5, e.kind = .call := ⟨{ kind := .call }, by simp [twoRuns], rfl⟩
  obtain ⟨hfirst, hdepth, -⟩ := (stack_depths (twoRuns.take 5) hkinds).2 hcall
  exact ⟨hkinds, hcall, hfirst, List.length_eq_zero_iff.1 ((hdepth 4).trans (by decide))⟩

end Playback

end ScriptTrace
