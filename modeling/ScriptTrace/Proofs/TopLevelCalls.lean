import ScriptTrace.Proofs.Scopes
import ScriptTrace.Trace.Run

/-!
# Top-level calls and the run they select

The counter of open calls never goes below zero, so it says how many calls are open after any events, with
however many ends too few or too many. A call is at the top level exactly if no call was open before it, and the
run that is shown starts at the last such call.

* `length_openPositions` : the counter counts the open calls;
* `topLevelCalls_concat`, `topLevelCalls_append` : the top-level calls after more events;
* `selectRun_eq_drop`, `topLevelCalls_selectRun` : the selected run has one top-level call, its first event;
* `selectRun_laws` : all of it.
-/

namespace ScriptTrace

/-! ## The counter -/

theorem openCalls_concat (events : List Event) (e : Event) :
    openCalls (events ++ [e]) = openAfter (openCalls events) e := by
  rw [openCalls, List.foldl_append]
  rfl

theorem openAfter_eq (depth : Nat) (e : Event) : openAfter depth e =
    if e.kind = .call then depth + 1 else if e.kind.isClosing then depth - 1 else depth := by
  unfold openAfter
  cases e.kind <;> rfl

theorem length_openPositions (events : List Event) : (openPositions events).length = openCalls events := by
  induction events using List.reverseRecOn with
  | nil => rfl
  | append_singleton events e ih =>
    rw [← List.length_reverse] at ih ⊢
    rw [openPositions_reverse_append, openCalls_concat, openAfter_eq, ← ih]
    split
    · rfl
    · split
      · exact List.length_tail
      · rfl

theorem openPositions_eq_nil_iff (events : List Event) : openPositions events = [] ↔ openCalls events = 0 := by
  rw [← length_openPositions, List.length_eq_zero_iff]

/-- After events that leave no call open, the counter starts afresh. -/
theorem openCalls_append {first : List Event} (h : openCalls first = 0) (second : List Event) :
    openCalls (first ++ second) = openCalls second := by
  rw [openCalls, List.foldl_append, ← openCalls, h, openCalls]

/-- Without a call none is open. -/
theorem openCalls_eq_zero {events : List Event} (h : ∀ e ∈ events, e.kind ≠ .call) : openCalls events = 0 := by
  induction events using List.reverseRecOn with
  | nil => rfl
  | append_singleton events e ih =>
    rw [openCalls_concat, ih fun a ha => h a (List.mem_append_left _ ha), openAfter_eq, if_neg (h e (by simp))]
    split <;> rfl

/-! ## Positions -/

theorem topLevelFrom_append (depth index : Nat) (first second : List Event) :
    topLevelFrom depth index (first ++ second) =
      topLevelFrom depth index first ++ topLevelFrom (first.foldl openAfter depth) (index + first.length) second := by
  induction first generalizing depth index with
  | nil => rfl
  | cons e first ih =>
    have hindex : index + (e :: first).length = index + 1 + first.length := by
      rw [List.length_cons]
      omega
    rw [List.cons_append, topLevelFrom, topLevelFrom, ih, List.foldl_cons, hindex]
    cases startsRun depth e <;> rfl

theorem topLevelFrom_shift (depth index : Nat) (events : List Event) :
    topLevelFrom depth index events = (topLevelFrom depth 0 events).map (· + index) := by
  induction events generalizing depth index with
  | nil => rfl
  | cons e events ih =>
    have hrest : topLevelFrom (openAfter depth e) (index + 1) events =
        (topLevelFrom (openAfter depth e) (0 + 1) events).map (· + index) := by
      rw [ih _ (index + 1), ih _ (0 + 1), List.map_map]
      refine List.map_congr_left fun i _ => ?_
      simp only [Function.comp_apply]
      omega
    rw [topLevelFrom, topLevelFrom, hrest]
    cases startsRun depth e with
    | false => rfl
    | true => simp

theorem topLevelCalls_concat (events : List Event) (e : Event) : topLevelCalls (events ++ [e]) =
    topLevelCalls events ++ if startsRun (openCalls events) e then [events.length] else [] := by
  rw [topLevelCalls, topLevelFrom_append, Nat.zero_add]
  rfl

/-- After events that leave no call open, the positions are counted on. -/
theorem topLevelCalls_append {first : List Event} (h : openCalls first = 0) (second : List Event) :
    topLevelCalls (first ++ second) = topLevelCalls first ++ (topLevelCalls second).map (· + first.length) := by
  rw [topLevelCalls, topLevelFrom_append, ← openCalls, h, topLevelFrom_shift 0 (0 + first.length), Nat.zero_add]
  rfl

theorem startsRun_iff (depth : Nat) (e : Event) : startsRun depth e = true ↔ e.kind = .call ∧ depth = 0 := by
  rw [startsRun, Bool.and_eq_true, beq_iff_eq, beq_iff_eq]

theorem lt_of_mem_topLevelCalls {events : List Event} {i : Nat} (h : i ∈ topLevelCalls events) : i < events.length := by
  induction events using List.reverseRecOn with
  | nil => cases h
  | append_singleton events e ih =>
    rw [topLevelCalls_concat, List.mem_append] at h
    rw [List.length_append, List.length_singleton]
    rcases h with h | h
    · exact Nat.lt_succ_of_lt (ih h)
    · split at h
      · rw [List.mem_singleton.1 h]
        exact Nat.lt_succ_self _
      · cases h

theorem pairwise_topLevelCalls (events : List Event) : (topLevelCalls events).Pairwise (· < ·) := by
  induction events using List.reverseRecOn with
  | nil => exact .nil
  | append_singleton events e ih =>
    rw [topLevelCalls_concat, List.pairwise_append]
    refine ⟨ih, by split <;> simp, fun i hi j hj => ?_⟩
    split at hj
    · rw [List.mem_singleton.1 hj]
      exact lt_of_mem_topLevelCalls hi
    · cases hj

/-- A position is listed exactly if a call stands there and no call is open before it. -/
theorem mem_topLevelCalls (events : List Event) (i : Nat) : i ∈ topLevelCalls events ↔
    (∃ e, events[i]? = some e ∧ e.kind = .call) ∧ openCalls (events.take i) = 0 := by
  induction events using List.reverseRecOn with
  | nil => simp [topLevelCalls, topLevelFrom]
  | append_singleton events e ih =>
    have hnew : i ∈ (if startsRun (openCalls events) e then [events.length] else []) ↔
        i = events.length ∧ e.kind = .call ∧ openCalls events = 0 := by
      rw [← startsRun_iff]
      split <;> simp_all
    rw [topLevelCalls_concat, List.mem_append, ih, hnew]
    rcases Nat.lt_trichotomy i events.length with hlt | rfl | hgt
    · rw [List.getElem?_append_left hlt, List.take_append_of_le_length (Nat.le_of_lt hlt)]
      exact or_iff_left fun h => absurd h.1 (Nat.ne_of_lt hlt)
    · simp
    · have hlength : (events ++ [e]).length ≤ i := by
        rw [List.length_append, List.length_singleton]
        exact hgt
      simp [List.getElem?_eq_none (Nat.le_of_lt hgt), List.getElem?_eq_none hlength, Nat.ne_of_gt hgt]

theorem topLevelCalls_eq_nil_iff (events : List Event) :
    topLevelCalls events = [] ↔ ∀ e ∈ events, e.kind ≠ .call := by
  induction events using List.reverseRecOn with
  | nil => exact iff_of_true rfl (by simp)
  | append_singleton events e ih =>
    rw [topLevelCalls_concat, List.append_eq_nil_iff, ih, List.forall_mem_append]
    refine and_congr_right fun hnone => ?_
    rw [openCalls_eq_zero hnone]
    simp [startsRun]

/-! ## The selected run -/

theorem selectRun_eq_self {events : List Event} (h : ∀ e ∈ events, e.kind ≠ .call) : selectRun events = events := by
  rw [selectRun, (topLevelCalls_eq_nil_iff events).2 h]
  rfl

/-- With a call, the run starts at the last top-level call. -/
theorem selectRun_eq_drop {events : List Event} (h : ∃ e ∈ events, e.kind = .call) :
    ∃ start, (topLevelCalls events).getLast? = some start ∧ selectRun events = events.drop start := by
  cases hlast : (topLevelCalls events).getLast? with
  | none =>
    obtain ⟨e, he, hcall⟩ := h
    exact absurd hcall ((topLevelCalls_eq_nil_iff events).1 (List.getLast?_eq_none_iff.1 hlast) e he)
  | some start => exact ⟨start, rfl, by rw [selectRun, hlast]⟩

theorem selectRun_suffix (events : List Event) : selectRun events <:+ events := by
  unfold selectRun
  split
  · exact List.drop_suffix _ _
  · exact List.suffix_refl events

theorem selectRun_eq_self_iff (events : List Event) : selectRun events = events ↔
    (∀ e ∈ events, e.kind ≠ .call) ∨ (topLevelCalls events).getLast? = some 0 := by
  by_cases h : ∃ e ∈ events, e.kind = .call
  · have hsome : ¬ ∀ e ∈ events, e.kind ≠ .call := fun hnone => h.elim fun e he => hnone e he.1 he.2
    obtain ⟨start, hlast, hdrop⟩ := selectRun_eq_drop h
    have hlt : start < events.length := lt_of_mem_topLevelCalls (List.mem_of_getLast? hlast)
    rw [hdrop, hlast, or_iff_right hsome, Option.some_inj]
    constructor
    · intro hself
      have hlength := congrArg List.length hself
      rw [List.length_drop] at hlength
      omega
    · rintro rfl
      rfl
  · have hnone : ∀ e ∈ events, e.kind ≠ .call := fun e he hcall => h ⟨e, he, hcall⟩
    exact iff_of_true (selectRun_eq_self hnone) (.inl hnone)

/-- With a call, the run starts with a call, and no other call in it is at the top level. -/
theorem topLevelCalls_selectRun {events : List Event} (h : ∃ e ∈ events, e.kind = .call) :
    (∃ e rest, selectRun events = e :: rest ∧ e.kind = .call) ∧ topLevelCalls (selectRun events) = [0] := by
  obtain ⟨start, hlast, hdrop⟩ := selectRun_eq_drop h
  obtain ⟨⟨e, he, hcall⟩, hzero⟩ := (mem_topLevelCalls events start).1 (List.mem_of_getLast? hlast)
  obtain ⟨hlt, hget⟩ := List.getElem?_eq_some_iff.1 he
  have hcons : selectRun events = e :: events.drop (start + 1) := by
    rw [hdrop, List.drop_eq_getElem_cons hlt, hget]
  refine ⟨⟨e, _, hcons, hcall⟩, ?_⟩
  have hsplit : topLevelCalls events =
      topLevelCalls (events.take start) ++ (topLevelCalls (selectRun events)).map (· + start) := by
    have hlength : (events.take start).length = start := List.length_take_of_le (Nat.le_of_lt hlt)
    have := topLevelCalls_append hzero (events.drop start)
    rwa [List.take_append_drop, ← hdrop, hlength] at this
  -- the first position is the first one of the run, and `start` is the last of all
  obtain ⟨others, hothers⟩ : ∃ others, topLevelCalls (selectRun events) = 0 :: others := by
    rw [hcons, topLevelCalls, topLevelFrom, if_pos ((startsRun_iff 0 e).2 ⟨hcall, rfl⟩)]
    exact ⟨_, rfl⟩
  have hincreasing := pairwise_topLevelCalls (selectRun events)
  rw [hothers] at hincreasing ⊢
  rw [hsplit, hothers, List.map_cons, List.getLast?_append, List.getLast?_cons] at hlast
  cases others using List.reverseRecOn with
  | nil => rfl
  | append_singleton others i _ =>
    have hpos : 0 < i := (List.pairwise_cons.1 hincreasing).1 i (by simp)
    simp only [List.map_append, List.map_cons, List.map_nil, List.getLast?_append, List.getLast?_singleton,
      Option.some_or, Option.getD_some, Option.some.injEq] at hlast
    omega

theorem selectRun_selectRun (events : List Event) : selectRun (selectRun events) = selectRun events := by
  by_cases h : ∃ e ∈ events, e.kind = .call
  · refine (selectRun_eq_self_iff _).2 (.inr ?_)
    rw [(topLevelCalls_selectRun h).2]
    rfl
  · rw [selectRun_eq_self fun e he hcall => h ⟨e, he, hcall⟩]
    exact selectRun_eq_self fun e he hcall => h ⟨e, he, hcall⟩

/-- Events before a run with a call count for nothing if they leave no call open. -/
theorem selectRun_append {first second : List Event} (hclosed : openCalls first = 0) (h : ∃ e ∈ second, e.kind = .call) :
    selectRun (first ++ second) = selectRun second := by
  obtain ⟨start, hlast, hdrop⟩ := selectRun_eq_drop h
  rw [hdrop, selectRun, topLevelCalls_append hclosed, List.getLast?_append, List.getLast?_map, hlast, Option.map_some,
    Option.some_or]
  simp only
  rw [Nat.add_comm, ← List.drop_drop, List.drop_left]

/-- The listed positions are in increasing order those of the calls that stand in no open call, and they are counted on
after events that leave no call open. The selected run is a suffix; all events if none is a call, or if the last
top-level call comes first; with a call it starts with one, its only top-level call; it is its own selected run, and
events before it that leave no call open count for nothing. -/
theorem selectRun_laws (events first second : List Event) :
    (topLevelCalls events).Pairwise (· < ·) ∧
      (∀ i, i ∈ topLevelCalls events ↔
        (∃ e, events[i]? = some e ∧ e.kind = .call) ∧ openPositions (events.take i) = []) ∧
      (openPositions first = [] →
        topLevelCalls (first ++ second) = topLevelCalls first ++ (topLevelCalls second).map (· + first.length)) ∧
      selectRun events <:+ events ∧
      (selectRun events = events ↔
        (∀ e ∈ events, e.kind ≠ .call) ∨ (topLevelCalls events).getLast? = some 0) ∧
      ((∃ e ∈ events, e.kind = .call) →
        (∃ e rest, selectRun events = e :: rest ∧ e.kind = .call) ∧ topLevelCalls (selectRun events) = [0]) ∧
      selectRun (selectRun events) = selectRun events ∧
      (openPositions first = [] → (∃ e ∈ second, e.kind = .call) → selectRun (first ++ second) = selectRun second) := by
  refine ⟨pairwise_topLevelCalls events, fun i => ?_, fun hclosed => ?_, selectRun_suffix events,
    selectRun_eq_self_iff events, topLevelCalls_selectRun, selectRun_selectRun events, fun hclosed hcall => ?_⟩
  · rw [mem_topLevelCalls, openPositions_eq_nil_iff]
  · exact topLevelCalls_append ((openPositions_eq_nil_iff first).1 hclosed) second
  · exact selectRun_append ((openPositions_eq_nil_iff first).1 hclosed) hcall

/-- An end that closes nothing, a call with a call in it, and a call that has not ended. -/
def twoRuns : List Event :=
  [{ kind := .ret }, { kind := .call }, { kind := .call }, { kind := .throw }, { kind := .ret }, { kind := .call }]

theorem selectRun_laws_twoRuns : openPositions (twoRuns.take 5) = [] ∧ (∃ e ∈ twoRuns, e.kind = .call) ∧
    topLevelCalls twoRuns = [1, 5] ∧ topLevelCalls (selectRun twoRuns) = [0] ∧
    selectRun (twoRuns.take 5 ++ twoRuns) = selectRun twoRuns := by
  have hcall : ∃ e ∈ twoRuns, e.kind = .call := ⟨{ kind := .call }, by simp [twoRuns], rfl⟩
  have hclosed : openPositions (twoRuns.take 5) = [] := by decide
  obtain ⟨-, -, -, -, -, hone, -, hlater⟩ := selectRun_laws twoRuns (twoRuns.take 5) twoRuns
  exact ⟨hclosed, hcall, by decide, (hone hcall).2, hlater hclosed hcall⟩

end ScriptTrace
