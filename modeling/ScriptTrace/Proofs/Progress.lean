import ScriptTrace.Proofs.VisitSteps

/-!
# A node on its way

The rule for a node works on its fields one after the other. `Progress` tells how far it has come; each
step on a field takes it further, and a node that has come to the end is what `Rewrites` tells.

* `Progress` : which fields are ready to be visited, visited, and framed;
* `Progress.prepare`, `Progress.visit`, `Progress.skip`, `Progress.frame` : what one step changes;
* `Progress.finish` : a node all fields of which have been dealt with.
-/

namespace ScriptTrace

open Rewriting Step

/-! ## Fields of a node -/

section Keys

variable {type key : String} {fields : Fields Json} {keys : List String}

theorem nodup_completed (hnd : (Fields.names fields).Nodup) : (Fields.names (completed type fields)).Nodup := by
  unfold completed
  split
  · next h =>
    rw [Fields.names, List.map_append, List.nodup_append]
    refine ⟨hnd, by simp, fun key hkey other hother => ?_⟩
    have hother : other = "argument" := by simpa using hother
    subst hother
    rintro rfl
    exact Fields.get?_eq_none.1 h.2 hkey
  · split
    · rw [Fields.names_set]
      split
      · exact hnd
      · next h =>
        rw [List.nodup_append]
        refine ⟨hnd, by simp, fun key hkey other hother => ?_⟩
        have hother : other = "expression" := by simpa using hother
        subst hother
        rintro rfl
        exact h hkey
    · exact hnd

/-- Types whose fields are visited as they stand. -/
theorem readyField_of_type (h : type ∉ "IfStatement" :: "ForStatement" :: (loopTypes ++ functionTypes)) (v : Json) :
    readyField type key v = v := by
  simp only [List.mem_cons, List.mem_append, not_or] at h
  simp [readyField, h]

/-- What a frame is made from beside the field itself: the condition. -/
theorem Rewriting.Frame.of_made {code : Option String} {classes : List Json} {up : Option Json} {made made' : Fields Json}
    {k : FrameKind} {v w : Json} (h : Frame code classes up type fields made k v w)
    (htest : Fields.get? "test" made' = Fields.get? "test" made) : Frame code classes up type fields made' k v w := by
  have hfield : Json.field "test" (.obj made') = Json.field "test" (.obj made) := by
    simp only [Json.field, Json.get?, htest]
  cases h with
  | same => exact .same _
  | result line _ hline => exact .result line _ hline
  | test line _ text hline htext => exact .test line _ text hline htext
  | printer _ h => exact .printer _ h
  | callee _ h => exact .callee _ h
  | printed line _ h hline => exact .printed line _ h hline
  | arguments _ h => exact .arguments _ h
  | iteration line _ probes hline hprobes => exact .iteration line _ probes hline hprobes
  | noInit _ h => exact .noInit _ h
  | initNothing _ h hnames => exact .initNothing _ h hnames
  | initDeclared line _ n names hline h hnames hne => exact .initDeclared line _ n names hline h hnames hne
  | initAssigned line _ targets hline h htargets hne => exact .initAssigned line _ targets hline h htargets hne
  | initShown line _ text hline h htargets htext => exact .initShown line _ text hline h htargets htext
  | noUpdate _ h => exact .noUpdate _ h
  | updateNothing _ h => exact .updateNothing _ h
  | updated line _ targets hline htargets hne => exact .updated line _ targets hline htargets hne
  | uncounted _ h => exact .uncounted _ h
  | counted line _ text hline h htext => exact .counted line _ text hline h (hfield ▸ htext)
  | function line endLine name _ params hline hend hname hparams =>
    exact .function line endLine name _ params hline hend hname hparams

end Keys

theorem isInert_iff {v : Json} (hlist : ∀ items, v ≠ .arr items) : v.isInert = true ↔ v.isNode = false := by
  cases v with
  | arr items => exact absurd rfl (hlist items)
  | _ => simp [Json.isInert]

/-- Visiting changes nothing where there are no nodes. -/
theorem Rewrites.of_inert {code : Option String} {classes : List Json} {up : Option Json} {v : Json}
    (h : v.isInert = true) : Rewrites code .visited classes up v v := by
  cases v with
  | arr items =>
    refine .items _ _ _ _ rfl (fun p hp hn => ?_) fun p hp _ => ?_
    · rw [isNode_of_mem_zip h hp] at hn
      cases hn
    · have hp : p ∈ items.zip items := hp
      rw [List.zip_eq_zipWith, List.zipWith_self] at hp
      obtain ⟨x, -, rfl⟩ := List.mem_map.1 hp
      rfl
  | obj fields => exact .value _ _ _ (by simpa [Json.isInert] using h) (by simp)
  | _ => exact .value _ _ _ rfl (by simp)

/-! ## Progress -/

/-- How far a node has come. `made` holds what has become of its fields before they are framed, and `fs`
the tree. A field is made ready, then visited, then framed. -/
structure Progress (code : Option String) (classes : List Json) (up : Option Json) (type : String) (name : Json)
    (fields made : Fields Json) (fs : Fields Tree) (ready done framed : List String) : Prop where
  names_made : Fields.names made = Fields.names (completed type fields)
  names_tree : Fields.names fs = Fields.names (completed type fields)
  /-- A field that has not been visited is plain. -/
  fresh : ∀ key ∉ done, Fields.get? key fs = (Fields.get? key made).map Tree.ofJson
  /-- It is what it was, or what it is visited as. -/
  waiting : ∀ key ∉ done, Fields.get? key made =
    Fields.get? key (if key ∈ ready then prepared type fields else completed type fields)
  visited : ∀ key ∈ done, ∀ v w, Fields.get? key (prepared type fields) = some v → Fields.get? key made = some w →
    Rewrites code (mode type fields key) (classesAt classes type key name) (some (.obj fields)) v w
  unframed : ∀ key ∈ done, key ∉ framed → (Fields.get? key fs).map Tree.bare = Fields.get? key made
  framed : ∀ key ∈ framed, ∀ w o, Fields.get? key made = some w → Fields.get? key fs = some o →
    Frame code classes up type fields made (frameKind type key) w o.bare

namespace Progress

variable {code : Option String} {classes : List Json} {up : Option Json} {type key : String} {name : Json}
  {fields made : Fields Json} {fs : Fields Tree} {ready done framed : List String}

theorem start (code : Option String) (classes : List Json) (up : Option Json) (type : String) (name : Json)
    (fields : Fields Json) : Progress code classes up type name fields (completed type fields)
      (Fields.mapValues .ofJson (completed type fields)) [] [] [] where
  names_made := rfl
  names_tree := Fields.names_mapValues ..
  fresh := fun key _ => Fields.get?_mapValues ..
  waiting := by simp
  visited := by simp
  unframed := by simp
  framed := by simp

/-- What stands in a field before it is framed. -/
theorem bare (h : Progress code classes up type name fields made fs ready done framed) (hkey : key ∉ framed) :
    (Fields.get? key fs).map Tree.bare = Fields.get? key made := by
  by_cases hdone : key ∈ done
  · exact h.unframed key hdone hkey
  · rw [h.fresh key hdone]
    cases Fields.get? key made <;> simp

theorem exists_tree (h : Progress code classes up type name fields made fs ready done framed) {w : Json}
    (hw : Fields.get? key made = some w) : ∃ t, Fields.get? key fs = some t :=
  Fields.exists_get?_of_names (h.names_tree.trans h.names_made.symm) hw

/-- A field of the node is made ready. -/
theorem prepare (key : String) (h : Progress code classes up type name fields made fs ready done framed) (hdone : key ∉ done)
    (hready : key ∉ ready) {v : Json} (hv : Fields.get? key made = some v)
    (hframed : framed = [] ∨ key ≠ "test" ∧ ∀ k ∈ framed, k ≠ key) :
    Progress code classes up type name fields (Fields.adjust key (readyField type key v) made)
      (Fields.adjust key (.ofJson (readyField type key v)) fs) (key :: ready) done framed where
  names_made := by rw [Fields.names_adjust, h.names_made]
  names_tree := by rw [Fields.names_adjust, h.names_tree]
  fresh := fun k hk => by
    rw [Fields.get?_adjust, Fields.get?_adjust, h.fresh k hk]
    split <;> cases Fields.get? k made <;> rfl
  waiting := fun k hk => by
    have hwait := h.waiting k hk
    rw [Fields.get?_adjust]
    by_cases he : k = key
    · subst he
      rw [if_neg hready] at hwait
      rw [if_pos rfl, if_pos List.mem_cons_self, get?_prepared_eq, ← hwait, hv]
      rfl
    · rw [if_neg he, hwait]
      simp [he]
  visited := fun k hk v' w hv' hw => by
    have he : k ≠ key := fun e => hdone (e ▸ hk)
    rw [Fields.get?_adjust, if_neg he] at hw
    exact h.visited k hk v' w hv' hw
  unframed := fun k hk hf => by
    have he : k ≠ key := fun e => hdone (e ▸ hk)
    rw [Fields.get?_adjust, Fields.get?_adjust, if_neg he, if_neg he]
    exact h.unframed k hk hf
  framed := fun k hk w o hw ho => by
    rcases hframed with rfl | ⟨htest, hframed⟩
    · cases hk
    · rw [Fields.get?_adjust, if_neg (hframed k hk)] at hw ho
      refine (h.framed k hk w o hw ho).of_made ?_
      rw [Fields.get?_adjust, if_neg (Ne.symm htest)]

/-- What a field is visited as. -/
theorem get?_prepared_of_made (h : Progress code classes up type name fields made fs ready done framed)
    (hdone : key ∉ done) {v : Json} (hv : Fields.get? key made = some v)
    (hready : key ∉ ready → readyField type key v = v) : Fields.get? key (prepared type fields) = some v := by
  have hwait := h.waiting key hdone
  rw [hv] at hwait
  split at hwait
  · exact hwait.symm
  · next hk => rw [get?_prepared_eq, ← hwait, Option.map_some, hready hk]

/-- A field is visited. -/
theorem visit (key : String) (h : Progress code classes up type name fields made fs ready done framed) (hdone : key ∉ done)
    (hframed : framed = [] ∨ key ≠ "test" ∧ ∀ k ∈ framed, k ≠ key) {v : Json} (hv : Fields.get? key made = some v)
    (hready : key ∉ ready → readyField type key v = v) {t : Tree}
    (hrw : Rewrites code (mode type fields key) (classesAt classes type key name) (some (.obj fields)) v t.bare) :
    Progress code classes up type name fields (Fields.adjust key t.bare made) (Fields.adjust key t fs)
      ready (key :: done) framed where
  names_made := by rw [Fields.names_adjust, h.names_made]
  names_tree := by rw [Fields.names_adjust, h.names_tree]
  fresh := fun k hk => by
    simp only [List.mem_cons, not_or] at hk
    rw [Fields.get?_adjust, Fields.get?_adjust, if_neg hk.1, if_neg hk.1, h.fresh k hk.2]
  waiting := fun k hk => by
    simp only [List.mem_cons, not_or] at hk
    rw [Fields.get?_adjust, if_neg hk.1, h.waiting k hk.2]
  visited := fun k hk v' w hv' hw => by
    rw [Fields.get?_adjust] at hw
    by_cases he : k = key
    · subst he
      rw [h.get?_prepared_of_made hdone hv hready] at hv'
      rw [if_pos rfl, hv] at hw
      cases hv'
      cases hw
      exact hrw
    · rw [if_neg he] at hw
      exact h.visited k ((List.mem_cons.1 hk).resolve_left he) v' w hv' hw
  unframed := fun k hk hf => by
    rw [Fields.get?_adjust, Fields.get?_adjust]
    by_cases he : k = key
    · subst he
      obtain ⟨u, hu⟩ := h.exists_tree hv
      rw [if_pos rfl, if_pos rfl, hv, hu]
      rfl
    · rw [if_neg he, if_neg he]
      exact h.unframed k ((List.mem_cons.1 hk).resolve_left he) hf
  framed := fun k hk w o hw ho => by
    rcases hframed with rfl | ⟨htest, hframed⟩
    · cases hk
    · rw [Fields.get?_adjust, if_neg (hframed k hk)] at hw ho
      refine (h.framed k hk w o hw ho).of_made ?_
      rw [Fields.get?_adjust, if_neg (Ne.symm htest)]

/-- A field is left out where there is no node to visit. -/
theorem skip (key : String) (h : Progress code classes up type name fields made fs ready done framed) (hdone : key ∉ done)
    (hv : ∀ v, Fields.get? key made = some v → v.isInert = true ∧ readyField type key v = v)
    (hmode : mode type fields key = .visited) :
    Progress code classes up type name fields made fs ready (key :: done) framed where
  names_made := h.names_made
  names_tree := h.names_tree
  fresh := fun k hk => h.fresh k fun hd => hk (List.mem_cons_of_mem _ hd)
  waiting := fun k hk => h.waiting k fun hd => hk (List.mem_cons_of_mem _ hd)
  visited := fun k hk v w hv' hw => by
    rcases List.mem_cons.1 hk with rfl | hk
    · rw [h.get?_prepared_of_made hdone hw fun _ => (hv w hw).2] at hv'
      cases hv'
      rw [hmode]
      exact .of_inert (hv _ hw).1
    · exact h.visited k hk v w hv' hw
  unframed := fun k hk hf => h.bare hf
  framed := h.framed

/-- What has become of a field that has been visited. -/
theorem exists_visited (h : Progress code classes up type name fields made fs ready done framed) (hdone : key ∈ done)
    (hframed : key ∉ framed) {v : Json} (hv : Fields.get? key (prepared type fields) = some v) :
    ∃ t, Fields.get? key made = some t.bare ∧ Fields.get? key fs = some t ∧
      Rewrites code (mode type fields key) (classesAt classes type key name) (some (.obj fields)) v t.bare := by
  have hnames : Fields.names made = Fields.names (prepared type fields) :=
    h.names_made.trans (Fields.names_mapWithKey (fun k v => readyField type k v) _).symm
  obtain ⟨w, hw⟩ := Fields.exists_get?_of_names hnames hv
  have hbare := h.unframed key hdone hframed
  rw [hw] at hbare
  obtain ⟨t, ht, rfl⟩ := Option.map_eq_some_iff.1 hbare
  exact ⟨t, hw, ht, h.visited key hdone v _ hv hw⟩

/-- A field is framed. -/
theorem frame (key : String) (h : Progress code classes up type name fields made fs ready done framed) (hdone : key ∈ done)
    {w : Json} (hw : Fields.get? key made = some w) {t : Tree}
    (hframe : Frame code classes up type fields made (frameKind type key) w t.bare) :
    Progress code classes up type name fields made (Fields.adjust key t fs) ready done (key :: framed) where
  names_made := h.names_made
  names_tree := by rw [Fields.names_adjust, h.names_tree]
  fresh := fun k hk => by
    have he : k ≠ key := fun e => hk (e ▸ hdone)
    rw [Fields.get?_adjust, if_neg he, h.fresh k hk]
  waiting := h.waiting
  visited := h.visited
  unframed := fun k hk hf => by
    simp only [List.mem_cons, not_or] at hf
    rw [Fields.get?_adjust, if_neg hf.1, h.unframed k hk hf.2]
  framed := fun k hk w' o hw' ho => by
    rw [Fields.get?_adjust] at ho
    by_cases he : k = key
    · subst he
      obtain ⟨u, hu⟩ := h.exists_tree hw
      rw [if_pos rfl, hu] at ho
      rw [hw] at hw'
      cases ho
      cases hw'
      exact hframe
    · rw [if_neg he] at ho
      exact h.framed k ((List.mem_cons.1 hk).resolve_left he) w' o hw' ho

/-- A field is left as it is where there is nothing to frame. -/
theorem frame_self (h : Progress code classes up type name fields made fs ready done framed) (hnot : key ∉ framed)
    (hframe : ∀ w, Fields.get? key made = some w → Frame code classes up type fields made (frameKind type key) w w) :
    Progress code classes up type name fields made fs ready done (key :: framed) where
  names_made := h.names_made
  names_tree := h.names_tree
  fresh := h.fresh
  waiting := h.waiting
  visited := h.visited
  unframed := fun k hk hf => h.unframed k hk fun hm => hf (List.mem_cons_of_mem _ hm)
  framed := fun k hk w o hw ho => by
    rcases List.mem_cons.1 hk with rfl | hk
    · have hb := h.bare hnot
      rw [ho, hw, Option.map_some, Option.some.injEq] at hb
      rw [hb]
      exact hframe w hw
    · exact h.framed k hk w o hw ho

/-- A node all fields of which have been dealt with. -/
theorem finish (h : Progress code classes up type name fields made fs ready done framed)
    (htype : Fields.type? fields = some type) (hproper : (Json.obj fields).Proper)
    (hname : type ∈ classTypes → className classes up type fields = .ok name)
    (hdone : ∀ key ∈ Fields.names (completed type fields), key ∉ done →
      mode type fields key = .kept ∧ ∀ v, readyField type key v = v)
    (hframed : ∀ key ∈ Fields.names (completed type fields), key ∉ framed → frameKind type key = .same) (seen : Bool) :
    Rewrites code .visited classes up (.obj fields) (Tree.obj seen fs).bare := by
  rw [Tree.bare_obj]
  have hprepared : Fields.names (prepared type fields) = Fields.names (completed type fields) :=
    Fields.names_mapWithKey (fun k v => readyField type k v) _
  refine .node _ _ type name fields made _ htype hproper hname (h.names_made.trans hprepared.symm) ?_ ?_ ?_
  · intro key v w hv hw
    by_cases hk : key ∈ done
    · exact h.visited key hk v w hv hw
    · obtain ⟨hkept, hready⟩ := hdone key (h.names_made ▸ Fields.mem_names_of_get? hw) hk
      rw [h.get?_prepared_of_made hk hw fun _ => hready _] at hv
      cases hv
      rw [hkept]
      exact .kept _ _ _
  · rw [Fields.names_mapValues, h.names_tree, h.names_made]
  · intro key w o hw ho
    rw [Fields.get?_mapValues, Option.map_eq_some_iff] at ho
    obtain ⟨t, ht, rfl⟩ := ho
    by_cases hk : key ∈ framed
    · exact h.framed key hk w t hw ht
    · have hb := h.bare hk
      rw [ht, hw, Option.map_some, Option.some.injEq] at hb
      rw [hframed key (h.names_made ▸ Fields.mem_names_of_get? hw) hk, hb]
      exact .same w

end Progress

end ScriptTrace
