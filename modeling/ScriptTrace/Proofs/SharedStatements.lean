import ScriptTrace.Proofs.Isolation

/-!
# Programs that list the statements of others

A joined program lists the very statements of other programs: they become parts that several places hold. The parts
themselves hold no shared parts, and only the list of a program's statements has places for them. To join programs changes
none of them.

* `Tree.resolved`, `Tree.Placed` : the value at a place, and places that hold a value;
* `Workspace.Lists` : a program by the places of its statements;
* `Workspace.Orderly` : a workspace in which only lists of statements share parts;
* `Workspace.Keeps` : programs list the same statements as before;
* `join_keeps` : joining programs keeps all that are there.
-/

namespace ScriptTrace

/-! ## Places -/

namespace Tree

variable {parts : List Tree} {t p : Tree}

/-- The value at a place: a shared part is looked up. -/
def resolved (parts : List Tree) : Tree → Tree
  | shared k => parts.getD k .null
  | t => t

/-- A place that holds a value of its own, or one of `n` shared parts. -/
def Placed (n : Nat) (p : Tree) : Prop := p.Whole ∨ ∃ k < n, p = .shared k

/-- A value that no pass works on: no node, or one that is marked. -/
def Done (t : Tree) : Prop := t.isNode = true → t.seen = true

theorem Placed.mono {n n' : Nat} (h : Placed n p) (hle : n ≤ n') : Placed n' p :=
  h.imp id fun ⟨k, hk, hp⟩ => ⟨k, Nat.lt_of_lt_of_le hk hle, hp⟩

theorem Whole.resolved (h : p.Whole) (parts : List Tree) : p.resolved parts = p := by
  cases p with
  | shared k => cases h.isShared
  | _ => rfl

/-- The values at places stay what they are when more parts are shared. -/
theorem Placed.resolved_append (h : Placed parts.length p) (more : List Tree) : p.resolved (parts ++ more) = p.resolved parts := by
  rcases h with h | ⟨k, hk, rfl⟩
  · rw [h.resolved, h.resolved]
  · change (parts ++ more).getD k .null = parts.getD k .null
    rw [List.getD_eq_getElem?_getD, List.getD_eq_getElem?_getD, List.getElem?_append_left hk]

theorem Whole.toJson (h : t.Whole) (f g : Nat → Json) : t.toJson f = t.toJson g := by
  induction h with
  | atom t h => cases t <;> first | rfl | cases h
  | items ts _ ih =>
    rw [Tree.toJson, Tree.toJson, toItems_eq_map, toItems_eq_map, List.map_congr_left ih]
  | fields seen fs _ ih =>
    rw [Tree.toJson, Tree.toJson, toFields_eq_mapValues, toFields_eq_mapValues]
    exact congrArg Json.obj (List.map_congr_left fun f hf => by rw [ih f hf])

theorem Whole.expand (h : t.Whole) (parts : List Tree) : t.expand parts = t.bare := h.toJson _ _

/-- A place stands for the value that it holds. -/
theorem Placed.expand (hparts : ∀ t ∈ parts, t.Whole) (h : Placed parts.length p) : p.expand parts = (p.resolved parts).bare := by
  rcases h with h | ⟨k, hk, rfl⟩
  · rw [h.expand, h.resolved]
  · have hpart : (parts.getD k .null).Whole := by
      rw [List.getD_eq_getElem?_getD, List.getElem?_eq_getElem hk]
      exact hparts _ (List.getElem_mem hk)
    change partJson parts parts.length k = (parts.getD k .null).bare
    obtain ⟨n, hn⟩ := Nat.exists_eq_succ_of_ne_zero (Nat.ne_zero_of_lt hk)
    rw [hn]
    exact hpart.toJson _ _

end Tree

/-! ## Programs -/

namespace Workspace

variable {w w' w'' : Workspace} {i : Nat} {others : Fields Tree} {places : List Tree}

/-- A program by the places of its statements and by what its other fields hold. -/
structure Lists (w : Workspace) (i : Nat) (others : Fields Tree) (places : List Tree) : Prop where
  program : ∃ seen, w.tree i = .obj seen (Fields.set "body" (.arr places) others)
  whole : ∀ f ∈ others, f.2.Whole
  placed : ∀ p ∈ places, p.Placed w.parts.length

/-- A program that needs no more work: all its statements are done. -/
def Settled (w : Workspace) (i : Nat) : Prop :=
  ∃ others places, w.Lists i others places ∧ ∀ u ∈ places.map (Tree.resolved w.parts), u.Done

/-- A workspace in which only lists of statements share parts, and in which programs that are marked are settled. -/
structure Orderly (w : Workspace) : Prop where
  parts : ∀ t ∈ w.parts, t.Whole
  trees (i : Nat) : (w.tree i).Whole ∨ ∃ others places, w.Lists i others places
  seen (i : Nat) : (w.tree i).seen = true → w.Settled i

/-- A program lists the same statements as before, at whatever places. -/
def Same (w w' : Workspace) (i : Nat) : Prop := ∀ others places, w.Lists i others places →
  ∃ places', w'.Lists i others places' ∧ places'.map (Tree.resolved w'.parts) = places.map (Tree.resolved w.parts)

theorem Same.refl (w : Workspace) (i : Nat) : Same w w i := fun _ places h => ⟨places, h, rfl⟩

theorem Same.trans (h : Same w w' i) (h' : Same w' w'' i) : Same w w'' i := fun others places hlists => by
  obtain ⟨places', hlists', hsame⟩ := h others places hlists
  obtain ⟨places'', hlists'', hsame'⟩ := h' others places' hlists'
  exact ⟨places'', hlists'', hsame'.trans hsame⟩

/-- The plain program. -/
theorem Lists.plain (hparts : ∀ t ∈ w.parts, t.Whole) (h : w.Lists i others places) :
    w.plain i = .obj (Fields.set "body" (.arr ((places.map (Tree.resolved w.parts)).map Tree.bare)) (Fields.mapValues Tree.bare others)) := by
  obtain ⟨seen, hprogram⟩ := h.program
  have hplaces : Tree.toItems (Tree.partJson w.parts w.parts.length) places = (places.map (Tree.resolved w.parts)).map Tree.bare := by
    rw [Tree.toItems_eq_map, List.map_map]
    exact List.map_congr_left fun p hp => (h.placed p hp).expand hparts
  have hothers : Fields.mapValues (Tree.toJson (Tree.partJson w.parts w.parts.length)) others = Fields.mapValues Tree.bare others :=
    List.map_congr_left fun f hf => by rw [← (h.whole f hf).expand w.parts]; rfl
  rw [Workspace.plain, hprogram, Tree.expand, Tree.toJson, Tree.toFields_eq_mapValues, Fields.mapValues_set, Tree.toJson, hplaces, hothers]

theorem Same.plain (h : Same w w' i) (hw : Orderly w) (hw' : Orderly w') (hlists : w.Lists i others places) :
    w'.plain i = w.plain i := by
  obtain ⟨places', hlists', hsame⟩ := h others places hlists
  rw [hlists'.plain hw'.parts, hlists.plain hw.parts, hsame]

theorem Same.settled (h : Same w w' i) (hsettled : w.Settled i) : w'.Settled i := by
  obtain ⟨others, places, hlists, hdone⟩ := hsettled
  obtain ⟨places', hlists', hsame⟩ := h others places hlists
  exact ⟨others, places', hlists', hsame ▸ hdone⟩

theorem lt_of_lists (h : w.Lists i others places) : i < w.trees.length := by
  obtain ⟨seen, hprogram⟩ := h.program
  by_contra hout
  rw [tree, List.getD_eq_getElem?_getD, List.getElem?_eq_none (Nat.le_of_not_lt hout)] at hprogram
  cases hprogram

theorem field_body (h : w.Lists i others places) : (w.tree i).field "body" = .arr places := by
  obtain ⟨seen, hprogram⟩ := h.program
  rw [hprogram]
  change (Fields.get? "body" (Fields.set "body" (.arr places) others)).getD .null = .arr places
  rw [Fields.get?_set, if_pos rfl]
  rfl

/-! ## Sharing -/

/-- Places hold what other places held, in a longer list of parts. -/
structure Shares (parts parts' ts ts' : List Tree) : Prop where
  grows : parts <+: parts'
  whole : ∀ t ∈ parts', t.Whole
  placed : ∀ t ∈ ts', t.Placed parts'.length
  same : ts'.map (Tree.resolved parts') = ts.map (Tree.resolved parts)

theorem resolved_longer {parts parts' : List Tree} (h : parts <+: parts') {ts : List Tree} (hts : ∀ t ∈ ts, t.Placed parts.length) :
    ts.map (Tree.resolved parts') = ts.map (Tree.resolved parts) := by
  obtain ⟨more, rfl⟩ := h
  exact List.map_congr_left fun t ht => (hts t ht).resolved_append more

theorem share_shares {parts : List Tree} (hparts : ∀ t ∈ parts, t.Whole) {t : Tree} (ht : t.Placed parts.length) :
    Shares parts (share parts t).2 [t] [(share parts t).1] := by
  have hkept : Shares parts parts [t] [t] := ⟨List.prefix_refl _, hparts, List.forall_mem_singleton.2 ht, rfl⟩
  have hshared (hwhole : t.Whole) : Shares parts (parts ++ [t]) [t] [.shared parts.length] := by
    refine ⟨List.prefix_append _ _, List.forall_mem_append.2 ⟨hparts, List.forall_mem_singleton.2 hwhole⟩, ?_, ?_⟩
    · refine List.forall_mem_singleton.2 (.inr ⟨_, ?_, rfl⟩)
      rw [List.length_append]
      exact Nat.lt_succ_self _
    · rw [List.map_singleton, List.map_singleton, hwhole.resolved]
      change [(parts ++ [t]).getD parts.length .null] = [t]
      rw [List.getD_eq_getElem?_getD, List.getElem?_concat_length]
      rfl
  have hwhole (hown : t.isShared = false) : t.Whole := by
    rcases ht with ht | ⟨k, _, rfl⟩
    · exact ht
    · cases hown
  cases t with
  | obj => exact hshared (hwhole rfl)
  | arr => exact hshared (hwhole rfl)
  | _ => exact hkept

theorem shareAll_shares : ∀ {ts parts : List Tree}, (∀ t ∈ parts, t.Whole) → (∀ t ∈ ts, t.Placed parts.length) →
    Shares parts (shareAll parts ts).2 ts (shareAll parts ts).1
  | [], parts, hparts, _ => ⟨List.prefix_refl _, hparts, nofun, rfl⟩
  | t :: ts, parts, hparts, hts => by
    obtain ⟨ht, hts⟩ := List.forall_mem_cons.1 hts
    have hfirst := share_shares hparts ht
    have hrest : Shares (share parts t).2 (shareAll (share parts t).2 ts).2 ts (shareAll (share parts t).2 ts).1 :=
      shareAll_shares hfirst.whole fun u hu => (hts u hu).mono hfirst.grows.length_le
    have hkept := resolved_longer hrest.grows hfirst.placed
    refine ⟨hfirst.grows.trans hrest.grows, hrest.whole, ?_, ?_⟩
    · exact List.forall_mem_cons.2 ⟨(hfirst.placed _ List.mem_cons_self).mono hrest.grows.length_le, hrest.placed⟩
    · have hsame := hrest.same.trans (resolved_longer hfirst.grows hts)
      have hhead := hkept.trans hfirst.same
      rw [List.map_singleton, List.map_singleton, List.singleton_inj] at hhead
      change List.map _ ((share parts t).1 :: (shareAll (share parts t).2 ts).1) = _
      rw [List.map_cons, List.map_cons]
      exact congrArg₂ _ hhead hsame

/-! ## Joining programs -/

/-- A workspace with the same programs as before, and perhaps more shared parts. -/
structure Keeps (w w' : Workspace) : Prop where
  orderly : Orderly w'
  same (i : Nat) : Same w w' i
  grows : w.parts <+: w'.parts
  length : w'.trees.length = w.trees.length

theorem Keeps.refl (h : Orderly w) : Keeps w w := ⟨h, Same.refl w, List.prefix_refl _, rfl⟩

theorem Keeps.trans (h : Keeps w w') (h' : Keeps w' w'') : Keeps w w'' :=
  ⟨h'.orderly, fun i => (h.same i).trans (h'.same i), h.grows.trans h'.grows, h'.length.trans h.length⟩

theorem lists_of_bodyOf (hw : Orderly w) (h : w.bodyOf i = .ok places) : ∃ others, w.Lists i others places := by
  rcases hw.trees i with hwhole | ⟨others, places', hlists⟩
  · unfold bodyOf at h
    generalize ht : w.tree i = t at h hwhole
    cases hwhole with
    | fields seen fields hall =>
      rw [layer_obj, Layer.require] at h
      cases hget : Fields.get? "body" fields with
      | none =>
        rw [hget] at h
        cases h
      | some body =>
        rw [hget] at h
        have hbody : body.Whole := hall _ (Fields.mem_of_get? hget)
        cases hbody with
        | items ts hts =>
          obtain rfl : ts = places := Except.ok.inj h
          exact ⟨fields, ⟨seen, by rw [ht, Fields.set_of_get? hget]⟩, hall, fun p hp => .inl (hts p hp)⟩
        | fields => cases h
        | atom body hatom =>
          cases body with
          | arr => cases hatom
          | shared => cases hatom
          | _ => cases h
    | items => cases h
    | atom t hatom =>
      cases t with
      | obj => cases hatom
      | _ => cases h
  · have hbody : (layer (w.tree i)).require "body" = .ok (.arr places') := by
      obtain ⟨seen, hprogram⟩ := hlists.program
      rw [hprogram, layer_obj, Layer.require_of_get? (by rw [Fields.get?_set, if_pos rfl])]
    unfold bodyOf at h
    rw [hbody] at h
    obtain rfl : places' = places := Except.ok.inj h
    exact ⟨others, hlists⟩

/-- A program gets its statements at other places. -/
theorem setBody_keeps (hw : Orderly w) (hlists : w.Lists i others places) {parts' places' : List Tree}
    (h : Shares w.parts parts' places places') : Keeps w ({ w with parts := parts' }.setBody i places') ∧
      ({ w with parts := parts' }.setBody i places').parts = parts' ∧ ({ w with parts := parts' }.setBody i places').Lists i others places' := by
  have hset : ({ w with parts := parts' } : Workspace).setBody i places' =
      { w with parts := parts', trees := w.trees.set i ((w.tree i).setField "body" (.arr places')) } := by
    have hbody : ({ w with parts := parts' } : Workspace).tree i = w.tree i := rfl
    rw [setBody, hbody, field_body hlists]
  rw [hset]
  generalize hnew : (⟨w.code, w.trees.set i ((w.tree i).setField "body" (.arr places')), parts', w.counter⟩ : Workspace) = w'
  have hparts : w'.parts = parts' := by rw [← hnew]
  have hself : w'.tree i = (w.tree i).setField "body" (.arr places') := hnew ▸ tree_set_self (lt_of_lists hlists) ..
  have hother {j : Nat} (hj : j ≠ i) : w'.tree j = w.tree j := hnew ▸ tree_set_of_ne hj ..
  have hprogram {others places} (hlists : w.Lists i others places) : w'.Lists i others places' := by
    obtain ⟨seen, hprogram⟩ := hlists.program
    refine ⟨⟨seen, ?_⟩, hlists.whole, hparts ▸ h.placed⟩
    rw [hself, hprogram, Tree.setField_obj, Fields.set_set]
  have hsame (j : Nat) : Same w w' j := by
    intro others₁ places₁ hlists₁
    by_cases hj : j = i
    · subst hj
      obtain rfl : places₁ = places := Tree.arr.inj ((field_body hlists₁).symm.trans (field_body hlists))
      exact ⟨places', hprogram hlists₁, hparts ▸ h.same⟩
    · refine ⟨places₁, ⟨?_, hlists₁.whole, fun p hp => ?_⟩, ?_⟩
      · rw [hother hj]
        exact hlists₁.program
      · rw [hparts]
        exact (hlists₁.placed p hp).mono h.grows.length_le
      · rw [hparts]
        exact resolved_longer h.grows hlists₁.placed
  have hseen (j : Nat) : (w'.tree j).seen = (w.tree j).seen := by
    by_cases hj : j = i
    · rw [hj, hself]
      cases w.tree i <;> rfl
    · rw [hother hj]
  refine ⟨⟨⟨hparts ▸ h.whole, fun j => ?_, fun j hj => (hsame j).settled (hw.seen j (hseen j ▸ hj))⟩, hsame, hparts ▸ h.grows, ?_⟩,
    hparts, hprogram hlists⟩
  · by_cases hj : j = i
    · exact .inr ⟨others, places', hj ▸ hprogram hlists⟩
    · refine (hw.trees j).imp (fun hwhole => hother hj ▸ hwhole) ?_
      rintro ⟨others₁, places₁, hlists₁⟩
      obtain ⟨places₂, hlists₂, -⟩ := hsame j others₁ places₁ hlists₁
      exact ⟨others₁, places₂, hlists₂⟩
  · rw [← hnew, List.length_set]

theorem shareBody_keeps (hw : Orderly w) {result : List Tree × Workspace} (h : w.shareBody i = .ok result) :
    Keeps w result.2 ∧ ∃ others, result.2.Lists i others result.1 := by
  cases hbody : w.bodyOf i with
  | error e =>
    rw [shareBody, hbody] at h
    cases h
  | ok places =>
    rw [shareBody, hbody] at h
    obtain ⟨others, hlists⟩ := lists_of_bodyOf hw hbody
    obtain ⟨hkeeps, -, hlists'⟩ := setBody_keeps hw hlists (shareAll_shares hw.parts hlists.placed)
    obtain rfl := Except.ok.inj h
    exact ⟨hkeeps, others, hlists'⟩

theorem Keeps.placed (h : Keeps w w') {t : Tree} (ht : t.Placed w.parts.length) : t.Placed w'.parts.length := ht.mono h.grows.length_le

theorem shareBodies_keeps : ∀ {programs : List Nat} {w : Workspace} {result : List Tree × Workspace}, Orderly w →
    shareBodies programs w = .ok result → Keeps w result.2 ∧ (∀ p ∈ result.1, p.Placed result.2.parts.length) ∧
      ((∀ i ∈ programs, w.Settled i) → ∀ u ∈ result.1.map (Tree.resolved result.2.parts), u.Done)
  | [], w, result, hw, h => by
    obtain rfl := Except.ok.inj h
    exact ⟨.refl hw, nofun, fun _ => nofun⟩
  | i :: programs, w, result, hw, h => by
    rw [shareBodies] at h
    cases hfirst : w.shareBody i with
    | error e =>
      rw [hfirst] at h
      cases h
    | ok first =>
      rw [hfirst] at h
      obtain ⟨items, w₁⟩ := first
      obtain ⟨hkeeps, others, hlists⟩ := shareBody_keeps hw hfirst
      change (shareBodies programs w₁ >>= fun rest => pure (items ++ rest.1, rest.2)) = _ at h
      cases hrest : shareBodies programs w₁ with
      | error e =>
        rw [hrest] at h
        cases h
      | ok rest =>
        rw [hrest] at h
        obtain rfl := Except.ok.inj h
        obtain ⟨hkeeps', hplaced, hdone⟩ := shareBodies_keeps hkeeps.orderly hrest
        refine ⟨hkeeps.trans hkeeps', List.forall_mem_append.2 ⟨fun p hp => hkeeps'.placed (hlists.placed p hp), hplaced⟩, fun hsettled => ?_⟩
        dsimp only
        rw [List.map_append, List.forall_mem_append, resolved_longer hkeeps'.grows hlists.placed]
        refine ⟨?_, hdone fun j hj => (hkeeps.same j).settled (hsettled j (List.mem_cons_of_mem i hj))⟩
        obtain ⟨others', places', hlists', hdone'⟩ := (hkeeps.same i).settled (hsettled i List.mem_cons_self)
        obtain rfl : places' = items := Tree.arr.inj ((field_body hlists').symm.trans (field_body hlists))
        exact hdone'

/-- **Joining programs leaves them as they are**, and a join of settled programs is settled. -/
theorem join_keeps (hw : Orderly w) {programs : List Nat} (h : w.join programs = .ok w') : Orderly w' ∧ (∀ i, Same w w' i) ∧
    w'.trees.length = w.trees.length + 1 ∧ ((∀ i ∈ programs, w.Settled i) → w'.Settled w.trees.length) := by
  cases hshared : shareBodies programs w with
  | error e =>
    rw [join, hshared] at h
    cases h
  | ok result =>
    rw [join, hshared] at h
    obtain ⟨items, w₁⟩ := result
    obtain ⟨hkeeps, hplaced, hdone⟩ := shareBodies_keeps hw hshared
    obtain rfl : w₁.addProgram items = w' := Except.ok.inj h
    have hold {i : Nat} (hi : i ≠ w₁.trees.length) : (w₁.addProgram items).tree i = w₁.tree i := by
      change (w₁.trees ++ [_]).getD i .null = w₁.trees.getD i .null
      rw [List.getD_eq_getElem?_getD, List.getD_eq_getElem?_getD]
      rcases Nat.lt_or_gt_of_ne hi with hlt | hgt
      · rw [List.getElem?_append_left hlt]
      · rw [List.getElem?_eq_none (Nat.le_of_lt hgt), List.getElem?_eq_none (by rw [List.length_append]; exact hgt)]
    have htree : (w₁.addProgram items).tree w₁.trees.length = .obj false [("type", .str "Program"), ("body", .arr items)] := by
      change (w₁.trees ++ [_]).getD w₁.trees.length .null = _
      rw [List.getD_eq_getElem?_getD, List.getElem?_concat_length]
      rfl
    have hnew : (w₁.addProgram items).Lists w₁.trees.length [("type", .str "Program")] items :=
      ⟨⟨false, htree⟩, List.forall_mem_singleton.2 (.atom _ rfl), hplaced⟩
    have hlists {i : Nat} {others : Fields Tree} {places : List Tree} (hlists : w₁.Lists i others places) :
        (w₁.addProgram items).Lists i others places := by
      refine ⟨?_, hlists.whole, hlists.placed⟩
      rw [hold (Nat.ne_of_lt (lt_of_lists hlists))]
      exact hlists.program
    have hsame (i : Nat) : Same w₁ (w₁.addProgram items) i := fun others places h => ⟨places, hlists h, rfl⟩
    refine ⟨⟨hkeeps.orderly.parts, fun i => ?_, fun i hi => ?_⟩, fun i => (hkeeps.same i).trans (hsame i), ?_, fun hsettled => ?_⟩
    · by_cases hi : i = w₁.trees.length
      · exact .inr ⟨_, items, hi ▸ hnew⟩
      · exact (hkeeps.orderly.trees i).imp (fun hwhole => hold hi ▸ hwhole) fun ⟨others, places, h⟩ => ⟨others, places, hlists h⟩
    · by_cases hi' : i = w₁.trees.length
      · rw [hi', htree] at hi
        cases hi
      · exact (hsame i).settled (hkeeps.orderly.seen i (hold hi' ▸ hi))
    · rw [← hkeeps.length]
      exact List.length_append
    · rw [← hkeeps.length]
      exact ⟨_, items, hnew, hdone hsettled⟩

end Workspace

end ScriptTrace
