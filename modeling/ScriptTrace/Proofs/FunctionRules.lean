import ScriptTrace.Proofs.ClassRules

/-!
# The rule for functions

The body of a function is made a block and marked, the parameters and the statements are visited, and
what has become of the statements is put into the guard.

* `bodyBlock_proper` : the block that returns the expression of an arrow function;
* `BodyMarked` : a function the body of which is marked;
* `ensures_instrumented` : the body of a function, from its statements;
* `places_function` : the rule.
-/

namespace ScriptTrace

open Rewriting Step

section Rules

variable {s s₀ : Pass} {up : Option Json} {type key : String} {fields : Fields Json} {visit : Visitor}

/-! ## Bodies of functions -/

/-- The statement that returns the expression an arrow function answers. -/
def returnOf (body : Json) : Json :=
  .obj [("type", .str "ReturnStatement"), ("argument", body), ("loc", body.field "loc")]

theorem bodyBlock_of_block {body : Json} (h : body.type? = some "BlockStatement") : bodyBlock body = body := if_pos h

theorem bodyBlock_of_other {body : Json} (h : body.type? ≠ some "BlockStatement") :
    bodyBlock body = blockOf [returnOf body] := if_neg h

theorem loc_fits (hproper : (Json.obj fields).Proper) (htype : Fields.type? fields = some type) :
    Slot.position.fits (some (Json.field "loc" (.obj fields))) = true := by
  have hp := hproper.isNodeOf htype
  obtain ⟨slots, hshape⟩ := hproper.exists_shape htype
  simp only [Grammar.isNodeOf, hshape, Bool.and_eq_true, List.all_eq_true] at hp
  have hfits := hp.1.1 ("loc", .position) (List.mem_append_right _ (by simp [Grammar.common]))
  simp only [Json.field, Json.get?]
  cases hv : Fields.get? "loc" fields with
  | none => rfl
  | some v =>
    rw [hv] at hfits
    exact hfits

theorem returnOf_proper {body : Json} (hproper : body.Proper) (hbody : body.isOneOf Grammar.expressions = true) :
    (returnOf body).Proper := by
  obtain ⟨fields, type, rfl, htype, hmem⟩ := Json.isOneOf_iff.1 hbody
  have hloc := loc_fits hproper htype
  have hargument : (Slot.optional Grammar.expressions).fits (some (.obj fields)) = true := hbody
  have hlocProper : (Json.field "loc" (.obj fields)).Proper := by
    simp only [Json.field, Json.get?]
    cases hv : Fields.get? "loc" fields with
    | none => rfl
    | some v => exact hproper.field hv
  refine Json.everyObject_obj.2 ⟨?_, ?_⟩
  · have hfits : Grammar.isNodeOf "ReturnStatement" [("type", .str "ReturnStatement"), ("argument", .obj fields),
        ("loc", Json.field "loc" (.obj fields))] = true := by
      have hshape : Grammar.shape "ReturnStatement" = some [("argument", .optional Grammar.expressions)] := rfl
      simp only [Grammar.isNodeOf, hshape, Bool.and_eq_true]
      refine ⟨⟨?_, ?_⟩, rfl⟩
      · rw [List.all_eq_true]
        intro slot hslot
        simp only [Grammar.common, List.cons_append, List.nil_append, List.mem_cons, List.not_mem_nil, or_false] at hslot
        rcases hslot with rfl | rfl | rfl | rfl
        · exact hargument
        · rfl
        · exact hloc
        · rfl
      · have hslots : ∀ key, Grammar.slotOf ([("argument", Slot.optional Grammar.expressions)] ++ Grammar.common) key =
            if key = "argument" then some (.optional Grammar.expressions) else if key = "type" then some .text
            else if key = "loc" then some .position else if key = "range" then some .range
            else if key = "directive" then none else some .value := by
          intro key
          simp only [Grammar.slotOf, Grammar.common, List.cons_append, List.nil_append, Fields.get?, @eq_comm _ _ key]
          split_ifs <;> rfl
        simp only [List.all_cons, List.all_nil, hslots, Bool.and_true, Bool.and_eq_true]
        exact ⟨rfl, hargument, hloc⟩
    exact Bool.and_eq_true_iff.2 ⟨rfl, hfits⟩
  · intro f hf
    simp only [List.mem_cons, List.not_mem_nil, or_false] at hf
    rcases hf with rfl | rfl | rfl
    · rfl
    · exact hproper
    · exact hlocProper

theorem bodyBlock_proper {body : Json} (hproper : body.Proper)
    (hbody : body.isOneOf ("BlockStatement" :: Grammar.expressions) = true) :
    (bodyBlock body).Proper ∧ (bodyBlock body).type? = some "BlockStatement" := by
  by_cases hblock : body.type? = some "BlockStatement"
  · rw [bodyBlock_of_block hblock]
    exact ⟨hproper, hblock⟩
  · rw [bodyBlock_of_other hblock]
    have hexpr : body.isOneOf Grammar.expressions = true := by
      obtain ⟨fields, type, rfl, htype, hmem⟩ := Json.isOneOf_iff.1 hbody
      refine Json.isOneOf_iff.2 ⟨fields, type, rfl, htype, (List.mem_cons.1 hmem).resolve_left ?_⟩
      rintro rfl
      exact hblock htype
    refine ⟨blockOf_proper fun s hs => ?_, rfl⟩
    obtain rfl := List.mem_singleton.1 hs
    exact ⟨returnOf_proper hproper hexpr, Json.isOneOf_iff.2 ⟨_, "ReturnStatement", rfl, rfl, by decide⟩⟩

/-- Only the body of an arrow function may be an expression. -/
theorem exists_body (hproper : (Json.obj fields).Proper) (htype : Fields.type? fields = some type) (hfunction : type ∈ functionTypes) :
    ∃ body, Fields.get? "body" fields = some (.obj body) ∧
      ((Json.obj body).type? = some "BlockStatement" ∨ type = "ArrowFunctionExpression") := by
  simp only [functionTypes, List.mem_cons, List.not_mem_nil, or_false] at hfunction
  rcases hfunction with rfl | rfl | rfl
  all_goals
    obtain ⟨body, btype, hbody, hbtype, hmem⟩ := Json.fits_node (hproper.fits "body" htype rfl rfl)
    refine ⟨body, hbody, ?_⟩
  · exact .inl (List.mem_singleton.1 hmem ▸ hbtype)
  · exact .inl (List.mem_singleton.1 hmem ▸ hbtype)
  · exact .inr rfl

theorem adjust_set_comm {α : Type} {a b : String} (hab : a ≠ b) (v w : α) {values : Fields α}
    (hnd : (Fields.names (Fields.set b w values)).Nodup) (hmem : a ∈ Fields.names values) :
    Fields.set b w (Fields.set a v values) = Fields.adjust a v (Fields.set b w values) := by
  have hnames : Fields.names (Fields.set b w (Fields.set a v values)) = Fields.names (Fields.set b w values) := by
    rw [Fields.names_set, Fields.names_set b, Fields.names_set_of_mem hmem]
  refine Fields.ext (by rw [hnames, Fields.names_adjust]) (hnames ▸ hnd) fun key => ?_
  rw [Fields.get?_adjust, Fields.get?_set, Fields.get?_set, Fields.get?_set]
  by_cases ha : key = a
  · subst ha
    obtain ⟨x, hx⟩ := Fields.exists_get? hmem
    simp [Ne.symm hab, hx]
  · simp [ha, Ne.symm ha]

/-- A pass without shared parts that begins with a function. -/
structure FunctionSite (s : Pass) (kind : String) (fields written : Fields Json) : Prop extends Site s kind fields where
  function : kind ∈ functionTypes
  found : Fields.get? "body" fields = some (.obj written)
  bodyType : (Json.obj written).isOneOf ("BlockStatement" :: Grammar.expressions) = true

/-- The body of a function is made a block. -/
theorem ensures_arrowBody {body : Fields Json} (hsite : FunctionSite s type fields body) (up : Option Json) :
    Ensures Visit.arrowBody s fun _ s' => Underway s up type .null fields ["body"] [] [] [] s' := by
  obtain ⟨seen, hfocus⟩ := hsite.focus
  obtain ⟨vfields, btype, he, hbtype, hbmem⟩ := Json.isOneOf_iff.1 hsite.bodyType
  cases he
  have hfs : Fields.get? "body" (Fields.mapValues Tree.ofJson fields) = some (.ofJson (.obj body)) := by
    rw [Fields.get?_mapValues, hsite.found]; rfl
  have hcompleted : Fields.get? "body" (completed type fields) = some (.obj body) :=
    (get?_completed_of_ne (by decide)).trans hsite.found
  have hready : readyField type "body" (.obj body) = bodyBlock (.obj body) := by
    have hfun := hsite.function
    simp only [functionTypes, List.mem_cons, List.not_mem_nil, or_false] at hfun
    rcases hfun with rfl | rfl | rfl <;> simp [readyField, loopTypes, functionTypes]
  have hp := (Progress.start s.code s.classes up type .null fields).prepare "body" (by decide) (by decide)
    hcompleted (.inl rfl)
  rw [hready] at hp
  have hnd : (Fields.names (completed type fields)).Nodup := nodup_completed hsite.proper.nodup
  have hreturn : type ≠ "ReturnStatement" := by
    rintro rfl
    exact absurd hsite.function (by decide)
  unfold Visit.arrowBody
  unfold child
  simp only [ensures_bind, ensures_place, hfocus, layer_obj, Layer.require_obj, hfs, Option.some.injEq]
  rintro _ rfl
  simp only [Tree.ofJson_obj, resolve, ensures_pure, ensures_lift]
  rw [layer_obj, hasType_obj (x := .str btype) (by rw [Fields.get?_mapValues, Fields.get?_of_type? hbtype]; rfl) rfl]
  rintro _ ⟨⟩
  have hfield : Json.field "body" (.obj fields) = .obj body := by simp [Json.field, Json.get?, hsite.found]
  by_cases hblock : btype = "BlockStatement"
  · subst hblock
    have hsame : completed type fields = fields := by
      rw [completed, if_neg (fun hc => hreturn hc.1), if_neg (fun hc => hc.2 (by rw [hfield]; exact hbtype))]
    rw [bodyBlock_of_block (show (Json.obj body).type? = some "BlockStatement" from hbtype), hsame, Fields.adjust_eq_self hsite.proper.nodup (fun w hw => by
      rw [hsite.found] at hw
      exact (Option.some.inj hw).symm), Fields.adjust_eq_self (by rw [Fields.names_mapValues]; exact hsite.proper.nodup)
      (fun w hw => by
        rw [hfs] at hw
        exact (Option.some.inj hw).symm)] at hp
    exact ensures_pure.2 ⟨seen, _, _, s.counter, by rw [Queue.push_nil, ← hfocus], hp⟩
  · have hother : (Json.obj body).type? ≠ some "BlockStatement" := by
      rw [show (Json.obj body).type? = some btype from hbtype]
      simpa using hblock
    have hset : completed type fields = Fields.set "expression" (.bool false) fields := by
      rw [completed, if_neg (fun hc => hreturn hc.1), if_pos ⟨hsite.function, by rw [hfield]; exact hother⟩]
    rw [if_neg (by simpa using hblock)]
    simp only [ensures_bind, ensures_place, hfocus, layer_obj, Layer.require_obj, hfs, Option.some.injEq, ensures_setField]
    rintro _ rfl
    refine ⟨seen, _, _, s.counter, ?_, hp⟩
    have htree : Probe.block [Tree.obj false [("type", .str "ReturnStatement"), ("argument", .ofJson (.obj body)),
        ("loc", (Tree.obj false (Fields.mapValues Tree.ofJson body)).field "loc")]] = .ofJson (bodyBlock (.obj body)) := by
      rw [bodyBlock_of_other hother]
      have hloc : (Tree.obj false (Fields.mapValues Tree.ofJson body)).field "loc" =
          .ofJson (Json.field "loc" (.obj body)) := by
        rw [Tree.field, Fields.get?_mapValues, Json.field, Json.get?]
        cases Fields.get? "loc" body <;> rfl
      rw [hloc]
      simp [Probe.block, blockOf, returnOf, Tree.ofJson, Tree.ofJsonWith, Tree.ofFields, Tree.ofItems]
    have hmapped : Fields.mapValues Tree.ofJson (completed type fields) =
        Fields.set "expression" (.bool false) (Fields.mapValues Tree.ofJson fields) := by
      rw [hset, Fields.mapValues_set]; rfl
    rw [Queue.push_nil, hmapped, Tree.setField_obj, Tree.setField_obj, htree, adjust_set_comm (by decide)]
    · rw [← hmapped, Fields.names_mapValues]
      exact hnd
    · exact Fields.mem_names_of_get? hfs

/-! ## The marked body -/

/-- The states of a pass in a function the body of which is marked, with the trees in the body given. -/
def BodyMarked (s₀ : Pass) (up : Option Json) (type : String) (fields : Fields Json) (body : Fields Tree)
    (done : List String) (s : Pass) : Prop :=
  ∃ seen made fs c, s = { s₀ with focus := .obj seen (Fields.adjust "body" (.obj true body) fs), counter := c } ∧
    Progress s₀.code s₀.classes up type .null fields made fs ["body"] done []

section Marked

variable {written block : Fields Json} {body : Fields Tree} {done : List String}

theorem Underway.markBody (h : Underway s₀ up type .null fields ["body"] [] [] [] s) (hproper : (Json.obj fields).Proper)
    (hblock : Fields.get? "body" (prepared type fields) = some (.obj block)) :
    Ensures (Step.inField "body" mark) s fun _ s' =>
      BodyMarked s₀ up type fields (Fields.mapValues .ofJson block) [] s' := by
  obtain ⟨seen, made, fs, c, rfl, hp⟩ := h
  have hfs : Fields.get? "body" fs = some (.obj false (Fields.mapValues .ofJson block)) := by
    rw [hp.fresh "body" (by decide), hp.waiting "body" (by decide), if_pos (by decide), hblock, Option.map_some,
      Tree.ofJson_obj]
  have hnd : (Fields.names fs).Nodup := hp.names_tree ▸ nodup_completed hproper.nodup
  refine ensures_inField rfl fun t ht => ?_
  rw [hfs] at ht
  cases ht
  refine ⟨rfl, ensures_mark.2 ⟨seen, made, fs, c, ?_, hp⟩⟩
  rw [Queue.push_nil, ← Fields.set_eq_adjust _ hnd (Fields.mem_names_of_get? hfs)]
  rfl

theorem BodyMarked.get?_kept (h : BodyMarked s₀ up type fields body done s) (hdone : key ∉ done)
    (hkey : key ∉ ["argument", "expression", "consequent", "alternate", "body"]) :
    s.focus.bare.get? key = Fields.get? key fields := by
  obtain ⟨seen, made, fs, c, rfl, hp⟩ := h
  have hbody : key ≠ "body" := by
    rintro rfl
    exact hkey (by decide)
  rw [Tree.bare_obj, Json.get?, Fields.get?_mapValues, Fields.get?_adjust, if_neg hbody, hp.get?_kept hdone hkey]
  cases Fields.get? key fields <;> simp

theorem BodyMarked.isObj (h : BodyMarked s₀ up type fields body done s) : ∃ out, s.focus.bare = .obj out := by
  obtain ⟨seen, made, fs, c, rfl, hp⟩ := h
  exact ⟨_, Tree.bare_obj ..⟩

theorem BodyMarked.sameParent (hsite : FunctionSite s₀ type fields written) (h : BodyMarked s₀ up type fields body done s)
    (hdone : "type" ∉ done) : SameParent (some s.focus) (some (.obj fields)) := by
  have hget := h.get?_kept hdone (by decide)
  obtain ⟨out, hout⟩ := h.isObj
  have hnaming : type ∉ ["VariableDeclarator", "AssignmentExpression", "Property", "MethodDefinition"] := by
    have hfunction := hsite.function
    simp only [functionTypes, List.mem_cons, List.not_mem_nil, or_false] at hfunction
    rcases hfunction with rfl | rfl | rfl <;> decide
  refine .of_nameFromParent fun classes => ?_
  rw [hout] at hget ⊢
  rw [nameFromParent_other hsite.type hnaming,
    nameFromParent_other (Fields.type?_of_get? (hget.trans (Fields.get?_of_type? hsite.type))) hnaming]

/-- The name of the function in focus. -/
theorem BodyMarked.name (hsite : FunctionSite s₀ type fields written) (h : BodyMarked s₀ up type fields body done s)
    (hdone : "id" ∉ done) {parent : Option Tree} (hparent : SameParent parent up) :
    Ensures (Visit.name parent) s fun name s' => s' = s ∧ functionName s₀.classes (.obj fields) up = .ok name := by
  have hget := h.get?_kept hdone (by decide)
  obtain ⟨out, hout⟩ := h.isObj
  rw [hout] at hget
  obtain ⟨seen, made, fs, c, rfl, hp⟩ := h
  refine ensures_name hsite.parts fun name hname => ⟨rfl, ?_⟩
  rwa [hout, hparent, functionName_congr hget] at hname

theorem FunctionSite.keys (hsite : FunctionSite s₀ type fields written) :
    visitedFields type fields = some ["params", "body"] ∧ (∀ key ∈ ["params", "body"], mode type fields key = .visited) ∧
      type ∉ classTypes ∧ ∃ types, Grammar.shape type = some (Grammar.functionShape types) := by
  have hfunction := hsite.function
  simp only [functionTypes, List.mem_cons, List.not_mem_nil, or_false] at hfunction
  have hkeys : visitedFields type fields = some ["params", "body"] := by
    rcases hfunction with rfl | rfl | rfl <;> simp [visitedFields, ofGroup, visitTable, functionTypes]
  refine ⟨hkeys, fun key hkey => mode_of_visited _ hkeys hkey ?_, ?_, ?_⟩
  all_goals rcases hfunction with rfl | rfl | rfl
  all_goals first | simp | decide | exact ⟨_, rfl⟩

theorem FunctionSite.exists_params (hsite : FunctionSite s₀ type fields written) :
    ∃ params, Fields.get? "params" fields = some (.arr params) ∧ ∀ p ∈ params, p.isOneOf Grammar.patterns = true := by
  obtain ⟨-, -, -, types, hshape⟩ := hsite.keys
  exact Json.fits_list (hsite.proper.fits "params" hsite.type hshape rfl)

/-- The parameters are visited, each with a queue of its own. -/
theorem BodyMarked.params (hvisit : visit.Sound) (hsite : FunctionSite s₀ type fields written)
    (h : BodyMarked s₀ up type fields body [] s) : Ensures (Visit.params visit) s fun _ s' =>
      BodyMarked s₀ up type fields body ["params"] s' := by
  obtain ⟨-, hmode, hclass, -⟩ := hsite.keys
  obtain ⟨params, hparams, hpatterns⟩ := hsite.exists_params
  have hmode : mode type fields "params" = .visited := hmode _ (by decide)
  have hready : ∀ v, readyField type "params" v = v := readyField_eq_self (by decide)
  have hparent := h.sameParent hsite (by decide)
  obtain ⟨seen, made, fs, c, rfl, hp⟩ := h
  have hmade : Fields.get? "params" made = some (.arr params) := by
    rw [hp.waiting "params" (by decide), if_neg (by decide), get?_completed_of_ne (by decide), hparams]
  have hfs : Fields.get? "params" (Fields.adjust "body" (.obj true body) fs) = some (.ofJson (.arr params)) := by
    rw [Fields.get?_adjust, if_neg (by decide), hp.fresh "params" (by decide), hmade]; rfl
  have hnd : (Fields.names (Fields.adjust "body" (.obj true body) fs)).Nodup := by
    rw [Fields.names_adjust, hp.names_tree]
    exact nodup_completed hsite.proper.nodup
  unfold Visit.params flag
  rw [ensures_bind, ensures_bind]
  refine ensures_child?_some rfl hfs (by simp) (Tree.isShared_ofJson _) ?_
  rw [ensures_pure, Option.map_some, Option.getD_some, Tree.ofJson_arr, layer_arr, Layer.truthy, List.isEmpty_map]
  cases hempty : params.isEmpty with
  | true =>
    obtain rfl := List.isEmpty_iff.1 hempty
    refine ensures_pure.2 ⟨seen, made, fs, c, rfl, hp.skip _ (by decide) (fun v hv => ?_) hmode⟩
    rw [hmade] at hv
    cases hv
    exact ⟨rfl, hready _⟩
  | false =>
    rw [Bool.not_false, if_pos rfl, ensures_bind, ensures_focus, ensures_discard]
    refine ensures_inField rfl fun t ht => ?_
    rw [hfs] at ht
    cases ht
    refine ⟨Tree.isShared_ofJson _, ?_⟩
    have hitems := places_items (s := { s₀ with focus := .ofJson (.arr params), counter := c })
      (quietly (visit (some (Tree.obj seen (Fields.adjust "body" (.obj true body) fs))))) s₀.classes (some (.obj fields))
      (fun _ => []) (fun _ => []) (Tree.ofJson_arr params) ?_ ?_
    · refine hitems.mono ?_
      rintro _ s' ⟨t, c', rfl, hrw⟩
      refine ⟨seen, _, _, c', ?_, hp.visit _ (by decide) (.inl rfl) hmade (fun _ => hready _) (t := t) ?_⟩
      · have hnone : params.flatMap (fun v => if v.isNode then [] else ([] : List Json)) = [] := by simp
        simp only [Fields.set_eq_adjust t hnd (Fields.mem_names_of_get? hfs), hnone, Queue.push_nil,
          Fields.adjust_comm (show "params" ≠ "body" by decide)]
      · rwa [hmode, classesAt, if_neg fun hc => hclass hc.1]
    · intro v hv hn queue counter
      have hpart : v.isOneOf partTypes = false := not_part_of_not_bound (not_bound_of_isOneOf (hpatterns v hv) (by decide))
      exact (hvisit.node _ _ v { s₀ with focus := .ofJson v, queue := .empty false, counter := counter } hsite.parts rfl hn
        ((hsite.proper.field hparams).item hv) hpart hparent).quietly
    · intro v hv hn queue counter
      rw [ensures_quietly]
      refine (hvisit.other _ v _ rfl hn).mono fun _ s' hs => ?_
      rw [hs]

/-- The block that the statements of a function stand in. -/
theorem FunctionSite.exists_block (hsite : FunctionSite s₀ type fields written) : ∃ block,
    Fields.get? "body" (prepared type fields) = some (.obj block) ∧ Fields.type? block = some "BlockStatement" ∧
      (Json.obj block).Proper := by
  obtain ⟨hproper, htype⟩ := bodyBlock_proper (hsite.proper.field hsite.found) hsite.bodyType
  have hready : readyField type "body" (.obj written) = bodyBlock (.obj written) := by
    have hfunction := hsite.function
    simp only [functionTypes, List.mem_cons, List.not_mem_nil, or_false] at hfunction
    rcases hfunction with rfl | rfl | rfl <;> simp [readyField, loopTypes, functionTypes]
  obtain ⟨block, hblock⟩ : ∃ block, bodyBlock (.obj written) = .obj block := by
    cases hb : bodyBlock (.obj written) with
    | obj block => exact ⟨block, rfl⟩
    | _ => rw [hb] at htype; cases htype
  rw [hblock] at hproper htype hready
  refine ⟨block, ?_, htype, hproper⟩
  rw [get?_prepared_eq, get?_completed_of_ne (by decide), hsite.found, Option.map_some, hready]

/-- The statements in the body are visited, and answered with their records around them. -/
theorem BodyMarked.statements (hvisit : visit.Sound) (hsite : FunctionSite s₀ type fields written)
    (htype : Fields.type? block = some "BlockStatement") (hproper : (Json.obj block).Proper)
    (h : BodyMarked s₀ up type fields (Fields.mapValues .ofJson block) done s) :
    Ensures (Step.inField "body" (Step.inField "body" (Visit.statements visit))) s fun woven s' => ∃ ss ts,
      BodyMarked s₀ up type fields (Fields.set "body" (.arr ts) (Fields.mapValues .ofJson block)) done s' ∧
        Fields.get? "body" block = some (.arr ss) ∧
          Rewrites s₀.code .statements s₀.classes (some (.obj block)) (.arr ss) (.arr (woven.map Tree.bare)) := by
  obtain ⟨ss, hss, hlisted⟩ := Json.fits_list (hproper.fits "body" htype rfl rfl)
  obtain ⟨seen, made, fs, c, rfl, hp⟩ := h
  have hnd : (Fields.names (Fields.adjust "body" (.obj true (Fields.mapValues .ofJson block)) fs)).Nodup := by
    rw [Fields.names_adjust, hp.names_tree]
    exact nodup_completed hsite.proper.nodup
  refine ensures_inField rfl fun t ht => ?_
  have hmem := Fields.mem_names_of_get? ht
  rw [Fields.get?_adjust, if_pos rfl] at ht
  obtain ⟨-, -, rfl⟩ := Option.map_eq_some_iff.1 ht
  refine ⟨rfl, ensures_inField rfl fun t ht => ?_⟩
  rw [Fields.get?_mapValues, hss, Option.map_some, Option.some.injEq] at ht
  subst ht
  refine ⟨Tree.isShared_ofJson _, ?_⟩
  refine (ensures_statements (s := { s₀ with focus := .ofJson (.arr ss), counter := c }) hvisit (some (.obj block)) hsite.parts
    (Tree.ofJson_arr ss) (fun v hv => (hproper.field hss).item hv) fun v hv => ?_).mono ?_
  · obtain ⟨vfields, vtype, rfl, hvtype, hlisted⟩ := Json.isOneOf_iff.1 (hlisted v hv)
    rw [Json.isOneOf_obj hvtype]
    have hpart : ∀ t ∈ partTypes, t ∉ Grammar.listed := by decide
    simpa using fun ht => hpart vtype ht hlisted
  · rintro woven _ ⟨ts, c', rfl, hrw⟩
    refine ⟨ss, ts, ⟨seen, made, fs, c', ?_, hp⟩, hss, hrw⟩
    simp only [Fields.set_eq_adjust _ hnd hmem, Fields.adjust_adjust]

/-! ## The guarded body -/

/-- The statements in front that are directives. -/
theorem ensures_directiveCount (hparts : s.parts = []) : ∀ ts : List Tree,
    Ensures (Visit.directiveCount ts) s fun n s' => s' = s ∧
      (ts.take n).map Tree.bare = (ts.map Tree.bare).takeWhile isDirective ∧
        (ts.drop n).map Tree.bare = (ts.map Tree.bare).dropWhile isDirective
  | [] => ensures_pure.2 ⟨rfl, rfl, rfl⟩
  | t :: ts => by
    unfold Visit.directiveCount
    rw [ensures_bind, ensures_plain, hparts, Tree.expand_nil, ensures_bind, ensures_lift]
    intro b hb
    have hb : isDirective t.bare = b := Json.flag_eq_ok hb
    cases b with
    | false =>
      refine ensures_pure.2 ⟨rfl, ?_, ?_⟩
      · rw [List.map_cons, List.takeWhile_cons_of_neg (by rw [hb]; decide)]; rfl
      · rw [List.map_cons, List.dropWhile_cons_of_neg (by rw [hb]; decide)]; rfl
    | true =>
      rw [if_pos rfl, ensures_bind]
      refine (ensures_directiveCount hparts ts).mono ?_
      rintro n _ ⟨rfl, htake, hdrop⟩
      refine ensures_pure.2 ⟨rfl, ?_, ?_⟩
      · rw [List.map_cons, List.takeWhile_cons_of_pos hb, ← htake]; rfl
      · rw [List.map_cons, List.dropWhile_cons_of_pos hb, ← hdrop]; rfl

theorem ensures_fallsOff (hparts : s.parts = []) (ts : List Tree) :
    Ensures (Visit.fallsOff ts) s fun falls s' => s' = s ∧
      (falls = true ↔ ((ts.map Tree.bare).getLast?.bind Json.type?) ≠ some "ReturnStatement") := by
  unfold Visit.fallsOff
  rw [List.getLast?_map]
  cases hlast : ts.getLast? with
  | none => exact ensures_pure.2 ⟨rfl, by simp⟩
  | some t =>
    simp only [Option.map_some, Option.bind_some]
    cases t with
    | obj seen fs =>
      simp only [resolve, ensures_bind, ensures_pure, ensures_lift, layer_obj]
      intro returns hreturns
      refine ⟨trivial, ?_⟩
      simp only [Layer.hasType, bind_eq_ok, Layer.require_obj, pure_eq_ok, Except.ok.injEq] at hreturns
      obtain ⟨t, ht, rfl⟩ := hreturns
      rw [Tree.bare_obj, Json.type?, Fields.type?, Fields.get?_mapValues, ht, Option.map_some, Option.bind_some]
      cases t <;> simp [Layer.isString, layer, Layered.layer, Tree.layerOf, Json.string?, Tree.bare, Tree.expand, Tree.toJson,
        Tree.partJson]
    | shared k =>
      simp only [resolve, ensures_bind, ensures_get, ensures_pure, ensures_lift, hparts]
      rintro _ ⟨⟩
    | _ =>
      simp only [resolve, ensures_bind, ensures_pure, ensures_lift]
      rintro _ ⟨⟩

/-- What binds the names of the parameters still binds them. -/
theorem BodyMarked.paramNames (hsite : FunctionSite s₀ type fields written)
    (h : BodyMarked s₀ up type fields body ["params"] s) :
    Ensures Visit.paramNames s fun names s' => s' = s ∧ parameterNames fields = .ok names := by
  obtain ⟨-, hmode, hclass, -⟩ := hsite.keys
  obtain ⟨params, hparams, -⟩ := hsite.exists_params
  obtain ⟨seen, made, fs, c, rfl, hp⟩ := h
  have hprepared : Fields.get? "params" (prepared type fields) = some (.arr params) := by
    rw [get?_prepared_eq, get?_completed_of_ne (by decide), hparams, Option.map_some, readyField_eq_self (by decide)]
  obtain ⟨t, -, ht, hrw⟩ := hp.exists_visited (by decide) (by decide) hprepared
  rw [hmode "params" (by decide)] at hrw
  obtain ⟨ws, hws, hnames, -⟩ := (hrw.sameNames (by decide)).2.2 params rfl
  have hfield : Json.field "params" (Tree.obj seen (Fields.adjust "body" (.obj true body) fs)).bare = .arr ws := by
    rw [Tree.bare_obj, Json.field, Json.get?, Fields.get?_mapValues, Fields.get?_adjust, if_neg (by decide), ht, ← hws]
    rfl
  have hall : allBindingNames ws = parameterNames fields := by rw [parameterNames, hparams, allBindingNames, hnames]; rfl
  unfold Visit.paramNames
  rw [ensures_bind, ensures_plainField, hsite.parts, Tree.expand_nil, bare_field, hfield]
  cases ws with
  | nil => exact ensures_pure.2 ⟨rfl, hall.symm⟩
  | cons w ws =>
    rw [if_pos (show (Json.arr (w :: ws)).truthy = true from rfl), ensures_bind, ensures_lift]
    rintro _ ⟨⟩
    rw [ensures_lift]
    exact fun names hnames => ⟨rfl, hall ▸ hnames⟩

theorem BodyMarked.loc (h : BodyMarked s₀ up type fields body done s) (hdone : "loc" ∉ done) :
    Json.field "loc" s.focus.bare = Json.field "loc" (.obj fields) := by
  rw [Json.field, h.get?_kept hdone (by decide), Json.field, Json.get?]

theorem BodyMarked.isNode (hsite : FunctionSite s₀ type fields written) (h : BodyMarked s₀ up type fields body done s)
    (hdone : "type" ∉ done) : s.focus.isNode = true := by
  have hget := (h.get?_kept hdone (by decide)).trans (Fields.get?_of_type? hsite.type)
  obtain ⟨out, hout⟩ := h.isObj
  rw [← isNode_bare, hout]
  rw [hout] at hget
  exact Json.isNode_of_type? (j := .obj out) (Fields.type?_of_get? hget)

theorem bare_guard (statements : List Tree) (line name : Json) :
    (Probe.guard statements line name).bare = guarded (statements.map Tree.bare) line name := by
  simp [Probe.guard, Probe.node, guarded, blockOf]

/-- The body of a function, from its statements. -/
theorem ensures_instrumented (hsite : FunctionSite s₀ type fields written)
    (h : BodyMarked s₀ up type fields body ["params"] s) (name : Json) (woven : List Tree) :
    Ensures (Visit.instrumented name woven) s fun out s' => s' = s ∧ ∃ line endLine params,
      Node.line (.obj fields) = .ok line ∧ Node.endLine (.obj fields) = .ok endLine ∧ parameterNames fields = .ok params ∧
        out.map Tree.bare = functionBody line endLine name params (woven.map Tree.bare) := by
  have hnode : s.focus.isNode = true := h.isNode hsite (by decide)
  have hloc := h.loc (by decide)
  have hparts : s.parts = [] := by
    obtain ⟨seen, made, fs, c, rfl, hp⟩ := h
    exact hsite.parts
  obtain ⟨seen, fs, hfocus⟩ : ∃ seen fs, s.focus = .obj seen fs := by
    obtain ⟨seen, made, fs, c, rfl, hp⟩ := h
    exact ⟨_, _, rfl⟩
  rw [hfocus] at hnode hloc
  unfold Visit.instrumented
  rw [ensures_bind]
  refine (h.paramNames hsite).mono ?_
  rintro params _ ⟨rfl, hparams⟩
  rw [ensures_bind]
  refine ensures_line hparts hfocus hnode hsite.isNode hloc fun line hline => ?_
  rw [ensures_bind]
  refine (ensures_directiveCount hparts woven).mono ?_
  rintro n _ ⟨rfl, htake, hdrop⟩
  rw [ensures_bind]
  refine (ensures_fallsOff hparts _).mono ?_
  rintro falls _ ⟨rfl, hfalls⟩
  rw [hdrop] at hfalls
  have hend {R : Json → Pass → Prop} (hR : ∀ endLine, Node.endLine (.obj fields) = .ok endLine → R endLine _) :
      Ensures Step.endLine _ R := ensures_endLine hparts hfocus hnode hsite.isNode hloc hR
  cases falls with
  | false =>
    have hclosed : ∀ endLine, closed ((woven.map Tree.bare).dropWhile isDirective) endLine =
        (woven.map Tree.bare).dropWhile isDirective := fun endLine => if_pos (by simpa using hfalls)
    rw [if_neg (by decide), ensures_bind, ensures_pure, ensures_bind]
    refine hend fun endLine hendLine => ensures_pure.2 ⟨rfl, line, endLine, params, hline, hendLine, hparams, ?_⟩
    rw [List.map_append, htake, List.map_cons, List.map_singleton, bare_guard, hdrop, Tree.bare_ofProbe, functionBody, hclosed]
  | true =>
    have hclosed : ∀ endLine, closed ((woven.map Tree.bare).dropWhile isDirective) endLine =
        (woven.map Tree.bare).dropWhile isDirective ++ [Probe.returned endLine] := fun endLine => if_neg (hfalls.1 rfl)
    rw [if_pos rfl, ensures_bind]
    refine hend fun endLine hendLine => ?_
    rw [ensures_bind, ensures_pure, ensures_bind]
    refine hend fun endLine' hendLine' => ensures_pure.2 ⟨rfl, line, endLine, params, hline, hendLine, hparams, ?_⟩
    obtain rfl : endLine = endLine' := Except.ok.inj (hendLine.symm.trans hendLine')
    rw [List.map_append, htake, List.map_cons, List.map_singleton, bare_guard, List.map_append, hdrop, List.map_singleton,
      Tree.bare_ofProbe, Tree.bare_ofProbe, functionBody, hclosed]

/-- A block whose statements have been worked on. -/
theorem rewrites_block {code : Option String} {classes : List Json} (htype : Fields.type? block = some "BlockStatement")
    (hproper : (Json.obj block).Proper) {ss : List Json} (hss : Fields.get? "body" block = some (.arr ss)) {woven : List Tree}
    (h : Rewrites code .statements classes (some (.obj block)) (.arr ss) (.arr (woven.map Tree.bare))) :
    Rewrites code .visited classes up (.obj block)
      (Tree.obj true (Fields.set "body" (.arr woven) (Fields.mapValues .ofJson block))).bare := by
  have hcompleted : completed "BlockStatement" block = block := completed_of_type (by decide)
  have hkeys : visitedFields "BlockStatement" block = some ["body"] := by simp [visitedFields, ofGroup, visitTable]
  have hmade : Fields.get? "body" (completed "BlockStatement" block) = some (.arr ss) := hcompleted ▸ hss
  have hnd : (Fields.names (Fields.mapValues Tree.ofJson block)).Nodup := by
    rw [Fields.names_mapValues]
    exact hproper.nodup
  have hp := (Progress.start code classes up "BlockStatement" .null block).visit "body" (by decide) (.inl rfl) hmade
    (fun _ => readyField_of_type (by decide) _) (t := .arr woven) (by
      rw [show mode "BlockStatement" block "body" = .statements by simp [mode], classesAt, if_neg (by decide), Tree.bare_arr]
      exact h)
  rw [hcompleted] at hp
  rw [Fields.set_eq_adjust _ hnd (Fields.mem_names_of_get? (v := .ofJson (.arr ss)) (by rw [Fields.get?_mapValues, hss]; rfl))]
  refine hp.finish htype hproper (fun hc => absurd hc (by decide)) (fun key _ hk => ?_) (fun key _ _ => ?_) true
  · have hnot : key ∉ ["body"] := hk
    exact ⟨mode_of_not_visited hkeys hnot, readyField_of_not_visited hkeys hnot⟩
  · exact frameKind_of_not_mem (by simp [frameKeys, ofGroup, frameTable, functionTypes, loopTypes, Fields.names])

/-- The guarded body takes the place of the statements. -/
theorem BodyMarked.close (hsite : FunctionSite s₀ type fields written)
    (hblock : Fields.get? "body" (prepared type fields) = some (.obj block))
    (htype : Fields.type? block = some "BlockStatement") (hproper : (Json.obj block).Proper) {ss : List Json} {ts woven out : List Tree}
    (hss : Fields.get? "body" block = some (.arr ss))
    (hrw : Rewrites s₀.code .statements s₀.classes (some (.obj block)) (.arr ss) (.arr (woven.map Tree.bare)))
    (h : BodyMarked s₀ up type fields (Fields.set "body" (.arr ts) (Fields.mapValues .ofJson block)) ["params"] s)
    {f : List Json → List Json} (hout : out.map Tree.bare = f (woven.map Tree.bare))
    (hframe : ∀ made v, Frame s₀.code s₀.classes up type fields made .function v (onList "body" f v)) {e : Fault} :
    Ensures (Step.inField "body" (Step.inField "body" (changeList e fun _ => out))) s fun _ s' => ∃ t c,
      s' = { s₀ with focus := t, queue := s₀.queue.push [] (Json.obj fields).writes, counter := c } ∧
        Rewrites s₀.code .visited s₀.classes up (.obj fields) t.bare := by
  obtain ⟨hkeys, hmode, hclass, -⟩ := hsite.keys
  have hmode : mode type fields "body" = .visited := hmode _ (by decide)
  have hfunction := hsite.function
  have hkind : frameKind type "body" = .function ∧ frameKeys type = ["body"] ∧
      type ∉ ["AssignmentExpression", "UpdateExpression", "VariableDeclarator"] ∧
      ["params", "body"].filter (fun key => !isApart type key) = [] := by
    simp only [functionTypes, List.mem_cons, List.not_mem_nil, or_false] at hfunction
    rcases hfunction with rfl | rfl | rfl <;> exact ⟨rfl, rfl, by decide, rfl⟩
  obtain ⟨hkind, hframes, hown, happart⟩ := hkind
  have hwrites : (Json.obj fields).writes = [] := by rw [writes_of_visited hsite.type hkeys hown, happart]; rfl
  obtain ⟨seen, made, fs, c, rfl, hp⟩ := h
  have hnd : (Fields.names (Fields.adjust "body" (.obj true (Fields.set "body" (.arr ts) (Fields.mapValues .ofJson block))) fs)).Nodup := by
    rw [Fields.names_adjust, hp.names_tree]
    exact nodup_completed hsite.proper.nodup
  have hmade : Fields.get? "body" made = some (.obj block) := by
    rw [hp.waiting "body" (by decide), if_pos (by decide), hblock]
  -- the statements, then what is put around them
  have hvisited := hp.visit _ (by decide) (.inl rfl) hmade (fun hk => absurd hk (by decide))
    (t := .obj true (Fields.set "body" (.arr woven) (Fields.mapValues .ofJson block))) (by
      rw [hmode, classesAt, if_neg fun hc => hclass hc.1]
      exact rewrites_block htype hproper hss hrw)
  have hbare : (Tree.obj true (Fields.set "body" (.arr out) (Fields.mapValues .ofJson block))).bare =
      onList "body" f (Tree.obj true (Fields.set "body" (.arr woven) (Fields.mapValues .ofJson block))).bare := by
    rw [Tree.bare_obj, Tree.bare_obj, Fields.mapValues_set, Fields.mapValues_set, Tree.bare_arr, Tree.bare_arr,
      onList_obj f (l := woven.map Tree.bare) (by rw [Fields.get?_set, if_pos rfl]), hout, Fields.set_set]
  have hframed := hvisited.frame "body" (by decide)
    (t := .obj true (Fields.set "body" (.arr out) (Fields.mapValues .ofJson block))) (by
      rw [Fields.get?_adjust, if_pos rfl, hmade]; rfl) (by
      rw [hkind, hbare]
      exact hframe _ _)
  refine ensures_inField rfl fun t ht => ?_
  have hmem := Fields.mem_names_of_get? ht
  rw [Fields.get?_adjust, if_pos rfl] at ht
  obtain ⟨-, -, rfl⟩ := Option.map_eq_some_iff.1 ht
  refine ⟨rfl, ensures_inField rfl fun t ht => ?_⟩
  rw [Fields.get?_set, if_pos rfl] at ht
  cases ht
  refine ⟨rfl, ensures_changeList.2 ?_⟩
  rintro _ ⟨⟩
  refine ⟨_, c, ?_, hframed.finish hsite.type hsite.proper (fun hc => absurd hc hclass) (fun key _ hk => ?_)
    (fun key _ hk => ?_) seen⟩
  · simp only [hwrites, Queue.push_nil, Fields.set_eq_adjust _ hnd hmem, Fields.adjust_adjust, Fields.set_set]
  · have hnot : key ∉ ["params", "body"] := fun hm => hk (by simpa [or_comm] using hm)
    exact ⟨mode_of_not_visited hkeys hnot, readyField_of_not_visited hkeys hnot⟩
  · exact frameKind_of_not_mem (by rw [hframes]; exact hk)

end Marked

theorem places_function (hvisit : visit.Sound) {parent : Option Tree} (hparent : SameParent parent up)
    (htype : type ∈ functionTypes) (hsite : Site s type fields) :
    Places .visited (Visit.function visit parent) s.classes up (.obj fields) [] (Json.obj fields).writes s := by
  obtain ⟨written, wtype, hwritten, hwtype, hwmem⟩ : ∃ written wtype, Fields.get? "body" fields = some (.obj written) ∧
      Fields.type? written = some wtype ∧ wtype ∈ "BlockStatement" :: Grammar.expressions := by
    have hfunction := htype
    simp only [functionTypes, List.mem_cons, List.not_mem_nil, or_false] at hfunction
    rcases hfunction with rfl | rfl | rfl
    all_goals
      obtain ⟨written, wtype, hwritten, hwtype, hmem⟩ :=
        Json.fits_node (hsite.proper.fits "body" hsite.type rfl rfl)
      refine ⟨written, wtype, hwritten, hwtype, ?_⟩
    · exact List.mem_cons.2 (.inl (List.mem_singleton.1 hmem))
    · exact List.mem_cons.2 (.inl (List.mem_singleton.1 hmem))
    · exact hmem
  have hsite : FunctionSite s type fields written :=
    ⟨hsite, htype, hwritten, Json.isOneOf_iff.2 ⟨written, wtype, rfl, hwtype, hwmem⟩⟩
  obtain ⟨block, hblock, hbtype, hbproper⟩ := hsite.exists_block
  unfold Visit.function
  rw [Places, ensures_bind]
  refine (ensures_arrowBody hsite up).mono fun _ s₁ h => ?_
  -- a body that is read for the first time is not marked
  have hunseen : Ensures (child "body") s₁ fun t s' => s' = s₁ ∧ t.seen = false := by
    obtain ⟨seen, made, fs, c, rfl, hp⟩ := h
    have hfs : Fields.get? "body" fs = some (.ofJson (.obj block)) := by
      rw [hp.fresh "body" (by decide), hp.waiting "body" (by decide), if_pos (by decide), hblock]; rfl
    unfold child
    rw [ensures_bind, ensures_place]
    intro t ht
    rw [layer_obj, Layer.require_obj, hfs, Option.some.injEq] at ht
    subst ht
    exact ensures_pure.2 ⟨rfl, rfl⟩
  rw [ensures_bind]
  refine hunseen.mono ?_
  rintro t _ ⟨rfl, hseen⟩
  rw [hseen, if_neg (by decide), ensures_bind]
  refine (h.markBody hsite.proper hblock).mono fun _ s₂ h => ?_
  rw [ensures_bind]
  refine (h.name hsite (by decide) hparent).mono ?_
  rintro name _ ⟨rfl, hname⟩
  rw [ensures_bind]
  refine (h.params hvisit hsite).mono fun _ s₃ h => ?_
  rw [ensures_bind]
  refine (h.statements hvisit hsite hbtype hbproper).mono ?_
  rintro woven s₄ ⟨ss, ts, h, hss, hrw⟩
  rw [ensures_bind]
  refine (ensures_instrumented hsite h name woven).mono ?_
  rintro out _ ⟨rfl, line, endLine, params, hline, hend, hparams, hout⟩
  exact h.close hsite hblock hbtype hbproper hss hrw hout fun made v => .function line endLine name v params hline hend hname hparams

end Rules

end ScriptTrace
