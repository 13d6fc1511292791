import ScriptTrace.Proofs.BareTrees
import ScriptTrace.Proofs.Preservation

/-!
# Steps of the visitors

What the steps that visitors are made of ensure, in a tree read from JSON that no pass has touched.

* `Visitor.Sound` : a visitor makes of a value what `Rewrites` tells, and queues its records;
* `Fields.adjust` : fields with another value in a place, if there is one;
* `ensures_field`, `ensures_headerField`, `ensures_asBlock` : steps on one field of the focus;
* `ensures_line`, `ensures_conditionText`, `ensures_child?`, ... : steps that read the focus;
* `Rewrites.assemble` : a node whose fields have been worked on one by one.
-/

namespace ScriptTrace

open Rewriting Step

/-! ## Queues -/

/-- A queue with more records; those that follow a statement only where it allows them. -/
def Queue.push (q : Queue) (before after : List Json) : Queue :=
  { q with
    before := q.before ++ before.map .ofProbe
    after := q.after ++ if q.allowsAfter then after.map .ofProbe else [] }

@[simp] theorem Queue.push_nil (q : Queue) : q.push [] [] = q := by
  simp [push]

@[simp] theorem Queue.push_push (q : Queue) (a b c d : List Json) :
    (q.push a b).push c d = q.push (a ++ c) (b ++ d) := by
  cases h : q.allowsAfter <;> simp [push, h]

@[simp] theorem Queue.push_allowsAfter (q : Queue) (a b : List Json) : (q.push a b).allowsAfter = q.allowsAfter := rfl

/-- Records are dropped where none may follow. -/
theorem Queue.push_of_not_allows {q : Queue} (h : q.allowsAfter = false) (after : List Json) : q.push [] after = q := by
  cases q
  cases h
  simp [push]

theorem Queue.push_of_allows {q : Queue} (h : q.allowsAfter = true) (record : Json) :
    q.push [] [record] = { q with after := q.after ++ [.ofProbe record] } := by
  simp [push, h]

theorem Queue.foldl_push (f g : Json → List Json) (items : List Json) (q : Queue) :
    items.foldl (fun q v => q.push (f v) (g v)) q = q.push (items.flatMap f) (items.flatMap g) := by
  induction items generalizing q with
  | nil => simp
  | cons v items ih => rw [List.foldl_cons, ih, push_push, List.flatMap_cons, List.flatMap_cons]

/-! ## Fields with one place changed -/

namespace Fields

variable {α β : Type}

/-- Puts a value under a name that is there. -/
def adjust (key : String) (value : α) (fields : Fields α) : Fields α :=
  fields.map fun p => (p.1, if p.1 = key then value else p.2)

@[simp] theorem names_adjust (key : String) (value : α) (fields : Fields α) :
    names (adjust key value fields) = names fields := names_mapWithKey (fun k v => if k = key then value else v) fields

@[simp] theorem get?_adjust (key k : String) (value : α) (fields : Fields α) :
    get? k (adjust key value fields) = if k = key then (get? k fields).map (fun _ => value) else get? k fields := by
  rw [adjust, get?_mapWithKey (fun k v => if k = key then value else v)]
  split
  · rfl
  · simp

theorem set_eq_adjust {key : String} {fields : Fields α} (value : α) (hnd : (names fields).Nodup)
    (hmem : key ∈ names fields) : set key value fields = adjust key value fields := by
  have hnames : names (set key value fields) = names fields := names_set_of_mem hmem
  refine ext (by rw [hnames, names_adjust]) (hnames ▸ hnd) fun k => ?_
  obtain ⟨v, hv⟩ := exists_get? hmem
  rw [get?_set, get?_adjust]
  by_cases h : key = k
  · subst h
    simp [hv]
  · rw [if_neg h, if_neg (Ne.symm h)]

theorem adjust_comm {a b : String} (hab : a ≠ b) (v w : α) (fields : Fields α) :
    adjust a v (adjust b w fields) = adjust b w (adjust a v fields) := by
  simp only [adjust, List.map_map]
  refine List.map_congr_left fun p _ => ?_
  by_cases ha : p.1 = a
  · simp [ha, hab]
  · simp [ha]

@[simp] theorem adjust_adjust (key : String) (v w : α) (fields : Fields α) :
    adjust key v (adjust key w fields) = adjust key v fields := by
  simp only [adjust, List.map_map]
  refine List.map_congr_left fun p _ => ?_
  by_cases h : p.1 = key <;> simp [h]

/-- Nothing changes where the value is there already. -/
theorem adjust_eq_self {key : String} {value : α} {fields : Fields α} (hnd : (names fields).Nodup)
    (h : ∀ v, get? key fields = some v → v = value) : adjust key value fields = fields := by
  refine ext (names_adjust ..) (by rwa [names_adjust]) fun k => ?_
  rw [get?_adjust]
  split
  · next hk =>
    subst hk
    cases hv : get? k fields with
    | none => rfl
    | some v => rw [h v hv]; rfl
  · rfl

end Fields

/-! ## Sound visitors -/

/-- The node around as the pass has it names functions as the node that was written does. -/
def SameParent (parent : Option Tree) (up : Option Json) : Prop :=
  ∀ classes j, functionName classes j (parent.map Tree.bare) = functionName classes j up

theorem SameParent.none : SameParent none none := fun _ _ => rfl

theorem SameParent.refl (t : Tree) : SameParent (some t) (some t.bare) := fun _ _ => rfl

/-- What a step that works on a value ensures: it makes of it what is told by `Rewrites`, queues the
records given, and changes nothing else. -/
def Places {α : Type} (m : Mode) (act : Step α) (classes : List Json) (up : Option Json) (j : Json)
    (before after : List Json) (s : Pass) : Prop :=
  Ensures act s fun _ s' => ∃ t c,
    s' = { s with focus := t, queue := s.queue.push before after, counter := c } ∧
      Rewrites s.code m classes up j t.bare

/-- Types of nodes that are worked on by the rule of the node around them. -/
def partTypes : List String := ["VariableDeclarator", "ClassBody"]

/-- A visitor that works as told on proper nodes, and leaves alone what is no node. -/
structure Visitor.Sound (visit : Visitor) : Prop where
  node (parent : Option Tree) (up : Option Json) (j : Json) (s : Pass) (hparts : s.parts = [])
    (hfocus : s.focus = .ofJson j) (hnode : j.isNode = true) (hproper : j.Proper)
    (hpart : j.isOneOf partTypes = false) (hparent : SameParent parent up) :
    Places .visited (visit parent) s.classes up j j.declares j.writes s
  other (parent : Option Tree) (j : Json) (s : Pass) (hfocus : s.focus = .ofJson j) (hnode : j.isNode = false) :
    Ensures (visit parent) s fun _ s' => s' = s

theorem writes_eq_nil {v : Json} (hnode : v.isNode = false) (hlist : ∀ items, v ≠ .arr items) : v.writes = [] := by
  cases v with
  | arr items => exact absurd rfl (hlist items)
  | obj fields =>
    rw [Json.writes, writesOf, show Fields.type? fields = none from type?_eq_none hnode]
  | _ => rfl

theorem declares_of_not_node {v : Json} (hnode : v.isNode = false) : v.declares = [] :=
  declares_eq_nil (by rw [type?_eq_none hnode]; simp)

section Places

variable {α : Type} {m : Mode} {act : Step α} {classes : List Json} {up : Option Json} {j : Json} {before after : List Json}
  {s : Pass} {visit : Visitor}

/-- A visitor leaves alone a value that is neither a node nor a list, which has no records. -/
theorem Visitor.Sound.places (hvisit : visit.Sound) {parent : Option Tree} (hparts : s.parts = [])
    (hfocus : s.focus = .ofJson j) (hlist : ∀ items, j ≠ .arr items) (hproper : j.Proper)
    (hpart : j.isOneOf partTypes = false) (hparent : SameParent parent up) :
    Places .visited (visit parent) s.classes up j j.declares j.writes s := by
  cases hnode : j.isNode with
  | true => exact hvisit.node parent up j s hparts hfocus hnode hproper hpart hparent
  | false =>
    refine (hvisit.other parent j s hfocus hnode).mono fun _ s' hs => ⟨.ofJson j, s.counter, ?_, ?_⟩
    · rw [hs, declares_of_not_node hnode, writes_eq_nil hnode hlist, Queue.push_nil, ← hfocus]
    · rw [Tree.bare_ofJson]
      exact .value _ _ j hnode hlist

theorem Places.quietly (h : Places m act classes up j before after { s with queue := .empty false }) :
    Places m (quietly act) classes up j [] [] s := by
  rw [Places, ensures_quietly]
  refine h.mono fun _ s' ⟨t, c, hs, hr⟩ => ⟨t, c, ?_, hr⟩
  rw [hs, Queue.push_nil]

theorem Places.inClass {name : Json} (h : Places m act classes up j before after { s with classes := name :: s.classes }) :
    Places m (inClass name act) classes up j before after s := by
  rw [Places, ensures_inClass]
  exact h.mono fun _ s' ⟨t, c, hs, hr⟩ => ⟨t, c, by rw [hs], hr⟩

/-- What relates items and trees one by one relates the items and what the trees stand for. -/
theorem bare_zip {R : Json → Json → Prop} {items : List Json} {ts : List Tree}
    (h : List.Forall₂ (fun v t => if v.isNode then R v t.bare else t.bare = v) items ts) :
    ∀ p ∈ items.zip (ts.map Tree.bare), if p.1.isNode then R p.1 p.2 else p.2 = p.1 := by
  intro p hp
  have hf : List.Forall₂ (fun v w => if v.isNode then R v w else w = v) items (ts.map Tree.bare) :=
    List.forall₂_map_right_iff.2 h
  exact (List.forall₂_iff_zip.1 hf).2 hp

/-- The items of a list, one after the other. -/
theorem places_items (act : Step α) (classes : List Json) (up : Option Json) (befores afters : Json → List Json)
    {items : List Json} (hfocus : s.focus = .arr (items.map .ofJson))
    (h : ∀ v ∈ items, v.isNode = true → ∀ queue counter,
      Places .visited act classes up v (befores v) (afters v)
        { s with focus := .ofJson v, queue := queue, counter := counter })
    (hother : ∀ v ∈ items, v.isNode = false → ∀ queue counter,
      Ensures act { s with focus := .ofJson v, queue := queue, counter := counter } fun _ s' =>
        s' = { s with focus := .ofJson v, queue := queue, counter := counter }) :
    Places .visited (eachItem act) classes up (.arr items)
      (items.flatMap fun v => if v.isNode then befores v else [])
      (items.flatMap fun v => if v.isNode then afters v else []) s := by
  have hitems := ensures_eachItem (s := s) act
    (fun q v => q.push (if v.isNode then befores v else []) (if v.isNode then afters v else [])) hfocus
    (R := fun v t => if v.isNode then Rewrites s.code .visited classes up v t.bare else t.bare = v)
    (A := fun _ _ => True) ?_
  · refine hitems.mono fun _ s' ⟨ts, c, hs, hrw, _⟩ => ⟨.arr ts, c, ?_, ?_⟩
    · rw [hs, Queue.foldl_push]
    · rw [Tree.bare_arr]
      have hzip := bare_zip hrw
      refine .items _ _ _ _ (by simpa using hrw.length_eq) (fun p hp hn => ?_) (fun p hp hn => ?_)
      · simpa [hn] using hzip p hp
      · simpa [hn] using hzip p hp
  · intro v hv queue counter
    cases hn : v.isNode with
    | true =>
      refine (h v hv hn queue counter).mono fun _ s' ⟨t, c, hs, hr⟩ => ⟨t, c, ?_, ?_, trivial⟩
      · simpa using hs
      · simpa using hr
    | false =>
      refine (hother v hv hn queue counter).mono fun _ s' hs => ⟨.ofJson v, counter, ?_, ?_, trivial⟩
      · simpa using hs
      · simp

/-- The items of a list, each visited. -/
theorem Visitor.Sound.items (hvisit : visit.Sound) {parent : Option Tree} {items : List Json} (hparts : s.parts = [])
    (hfocus : s.focus = .arr (items.map .ofJson)) (hproper : ∀ v ∈ items, v.Proper)
    (hpart : ∀ v ∈ items, v.isOneOf partTypes = false) (hparent : SameParent parent up) :
    Places .visited (eachItem (visit parent)) s.classes up (.arr items)
      (items.flatMap fun v => if v.isNode then v.declares else []) (Json.arr items).writes s := by
  rw [Json.writes_arr]
  exact places_items _ _ _ _ _ hfocus
    (fun v hv hn queue counter => hvisit.node parent up v _ hparts rfl hn (hproper v hv) (hpart v hv) hparent)
    (fun v _ hn queue counter => hvisit.other parent v _ rfl hn)

end Places

/-! ## Statements -/

section Statements

variable {s : Pass} {visit : Visitor}

theorem ensures_statement (hvisit : visit.Sound) {j : Json} (hparts : s.parts = []) (hfocus : s.focus = .ofJson j)
    (hproper : j.Proper) (hpart : j.isOneOf partTypes = false) : Ensures (Visit.statement visit) s fun q s' => ∃ t c,
      s' = { s with focus := t, counter := c } ∧
        (if j.isNode then Rewrites s.code .visited s.classes none j t.bare else t.bare = j) ∧
        q.before = j.declares.map .ofProbe ∧ q.after = j.writesAfter.map .ofProbe := by
  unfold Visit.statement
  rw [ensures_bind, ensures_focus, hfocus, Tree.isNode_ofJson, Tree.seen_ofJson, Bool.or_false, ensures_if]
  refine ⟨fun hn => ?_, fun hn => ?_⟩
  · have hn : j.isNode = false := by simpa using hn
    rw [ensures_pure]
    refine ⟨.ofJson j, s.counter, by rw [← hfocus], by simp [hn], ?_, ?_⟩
    · rw [declares_of_not_node hn]; rfl
    · rw [writesAfter_eq_nil hn]; rfl
  · have hn : j.isNode = true := by simpa using hn
    cases j with
    | obj fields =>
      obtain ⟨type, htype⟩ := hproper.exists_type hn
      have hsafe : (layer (Tree.ofJson (.obj fields))).hasTypeIn Visit.safeTypes = .ok (Visit.safeTypes.contains type) := by
        rw [Tree.ofJson_obj, layer_obj]
        refine hasTypeIn_obj (x := .str type) ?_ rfl _
        rw [Fields.get?_mapValues, Fields.get?_of_type? htype]; rfl
      rw [ensures_bind, ensures_lift, hsafe]
      rintro _ ⟨⟩
      rw [ensures_bind, ensures_withQueue]
      simp only [ensures_pure]
      refine (hvisit.node none none (.obj fields) { s with queue := .empty (Visit.safeTypes.contains type) }
        hparts hfocus hn hproper hpart .none).mono ?_
      rintro _ s' ⟨t, c, rfl, hr⟩
      refine ⟨t, c, rfl, by simpa [hn] using hr, ?_, ?_⟩
      · simp [Queue.push, Queue.empty]
      · rw [Json.writesAfter, Json.isOneOf_obj htype]
        cases Visit.safeTypes.contains type <;> simp [Queue.push, Queue.empty]
    | _ => cases hn

/-- The weaving of a pass is that of plain lists. -/
theorem weave_bare : ∀ {ss : List Json} {ts : List Tree} {qs : List Queue}, ss.length = ts.length →
    List.Forall₂ (fun (j : Json) (q : Queue) => q.before = j.declares.map .ofProbe ∧ q.after = j.writesAfter.map .ofProbe) ss qs →
    (Visit.weave ts qs).map Tree.bare = weave ss (ts.map Tree.bare)
  | [], [], _, _, .nil => rfl
  | j :: ss, t :: ts, q :: qs, hlen, .cons ⟨hb, ha⟩ hqs => by
    have hcomp : Tree.bare ∘ Tree.ofProbe = id := funext Tree.bare_ofProbe
    rw [Visit.weave, List.map_append, List.map_cons, List.map_append, weave_bare (Nat.succ.inj hlen) hqs, hb, ha]
    simp [weave, hcomp]

theorem ensures_statements (hvisit : visit.Sound) (up : Option Json) {ss : List Json} (hparts : s.parts = [])
    (hfocus : s.focus = .arr (ss.map .ofJson)) (hproper : ∀ v ∈ ss, v.Proper)
    (hpart : ∀ v ∈ ss, v.isOneOf partTypes = false) :
    Ensures (Visit.statements visit) s fun woven s' => ∃ ts c,
      s' = { s with focus := .arr ts, counter := c } ∧
        Rewrites s.code .statements s.classes up (.arr ss) (.arr (woven.map Tree.bare)) := by
  unfold Visit.statements
  rw [ensures_bind]
  have hitems := ensures_eachItem (s := s) (Visit.statement visit) (fun q _ => q) hfocus
    (R := fun v t => if v.isNode then Rewrites s.code .visited s.classes none v t.bare else t.bare = v)
    (A := fun j q => q.before = j.declares.map .ofProbe ∧ q.after = j.writesAfter.map .ofProbe) ?_
  · refine hitems.mono ?_
    rintro queues s' ⟨ts, c, rfl, hrw, hqs⟩
    have hqueue : ss.foldl (fun q _ => q) s.queue = s.queue := by
      clear hqs hrw hproper hfocus hitems
      induction ss <;> simp_all
    simp only [ensures_bind, ensures_focus, layer_arr, Layer.elements_arr, ensures_lift, ensures_pure]
    rintro _ ⟨⟩
    refine ⟨ts, c, by rw [hqueue], ?_⟩
    rw [weave_bare hrw.length_eq hqs]
    have hzip := bare_zip hrw
    refine .statements _ _ _ _ (by simpa using hrw.length_eq) (fun p hp hn => ?_) (fun p hp hn => ?_)
    · simpa [hn] using hzip p hp
    · simpa [hn] using hzip p hp
  · intro v hv queue counter
    exact ensures_statement hvisit hparts rfl (hproper v hv) (hpart v hv)

theorem places_statementList (hvisit : visit.Sound) (up : Option Json) {ss : List Json} (hparts : s.parts = [])
    (hfocus : s.focus = .arr (ss.map .ofJson)) (hproper : ∀ v ∈ ss, v.Proper)
    (hpart : ∀ v ∈ ss, v.isOneOf partTypes = false) :
    Places .statements (Visit.statementList visit) s.classes up (.arr ss) [] [] s := by
  unfold Visit.statementList
  rw [Places, ensures_bind]
  refine (ensures_statements hvisit up hparts hfocus hproper hpart).mono ?_
  rintro woven s' ⟨ts, c, rfl, hrw⟩
  simp only [ensures_changeList]
  rintro _ -
  exact ⟨.arr woven, c, by rw [Queue.push_nil], by rwa [Tree.bare_arr]⟩

end Statements

/-! ## Reading the focus -/

section Reading

variable {s : Pass} {seen : Bool} {fs : Fields Tree} {key : String}

theorem ensures_child?_none {R : Option Tree → Pass → Prop} (hfocus : s.focus = .obj seen fs)
    (hget : Fields.get? key fs = none ∨ Fields.get? key fs = some .null) (h : R none s) : Ensures (child? key) s R := by
  unfold child?
  rw [ensures_bind, ensures_focus, hfocus]
  rcases hget with hget | hget <;> simpa [hget] using h

theorem ensures_child?_some {R : Option Tree → Pass → Prop} {t : Tree} (hfocus : s.focus = .obj seen fs)
    (hget : Fields.get? key fs = some t) (hnull : t ≠ .null) (hshared : t.isShared = false) (h : R (some t) s) :
    Ensures (child? key) s R := by
  unfold child?
  rw [ensures_bind, ensures_focus, hfocus]
  cases t with
  | null => exact absurd rfl hnull
  | shared k => cases hshared
  | _ => simpa [hget, resolve] using h

theorem field_of_get? {t : Tree} (hget : Fields.get? key fs = some t) : (Tree.obj seen fs).field key = t := by
  simp [Tree.field, hget]

theorem bare_field (seen : Bool) (fs : Fields Tree) (key : String) :
    ((Tree.obj seen fs).field key).bare = Json.field key (Tree.obj seen fs).bare := by
  simp only [Tree.field, Json.field, Json.get?, Tree.bare_obj, Fields.get?_mapValues]
  cases Fields.get? key fs <;> rfl

theorem ensures_line {R : Json → Pass → Prop} (hparts : s.parts = []) (hfocus : s.focus = .obj seen fs)
    (hnode : (Tree.obj seen fs).isNode = true) {j : Json} (hj : j.isNode = true)
    (hloc : Json.field "loc" (Tree.obj seen fs).bare = j.field "loc")
    (h : ∀ line, Node.line j = .ok line → R line s) : Ensures line s R := by
  have hpos : Node.position j = j.field "loc" := by rw [Node.position, if_pos hj]
  simp only [line, position, ensures_bind, ensures_focus, hfocus, hnode, if_true, ensures_plainField, hparts,
    Tree.expand_nil, bare_field, hloc, ensures_lift]
  exact fun line hl => h line (by rw [Node.line, hpos]; exact hl)

theorem ensures_endLine {R : Json → Pass → Prop} (hparts : s.parts = []) (hfocus : s.focus = .obj seen fs)
    (hnode : (Tree.obj seen fs).isNode = true) {j : Json} (hj : j.isNode = true)
    (hloc : Json.field "loc" (Tree.obj seen fs).bare = j.field "loc")
    (h : ∀ line, Node.endLine j = .ok line → R line s) : Ensures endLine s R := by
  have hpos : Node.position j = j.field "loc" := by rw [Node.position, if_pos hj]
  simp only [endLine, position, ensures_bind, ensures_focus, hfocus, hnode, if_true, ensures_plainField, hparts,
    Tree.expand_nil, bare_field, hloc, ensures_lift]
  exact fun line hl => h line (by rw [Node.endLine, hpos]; exact hl)

theorem ensures_conditionText {R : Json → Pass → Prop} {t : Tree} (hparts : s.parts = [])
    (h : ∀ text, Node.conditionText t.bare s.code = .ok text → R (.str text) s) : Ensures (conditionText t) s R := by
  simp only [conditionText, ensures_bind, ensures_plain, hparts, Tree.expand_nil, ensures_get, ensures_lift,
    ensures_pure]
  exact h

end Reading

end ScriptTrace
