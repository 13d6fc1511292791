import ScriptTrace.Proofs.ReadingFaults
import ScriptTrace.Service.Drawing
import Mathlib.Data.List.Sort

/-!
# A drawing is the tree that is drawn

A node of a tree is known by the way to it from the top: which child to go to, and so on. In the order of a dictionary
the ways to all nodes are the nodes in the order in which they are met, each before the nodes below it. A drawing has its
boxes in this order, and an edge for every way that goes on from another by one child.

* `nodeAt` : the node at the end of a way; `Sketch.ways` : all ways, in order;
* `sketch_eq_ok`, `exists_sketch_iff` : the sketch of a tree, which there is if every node has a label;
* `Sketch.mem_edges`, `Sketch.pairwise_edges` : the edges of a drawing with numbers from any number on;
* `Drawing.Pictures` : a drawing of a tree;
* `drawTree_pictures` : every tree whose nodes have labels has one.
-/

namespace ScriptTrace

/-! ## Ways -/

/-- The node at the end of a way from a node: the child at the first position, and so on. -/
def nodeAt : List Nat → Json → Option Json
  | [], node => some node
  | i :: way, node =>
    match Node.children node with
    | .ok children => children[i]?.bind (nodeAt way)
    | .error _ => none

namespace Sketch

def label : Sketch → Json
  | node label _ => label

def children : Sketch → List Sketch
  | node _ children => children

/-- Induction over a sketch: the sketches below it. -/
theorem ind {motive : Sketch → Prop} (node : ∀ label children, (∀ c ∈ children, motive c) → motive (.node label children))
    (s : Sketch) : motive s :=
  @Sketch.rec motive (fun children => ∀ c ∈ children, motive c) node nofun (fun _ _ hc hcs => List.forall_mem_cons.2 ⟨hc, hcs⟩) s

/-- The sketch at the end of a way. -/
def descend : List Nat → Sketch → Option Sketch
  | [], s => some s
  | i :: way, s => s.children[i]?.bind (descend way)

mutual

/-- The ways to all nodes, each in front of those that go on from it. -/
def ways : Sketch → List (List Nat)
  | node _ children => [] :: waysFrom 0 children

/-- The ways over some children, the first of which is at position `first`. -/
def waysFrom (first : Nat) : List Sketch → List (List Nat)
  | [] => []
  | c :: cs => c.ways.map (first :: ·) ++ waysFrom (first + 1) cs

end

/-! ## Which ways there are, and in which order -/

/-- The ways over some children go to one of them and on from there. -/
theorem mem_waysFrom {children : List Sketch} {first : Nat} {way : List Nat} : way ∈ waysFrom first children ↔
    ∃ i c rest, children[i]? = some c ∧ way = (first + i) :: rest ∧ rest ∈ c.ways := by
  induction children generalizing first with
  | nil => simp [waysFrom]
  | cons c cs ih =>
    rw [waysFrom, List.mem_append, ih, List.mem_map]
    constructor
    · rintro (⟨rest, hrest, rfl⟩ | ⟨i, d, rest, hd, rfl, hrest⟩)
      · exact ⟨0, c, rest, rfl, rfl, hrest⟩
      · exact ⟨i + 1, d, rest, hd, by rw [Nat.add_right_comm, Nat.add_assoc], hrest⟩
    · rintro ⟨i, d, rest, hd, rfl, hrest⟩
      cases i with
      | zero =>
        cases hd
        exact .inl ⟨rest, hrest, rfl⟩
      | succ i => exact .inr ⟨i, d, rest, hd, by rw [Nat.add_right_comm, Nat.add_assoc], hrest⟩

theorem mem_ways {s : Sketch} {way : List Nat} : way ∈ s.ways ↔ (s.descend way).isSome = true := by
  induction s using ind generalizing way with
  | node label children ih =>
    rw [ways, List.mem_cons, mem_waysFrom]
    cases way with
    | nil => simp [descend]
    | cons i way =>
      cases hc : children[i]? with
      | none => simp [descend, Sketch.children, hc]
      | some c => simpa [descend, Sketch.children, hc] using ih c (List.mem_of_getElem? hc)

/-- The ways are in the order of a dictionary. -/
theorem pairwise_ways (s : Sketch) : s.ways.Pairwise (· < ·) := by
  induction s using ind with
  | node label children ih =>
    have hfrom (first : Nat) : (waysFrom first children).Pairwise (· < ·) := by
      induction children generalizing first with
      | nil => exact .nil
      | cons c cs ihcs =>
        rw [waysFrom, List.pairwise_append]
        refine ⟨?_, ihcs (fun d hd => ih d (List.mem_cons_of_mem c hd)) (first + 1), fun way hway way' hway' => ?_⟩
        · exact (ih c List.mem_cons_self).map _ fun way way' h => List.cons_lt_cons_iff.2 (.inr ⟨rfl, h⟩)
        · obtain ⟨rest, -, rfl⟩ := List.mem_map.1 hway
          obtain ⟨i, d, rest', -, rfl, -⟩ := mem_waysFrom.1 hway'
          exact List.cons_lt_cons_iff.2 (.inl (by omega))
    rw [ways, List.pairwise_cons]
    refine ⟨fun way hway => ?_, hfrom 0⟩
    obtain ⟨i, c, rest, -, rfl, -⟩ := mem_waysFrom.1 hway
    exact List.nil_lt_cons _ _

/-! ## Boxes -/

/-- Whether the boxes of a drawing are numbered from `n` on, and labelled as the nodes at the end of the ways. -/
structure Boxed (n : Nat) (labelAt : List Nat → Option Json) (boxes : List (Nat × Json)) (ways : List (List Nat)) : Prop where
  numbers : boxes.map (·.1) = List.range' n ways.length
  labels : List.Forall₂ (fun box way => labelAt way = some box.2) boxes ways

theorem boxes_children {children : List Sketch}
    (h : ∀ c ∈ children, ∀ n, Boxed n (fun way => (c.descend way).map label) (c.draw n).boxes c.ways) (parent first n : Nat) :
    (drawChildren parent n children).boxes.map (·.1) = List.range' n (waysFrom first children).length ∧
      List.Forall₂ (fun box way => ∃ i rest, way = (first + i) :: rest ∧
        (children[i]?.bind (descend rest)).map label = some box.2)
        (drawChildren parent n children).boxes (waysFrom first children) := by
  induction children generalizing first n with
  | nil => exact ⟨rfl, .nil⟩
  | cons c cs ih =>
    have hc := h c List.mem_cons_self n
    obtain ⟨hnumbers, hlabels⟩ := ih (fun d hd => h d (List.mem_cons_of_mem c hd)) (first + 1) (n + (c.draw n).boxes.length)
    have hlength := hc.labels.length_eq
    rw [drawChildren, waysFrom]
    refine ⟨?_, List.rel_append ?_ ?_⟩
    · rw [List.map_append, hc.numbers, hnumbers, hlength, List.length_append, List.length_map, List.range'_append_1]
    · rw [List.forall₂_map_right_iff]
      exact hc.labels.imp fun box rest hbox => ⟨0, rest, rfl, hbox⟩
    · refine hlabels.imp fun box way hbox => ?_
      obtain ⟨i, rest, rfl, hbox⟩ := hbox
      exact ⟨i + 1, rest, by rw [Nat.add_right_comm, Nat.add_assoc], hbox⟩

theorem boxed_draw (s : Sketch) (n : Nat) : Boxed n (fun way => (s.descend way).map label) (s.draw n).boxes s.ways := by
  induction s using ind generalizing n with
  | node text children ih =>
    obtain ⟨hnumbers, hlabels⟩ := boxes_children ih n 0 (n + 1)
    rw [draw, ways]
    refine ⟨?_, .cons rfl (hlabels.imp fun box way hbox => ?_)⟩
    · rw [List.map_cons, hnumbers, List.length_cons, List.range'_succ]
    · obtain ⟨i, rest, rfl, hbox⟩ := hbox
      rwa [Nat.zero_add, descend]

/-! ## Edges -/

/-- The number of the topmost box. -/
theorem nil_mem_zipIdx {s : Sketch} {n k : Nat} : ([], k) ∈ s.ways.zipIdx n ↔ k = n := by
  cases s with
  | node text children =>
    have hnot : ([], k) ∉ (waysFrom 0 children).zipIdx (n + 1) := fun h => by
      obtain ⟨i, c, rest, -, heq, -⟩ := mem_waysFrom.1 (List.fst_mem_of_mem_zipIdx h)
      cases heq
    rw [ways, List.zipIdx_cons, List.mem_cons, or_iff_left hnot, Prod.mk.injEq]
    exact and_iff_right rfl

/-- A numbered way over some children goes to the first one, or to one behind it. -/
theorem mem_zipIdx_waysFrom {c : Sketch} {cs : List Sketch} {first n k : Nat} {way : List Nat} :
    (way, k) ∈ (waysFrom first (c :: cs)).zipIdx n ↔
      (∃ rest, way = first :: rest ∧ (rest, k) ∈ c.ways.zipIdx n) ∨
        (way, k) ∈ (waysFrom (first + 1) cs).zipIdx (n + c.ways.length) := by
  rw [waysFrom, List.zipIdx_append, List.mem_append, List.zipIdx_map, List.length_map, List.mem_map]
  refine or_congr_left ⟨?_, ?_⟩
  · rintro ⟨⟨rest, k⟩, hrest, heq⟩
    cases heq
    exact ⟨rest, rfl, hrest⟩
  · rintro ⟨rest, rfl, hrest⟩
    exact ⟨(rest, k), hrest, rfl⟩

theorem exists_of_mem_zipIdx {children : List Sketch} {first n k : Nat} {way : List Nat}
    (h : (way, k) ∈ (waysFrom first children).zipIdx n) : ∃ i rest, way = i :: rest ∧ first ≤ i := by
  obtain ⟨i, c, rest, -, rfl, -⟩ := mem_waysFrom.1 (List.fst_mem_of_mem_zipIdx h)
  exact ⟨first + i, rest, rfl, Nat.le_add_right ..⟩

/-- The edges among some children, and from the node above to them. -/
theorem mem_edges_children {children : List Sketch} (h : ∀ c ∈ children, ∀ n p k, (p, k) ∈ (c.draw n).edges ↔
    ∃ way i, (way, p) ∈ c.ways.zipIdx n ∧ (way ++ [i], k) ∈ c.ways.zipIdx n) (parent first n p k : Nat) :
    (p, k) ∈ (drawChildren parent n children).edges ↔
      (p = parent ∧ ∃ i, ([i], k) ∈ (waysFrom first children).zipIdx n) ∨
        ∃ way i, (way, p) ∈ (waysFrom first children).zipIdx n ∧ (way ++ [i], k) ∈ (waysFrom first children).zipIdx n := by
  induction children generalizing first n with
  | nil => simp [drawChildren, waysFrom]
  | cons c cs ih =>
    have hlength : (c.draw n).boxes.length = c.ways.length := (boxed_draw c n).labels.length_eq
    rw [drawChildren, List.mem_append, List.mem_cons, h c List.mem_cons_self, hlength,
      ih (fun d hd => h d (List.mem_cons_of_mem c hd)) (first + 1), Prod.mk.injEq]
    simp only [mem_zipIdx_waysFrom]
    constructor
    · rintro (⟨way, i, hp, hk⟩ | ⟨rfl, rfl⟩ | ⟨rfl, i, hk⟩ | ⟨way, i, hp, hk⟩)
      · exact .inr ⟨first :: way, i, .inl ⟨way, rfl, hp⟩, .inl ⟨way ++ [i], rfl, hk⟩⟩
      · exact .inl ⟨rfl, first, .inl ⟨[], rfl, nil_mem_zipIdx.2 rfl⟩⟩
      · exact .inl ⟨rfl, i, .inr hk⟩
      · exact .inr ⟨way, i, .inr hp, .inr hk⟩
    · rintro (⟨rfl, i, ⟨rest, heq, hk⟩ | hk⟩ | ⟨way, i, ⟨rest, rfl, hp⟩ | hp, ⟨rest', heq, hk⟩ | hk⟩)
      · cases heq
        exact .inr (.inl ⟨rfl, nil_mem_zipIdx.1 hk⟩)
      · exact .inr (.inr (.inl ⟨rfl, i, hk⟩))
      · cases heq
        exact .inl ⟨rest, i, hp, hk⟩
      · -- a way to the first child does not go on to one behind it
        obtain ⟨j, rest', heq, hj⟩ := exists_of_mem_zipIdx hk
        cases heq
        omega
      · obtain ⟨j, rest, rfl, hj⟩ := exists_of_mem_zipIdx hp
        cases heq
        omega
      · exact .inr (.inr (.inr ⟨way, i, hp, hk⟩))

/-- There is an edge wherever a way goes on from another by one child. -/
theorem mem_edges (s : Sketch) (n p k : Nat) : (p, k) ∈ (s.draw n).edges ↔
    ∃ way i, (way, p) ∈ s.ways.zipIdx n ∧ (way ++ [i], k) ∈ s.ways.zipIdx n := by
  induction s using ind generalizing n p k with
  | node text children ih =>
    rw [draw, mem_edges_children ih n 0, ways, List.zipIdx_cons]
    have hlast {way : List Nat} {i : Nat} : (way ++ [i], k) ∈ ([], n) :: (waysFrom 0 children).zipIdx (n + 1) ↔
        (way ++ [i], k) ∈ (waysFrom 0 children).zipIdx (n + 1) := by
      simp
    simp only [hlast]
    constructor
    · rintro (⟨rfl, i, hk⟩ | ⟨way, i, hp, hk⟩)
      · exact ⟨[], i, List.mem_cons_self, hk⟩
      · exact ⟨way, i, List.mem_cons_of_mem _ hp, hk⟩
    · rintro ⟨way, i, hp, hk⟩
      rcases List.mem_cons.1 hp with heq | hp
      · cases heq
        exact .inl ⟨rfl, i, hk⟩
      · exact .inr ⟨way, i, hp, hk⟩

theorem bounds_of_mem_zipIdx {ways : List (List Nat)} {way : List Nat} {n k : Nat} (h : (way, k) ∈ ways.zipIdx n) :
    n ≤ k ∧ k < n + ways.length :=
  ⟨List.le_snd_of_mem_zipIdx h, List.snd_lt_add_of_mem_zipIdx h⟩

/-- The edges from one box are added in the order of the boxes they go to. -/
theorem pairwise_edges (s : Sketch) (n : Nat) : (s.draw n).edges.Pairwise fun e e' => e.1 = e'.1 → e.2 < e'.2 := by
  induction s using ind generalizing n with
  | node text children ih =>
    have hchildren (n m : Nat) (hlt : n < m) :
        (drawChildren n m children).edges.Pairwise fun e e' => e.1 = e'.1 → e.2 < e'.2 := by
      induction children generalizing m with
      | nil => exact .nil
      | cons c cs ihcs =>
        have hlength : (c.draw m).boxes.length = c.ways.length := (boxed_draw c m).labels.length_eq
        have hfirst {e : Nat × Nat} (he : e ∈ (c.draw m).edges) : m ≤ e.1 ∧ e.1 < m + c.ways.length := by
          obtain ⟨way, i, hp, -⟩ := (mem_edges c m e.1 e.2).1 he
          exact bounds_of_mem_zipIdx hp
        have hothers {e : Nat × Nat} (he : e ∈ (drawChildren n (m + c.ways.length) cs).edges) :
            (e.1 = n ∨ m + c.ways.length ≤ e.1) ∧ m + c.ways.length ≤ e.2 := by
          rcases (mem_edges_children (fun d _ => mem_edges d) n 0 _ e.1 e.2).1 he with ⟨hp, i, hk⟩ | ⟨way, i, hp, hk⟩
          · exact ⟨.inl hp, (bounds_of_mem_zipIdx hk).1⟩
          · exact ⟨.inr (bounds_of_mem_zipIdx hp).1, (bounds_of_mem_zipIdx hk).1⟩
        rw [drawChildren, hlength, List.pairwise_append, List.pairwise_cons]
        refine ⟨ih c List.mem_cons_self m, ⟨fun e he _ => ?_, ?_⟩, fun e he e' he' heq => ?_⟩
        · have := (hothers he).2
          have := (boxed_draw c m).labels.length_eq
          have : 0 < c.ways.length := by cases c; simp [ways]
          omega
        · exact ihcs (fun d hd => ih d (List.mem_cons_of_mem c hd)) _ (by omega)
        · -- an edge inside the first child comes from a box that no later edge comes from
          have he := hfirst he
          rcases List.mem_cons.1 he' with rfl | he'
          · change e.1 = n at heq
            omega
          · have := hothers he'
            omega
    rw [draw]
    exact hchildren n (n + 1) (Nat.lt_succ_self n)

theorem length_edges (s : Sketch) (n : Nat) : (s.draw n).edges.length + 1 = (s.draw n).boxes.length := by
  induction s using ind generalizing n with
  | node text children ih =>
    have hchildren (parent n : Nat) :
        (drawChildren parent n children).edges.length = (drawChildren parent n children).boxes.length := by
      induction children generalizing n with
      | nil => rfl
      | cons c cs ihcs =>
        rw [drawChildren, List.length_append, List.length_append, List.length_cons, ← ih c List.mem_cons_self n,
          ihcs fun d hd => ih d (List.mem_cons_of_mem c hd)]
        omega
    rw [draw, List.length_cons, hchildren]

end Sketch

/-! ## The sketch of a tree -/

section Reading

variable {β : Type} (f : Layer (Annotated β) → β)

theorem plain_annotate (fields : Fields Json) : Annotated.plain (.obj (Fields.mapValues (Json.annotate f) fields)) = .obj fields := by
  simp only [Annotated.plain, Fields.mapValues, List.map_map, Function.comp_def, Json.source_annotate, List.map_id']

variable [Inhabited β]

theorem isNode_annotate (j : Json) : (layer (Json.annotate f j)).isNode = j.isNode := by
  cases j with
  | arr items => rw [Json.layer_annotate_arr]; rfl
  | obj fields =>
    rw [Json.layer_annotate_obj, Json.isNode_obj, Layer.isNode, Fields.get?_mapValues, Option.isSome_map]
  | _ => rfl

theorem childrenIn_annotate (j : Json) : Node.childrenIn (Json.annotate f j) = (Node.childrenIn j).map (Json.annotate f) := by
  have hnode (x : Json) : (layer (Json.annotate f x)).isNode = (layer x).isNode := isNode_annotate f x
  cases j with
  | arr items =>
    rw [Node.childrenIn, Json.layer_annotate_arr, Node.childrenIn, layer_json_arr]
    simp only [List.filter_map, Function.comp_def, hnode]
  | obj fields =>
    have h := hnode (.obj fields)
    rw [Node.childrenIn, Json.layer_annotate_obj, Node.childrenIn, layer_json_obj]
    rw [Json.layer_annotate_obj, layer_json_obj] at h
    simp only [h]
    split <;> rfl
  | _ => rfl

/-- The nodes below a noted node are those below the node, with their notes. -/
theorem childrenOf_annotate (fields : Fields Json) : Node.childrenOf (.obj (Fields.mapValues (Json.annotate f) fields)) =
    (Node.children (Json.obj fields)).map (List.map (Json.annotate f)) := by
  simp only [Node.children, layer_json_obj, Node.childrenOf, Except.map, Fields.mapValues, List.filter_map, List.flatMap_map,
    List.map_flatMap, childrenIn_annotate, Function.comp_def]

end Reading

/-- A tree has a sketch if it has a label and the trees below it have sketches. -/
theorem sketch_eq_ok {j : Json} {s : Sketch} : sketch j = .ok s ↔ ∃ label children below, nodeLabel j = .ok label ∧
    Node.children j = .ok children ∧ List.Forall₂ (fun c t => sketch c = .ok t) children below ∧ s = .node label below := by
  cases j with
  | obj fields =>
    have hrule : sketch (.obj fields) = sketchRule (.obj (Fields.mapValues (Json.annotate sketchRule) fields)) :=
      Json.note_obj sketchRule fields
    rw [hrule, sketchRule, plain_annotate, childrenOf_annotate]
    cases hlabel : nodeLabel (.obj fields) with
    | error fault => simp [bind, Except.bind]
    | ok label =>
      cases hchildren : Node.children (Json.obj fields) with
      | error fault => simp [bind, Except.bind, Except.map, Except.mapError]
      | ok children =>
        have hmapM : (children.map (Json.annotate sketchRule)).mapM Annotated.note = children.mapM sketch := by
          rw [List.mapM_map]
          rfl
        simp only [bind, Except.bind, Except.map, Except.mapError, hmapM]
        cases hbelow : children.mapM sketch with
        | error fault =>
          simp only [reduceCtorEq, Except.ok.injEq, exists_and_left, exists_eq_left', false_iff]
          rintro ⟨below, h, -⟩
          rw [mapM_eq_ok.2 h] at hbelow
          cases hbelow
        | ok below =>
          have hiff (ts : List Sketch) : List.Forall₂ (fun c t => sketch c = .ok t) children ts ↔ below = ts := by
            rw [← mapM_eq_ok, hbelow, Except.ok.injEq]
          simp only [pure, Except.pure, Except.ok.injEq, exists_and_left, exists_eq_left', hiff]
          exact eq_comm
  | _ => exact iff_of_false (by rintro ⟨⟩) (by rintro ⟨_, _, _, -, ⟨⟩, -⟩)

/-- Induction over the nodes of a tree: those below it. -/
theorem Json.below_ind {motive : Json → Prop}
    (node : ∀ j, (∀ children, Node.children j = .ok children → ∀ c ∈ children, motive c) → motive j) (j : Json) : motive j := by
  suffices h : motive j ∧ ∀ items, j = .arr items → ∀ x ∈ items, motive x from h.1
  induction j using Json.ind with
  | scalar j hatom =>
    refine ⟨node j fun children h => ?_, fun items h => ?_⟩
    · cases j with
      | obj fields => cases hatom
      | _ => cases h
    · rw [h] at hatom
      cases hatom
  | arr items ih =>
    refine ⟨node _ fun children h => (by cases h), ?_⟩
    rintro items' heq x hx
    cases heq
    exact (ih x hx).1
  | obj fields ih =>
    refine ⟨node _ fun children h c hc => ?_, fun items h => by cases h⟩
    cases h
    obtain ⟨f, hf, hc⟩ := List.mem_flatMap.1 hc
    have hf := ih f (List.mem_of_mem_filter hf)
    unfold Node.childrenIn at hc
    split at hc
    · next items hitems =>
      refine hf.2 items ?_ c (List.mem_of_mem_filter hc)
      revert hitems
      cases f.2 <;> rintro ⟨⟩
      rfl
    · split at hc
      · rw [List.mem_singleton.1 hc]
        exact hf.1
      · cases hc

/-- What is found at the end of a way in a tree and in its sketch. -/
theorem descend_sketch {tree : Json} {s : Sketch} (h : sketch tree = .ok s) (way : List Nat) :
    Option.Rel (fun node t => sketch node = .ok t) (nodeAt way tree) (s.descend way) := by
  induction way generalizing tree s with
  | nil => exact .some h
  | cons i way ih =>
    obtain ⟨label, children, below, -, hchildren, hbelow, rfl⟩ := sketch_eq_ok.1 h
    rw [nodeAt, hchildren, Sketch.descend, Sketch.children]
    rcases Nat.lt_or_ge i children.length with hi | hi
    · have hi' : i < below.length := hbelow.length_eq ▸ hi
      simp only [List.getElem?_eq_getElem hi, List.getElem?_eq_getElem hi', Option.bind_some]
      exact ih (hbelow.get hi hi')
    · have hi' : below.length ≤ i := hbelow.length_eq ▸ hi
      simp only [List.getElem?_eq_none hi, List.getElem?_eq_none hi', Option.bind_none]
      exact .none

/-- A tree has a sketch if all its nodes have labels. -/
theorem exists_sketch_iff {tree : Json} :
    (∃ s, sketch tree = .ok s) ↔ ∀ way node, nodeAt way tree = some node → ∃ label, nodeLabel node = .ok label := by
  constructor
  · rintro ⟨s, hs⟩ way node hnode
    have hrel := descend_sketch hs way
    rw [hnode] at hrel
    generalize s.descend way = part at hrel
    cases hrel with
    | some ht =>
      obtain ⟨label, -, -, hlabel, -⟩ := sketch_eq_ok.1 ht
      exact ⟨label, hlabel⟩
  · intro h
    induction tree using Json.below_ind with
    | node j ih =>
      obtain ⟨label, hlabel⟩ := h [] j rfl
      cases hchildren : Node.children j with
      | error fault =>
        cases j with
        | obj fields => cases hchildren
        | _ => cases hlabel
      | ok children =>
        have hbelow : ∀ c ∈ children, ∃ t, sketch c = .ok t := fun c hc => by
          obtain ⟨i, hi⟩ := List.getElem?_of_mem hc
          refine ih children hchildren c hc fun way node hnode => h (i :: way) node ?_
          simp only [nodeAt, hchildren, hi]
          exact hnode
        choose! f hf using hbelow
        refine ⟨.node label (children.map f), sketch_eq_ok.2 ⟨label, children, children.map f, hlabel, hchildren, ?_, rfl⟩⟩
        rw [List.forall₂_map_right_iff, List.forall₂_same]
        exact hf

/-! ## Drawings -/

/-- A drawing of a tree, with the ways to the nodes in its boxes. -/
structure Drawing.Pictures (d : Drawing) (tree : Json) (ways : List (List Nat)) : Prop where
  /-- Every node has its box, and every box is one node's. -/
  complete : ∀ way, way ∈ ways ↔ (nodeAt way tree).isSome = true
  /-- A node comes before the nodes below it, and these come child after child. -/
  preorder : ways.Pairwise (· < ·)
  numbers : d.boxes.map (·.1) = List.range ways.length
  labels : List.Forall₂ (fun box way => ∃ node, nodeAt way tree = some node ∧ nodeLabel node = .ok box.2) d.boxes ways
  count : d.edges.length + 1 = d.boxes.length
  /-- An edge leads from a node to a child of it. -/
  edge : ∀ p k, (p, k) ∈ d.edges ↔ ∃ way i, ways[p]? = some way ∧ ways[k]? = some (way ++ [i])
  /-- No edge leads to the first box. -/
  top : ∀ e ∈ d.edges, e.2 ≠ 0
  /-- One edge leads to every other box, from a box before. -/
  incoming : ∀ k, 0 < k → k < ways.length → ∃ p < k, d.edges.filter (·.2 = k) = [(p, k)]
  /-- The edges from a node, in the order of the boxes they lead to, lead to its children in order. -/
  outgoing : ∀ p way node children, ways[p]? = some way → nodeAt way tree = some node → Node.children node = .ok children →
    ((d.edges.filter (·.1 = p)).map (·.2)).Pairwise (· < ·) ∧
      (d.edges.filter (·.1 = p)).map (fun e => ways[e.2]?.bind (nodeAt · tree)) = children.map some

section Ways

variable {ways : List (List Nat)} {way way' : List Nat} {a b i : Nat} {tree : Json} {edges : List (Nat × Nat)}

theorem lt_iff_of_sorted (h : ways.Pairwise (· < ·)) (ha : ways[a]? = some way) (hb : ways[b]? = some way') :
    a < b ↔ way < way' := by
  obtain ⟨hla, rfl⟩ := List.getElem?_eq_some_iff.1 ha
  obtain ⟨hlb, rfl⟩ := List.getElem?_eq_some_iff.1 hb
  have hlt := List.pairwise_iff_getElem.1 h
  refine ⟨hlt a b hla hlb, fun hway => ?_⟩
  rcases Nat.lt_trichotomy a b with hab | rfl | hab
  · exact hab
  · exact absurd hway (List.lt_irrefl _)
  · exact absurd (hlt b a hlb hla hab) (List.lt_asymm hway)

theorem eq_of_sorted (h : ways.Pairwise (· < ·)) (ha : ways[a]? = some way) (hb : ways[b]? = some way) : a = b := by
  rcases Nat.lt_trichotomy a b with hab | hab | hab
  · exact absurd ((lt_iff_of_sorted h ha hb).1 hab) (List.lt_irrefl _)
  · exact hab
  · exact absurd ((lt_iff_of_sorted h hb ha).1 hab) (List.lt_irrefl _)

theorem lt_concat (way : List Nat) (i : Nat) : way < way ++ [i] := by
  have h : way ++ [] < way ++ [i] := List.append_left_lt (List.nil_lt_cons i [])
  rwa [List.append_nil] at h

theorem nodeAt_append (way way' : List Nat) (tree : Json) :
    nodeAt (way ++ way') tree = (nodeAt way tree).bind (nodeAt way') := by
  induction way generalizing tree with
  | nil => rfl
  | cons i way ih =>
    rw [List.cons_append, nodeAt, nodeAt]
    cases Node.children tree with
    | error fault => rfl
    | ok children => cases hc : children[i]? <;> simp [hc, ih]

/-- The node at the end of a way that goes on by one child. -/
theorem nodeAt_concat {node : Json} {children : List Json} (hnode : nodeAt way tree = some node)
    (hchildren : Node.children node = .ok children) (i : Nat) : nodeAt (way ++ [i]) tree = children[i]? := by
  rw [nodeAt_append, hnode, Option.bind_some, nodeAt, hchildren]
  cases hc : children[i]? <;> simp [hc, nodeAt]

section Edges

variable (hcomplete : ∀ way, way ∈ ways ↔ (nodeAt way tree).isSome = true) (hsorted : ways.Pairwise (· < ·))
  (hedge : ∀ p k, (p, k) ∈ edges ↔ ∃ way i, ways[p]? = some way ∧ ways[k]? = some (way ++ [i]))

include hcomplete hsorted

/-- The first way is the one that goes nowhere. -/
theorem getElem?_zero_of_sorted : ways[0]? = some [] := by
  obtain ⟨k, hk⟩ := List.getElem?_of_mem ((hcomplete []).2 rfl)
  obtain ⟨hlt, -⟩ := List.getElem?_eq_some_iff.1 hk
  have hzero := List.getElem?_eq_getElem (Nat.zero_lt_of_lt hlt)
  rcases Nat.eq_zero_or_pos k with rfl | hpos
  · exact hk
  · exact absurd ((lt_iff_of_sorted hsorted hzero hk).1 hpos) (List.not_lt_nil _)

include hedge

theorem snd_ne_zero : ∀ e ∈ edges, e.2 ≠ 0 := by
  intro e he heq
  obtain ⟨way, i, -, hto⟩ := (hedge e.1 e.2).1 he
  rw [heq, getElem?_zero_of_sorted hcomplete hsorted] at hto
  simp at hto

/-- One edge leads to every box but the first. -/
theorem filter_incoming (hnodup : edges.Nodup) {k : Nat} (hpos : 0 < k) (hk : k < ways.length) :
    ∃ p < k, edges.filter (·.2 = k) = [(p, k)] := by
  have hget : ways[k]? = some ways[k] := List.getElem?_eq_getElem hk
  rcases List.eq_nil_or_concat' ways[k] with hnil | ⟨way, i, hway⟩
  · have hzero : k = 0 := eq_of_sorted hsorted (hnil ▸ hget) (getElem?_zero_of_sorted hcomplete hsorted)
    omega
  · rw [hway] at hget
    have hsome := (hcomplete _).1 (List.mem_of_getElem? hget)
    rw [nodeAt_append] at hsome
    obtain ⟨p, hp⟩ := List.getElem?_of_mem ((hcomplete way).2 (Option.isSome_of_isSome_bind hsome))
    refine ⟨p, (lt_iff_of_sorted hsorted hp hget).2 (lt_concat way i), ?_⟩
    refine List.perm_singleton.1 ((List.perm_ext_iff_of_nodup (hnodup.filter _) (List.nodup_singleton _)).2 fun e => ?_)
    rw [List.mem_filter, List.mem_singleton, decide_eq_true_eq]
    constructor
    · rintro ⟨he, rfl⟩
      obtain ⟨way', j, hfrom, hto⟩ := (hedge e.1 e.2).1 he
      obtain rfl := (List.append_inj' (Option.some.inj (hget.symm.trans hto)) rfl).1
      exact Prod.ext (eq_of_sorted hsorted hfrom hp) rfl
    · rintro rfl
      exact ⟨(hedge p k).2 ⟨way, i, hp, hget⟩, rfl⟩

/-- The edges that lead away from a box lead to the children of its node. -/
theorem map_outgoing (hpairwise : edges.Pairwise fun e e' => e.1 = e'.1 → e.2 < e'.2) {p : Nat} {node : Json} {children : List Json}
    (hp : ways[p]? = some way) (hnode : nodeAt way tree = some node) (hchildren : Node.children node = .ok children) :
    ((edges.filter (·.1 = p)).map (·.2)).Pairwise (· < ·) ∧
      (edges.filter (·.1 = p)).map (fun e => ways[e.2]?.bind (nodeAt · tree)) = children.map some := by
  have hincreasing : ((edges.filter (·.1 = p)).map (·.2)).Pairwise (· < ·) := by
    rw [List.pairwise_map, List.pairwise_filter]
    refine hpairwise.imp fun h he he' => h ?_
    rw [of_decide_eq_true he, of_decide_eq_true he']
  have hchild (i : Nat) : nodeAt (way ++ [i]) tree = children[i]? := nodeAt_concat hnode hchildren i
  have hnumber {i : Nat} (hi : i < children.length) : ways[ways.idxOf (way ++ [i])]? = some (way ++ [i]) := by
    refine List.getElem?_idxOf ((hcomplete _).2 ?_)
    rw [hchild, List.getElem?_eq_getElem hi]
    rfl
  have hnumbers : (edges.filter (·.1 = p)).map (·.2) = (List.range children.length).map fun i => ways.idxOf (way ++ [i]) := by
    refine hincreasing.eq_of_mem_iff ?_ fun k => ?_
    · rw [List.pairwise_map]
      refine List.pairwise_lt_range.imp_of_mem fun {i j} hi hj hlt => ?_
      rw [lt_iff_of_sorted hsorted (hnumber (List.mem_range.1 hi)) (hnumber (List.mem_range.1 hj))]
      exact List.append_left_lt (List.cons_lt_cons_iff.2 (.inl hlt))
    · simp only [List.mem_map, List.mem_filter, List.mem_range, decide_eq_true_eq]
      constructor
      · rintro ⟨⟨p, k⟩, ⟨he, rfl⟩, rfl⟩
        obtain ⟨way', i, hfrom, hto⟩ := (hedge p k).1 he
        obtain rfl : way' = way := Option.some.inj (hfrom.symm.trans hp)
        have hsome := (hcomplete _).1 (List.mem_of_getElem? hto)
        rw [hchild] at hsome
        have hi : i < children.length := by simpa using hsome
        exact ⟨i, hi, eq_of_sorted hsorted (hnumber hi) hto⟩
      · rintro ⟨i, hi, rfl⟩
        exact ⟨(p, _), ⟨(hedge p _).2 ⟨way, i, hp, hnumber hi⟩, rfl⟩, rfl⟩
  refine ⟨hincreasing, ?_⟩
  calc (edges.filter (·.1 = p)).map (fun e => ways[e.2]?.bind (nodeAt · tree))
      = ((edges.filter (·.1 = p)).map (·.2)).map fun k => ways[k]?.bind (nodeAt · tree) := by rw [List.map_map]; rfl
    _ = (List.range children.length).map fun i => children[i]? := by
      rw [hnumbers, List.map_map]
      refine List.map_congr_left fun i hi => ?_
      rw [Function.comp_apply, hnumber (List.mem_range.1 hi), Option.bind_some, hchild]
    _ = children.map some := List.ext_getElem (by simp) fun i _ _ => by simp

end Edges

end Ways

/-- A tree whose nodes all have labels is drawn, and the drawing is the tree: one box for each node, numbered in preorder,
and one edge from each node to each of its children. -/
theorem drawTree_pictures {tree : Json} (h : ∀ way node, nodeAt way tree = some node → ∃ label, nodeLabel node = .ok label) :
    ∃ d ways, drawTree tree = .ok d ∧ d.Pictures tree ways := by
  obtain ⟨s, hs⟩ := exists_sketch_iff.2 h
  have hboxed := s.boxed_draw 0
  have hsorted := s.pairwise_ways
  have hpairwise := s.pairwise_edges 0
  have hcomplete (way : List Nat) : way ∈ s.ways ↔ (nodeAt way tree).isSome = true := by
    have hrel := descend_sketch hs way
    rw [Sketch.mem_ways]
    generalize nodeAt way tree = found, s.descend way = part at hrel ⊢
    cases hrel <;> simp
  have hedge (p k : Nat) : (p, k) ∈ (s.draw 0).edges ↔ ∃ way i, s.ways[p]? = some way ∧ s.ways[k]? = some (way ++ [i]) := by
    simp only [s.mem_edges, List.mem_zipIdx_iff_getElem?]
  have hnodup : (s.draw 0).edges.Nodup :=
    hpairwise.imp fun {e e'} hlt heq => absurd (hlt (congrArg Prod.fst heq)) (by rw [heq]; exact Nat.lt_irrefl _)
  refine ⟨s.draw 0, s.ways, by rw [drawTree, hs]; rfl, hcomplete, hsorted, ?_, ?_, s.length_edges 0, hedge,
    snd_ne_zero hcomplete hsorted hedge, fun k hpos hk => ?_, fun p way node children hp hnode hchildren => ?_⟩
  · rw [hboxed.numbers, List.range_eq_range']
  · refine hboxed.labels.imp fun box way hbox => ?_
    obtain ⟨t, ht, hlabel⟩ := Option.map_eq_some_iff.1 hbox
    have hrel := descend_sketch hs way
    rw [ht] at hrel
    generalize nodeAt way tree = found at hrel ⊢
    cases hrel with
    | some hnode =>
      obtain ⟨label, children, below, hlabel', -, -, rfl⟩ := sketch_eq_ok.1 hnode
      exact ⟨_, rfl, hlabel ▸ hlabel'⟩
  · exact filter_incoming hcomplete hsorted hedge hnodup hpos hk
  · exact map_outgoing hcomplete hsorted hedge hpairwise hp hnode hchildren

/-- A name next to a call of another, with positions that look like nodes. -/
def sumTree : Json :=
  .obj [("type", .str "BinaryExpression"), ("loc", .ident (.str "start")), ("operator", .str "+"), ("left", .ident (.str "x")),
    ("right", .obj [("type", .str "CallExpression"), ("arguments", .arr [.literal (.int 1), .ident (.str "y")]),
      ("callee", .ident (.str "f"))])]

theorem drawTree_pictures_sum :
    (∀ way node, nodeAt way sumTree = some node → ∃ label, nodeLabel node = .ok label) ∧
    ∃ d ways, drawTree sumTree = .ok d ∧ d.Pictures sumTree ways ∧ d.edges = [(0, 1), (2, 3), (2, 4), (2, 5), (0, 2)] := by
  have hsketch : ∃ s, sketch sumTree = .ok s := ⟨_, rfl⟩
  have hlabels := exists_sketch_iff.1 hsketch
  obtain ⟨d, ways, hd, hpictures⟩ := drawTree_pictures hlabels
  refine ⟨hlabels, d, ways, hd, hpictures, ?_⟩
  have hedges : (drawTree sumTree).map (·.edges) = .ok [(0, 1), (2, 3), (2, 4), (2, 5), (0, 2)] := by rfl
  rw [hd] at hedges
  exact Except.ok.inj hedges

end ScriptTrace
