import ScriptTrace.Proofs.Coverage

/-!
# Expressions without probes

An expression is changed by the pass only where it holds something that calls for probes: a function or a call that prints.
Statements stand in expressions inside of functions only.

* `outerTypes`, `IsInner` : what stands in an expression inside of functions only;
* `IsTraced` : a value that calls for probes outside of the patterns of declarators;
* `Rewrites.eq_of_untraced` : a value that calls for none stays as it is;
* `Rewrites.eq_iff` : and no other does;
* `Rewrites.count_inner` : what has become of a value has the probes that it calls for.
-/

namespace ScriptTrace

open Probe Rewriting Survey

/-- Types of nodes that stand in an expression inside of functions only. -/
def outerTypes : List String := "Program" :: "SwitchCase" :: "CatchClause" :: Grammar.listed

/-- Neither a statement nor a list with one. -/
def IsInner (v : Json) : Prop :=
  v.isOneOf outerTypes = false ∧ ∀ items, v = .arr items → ∀ x ∈ items, x.isOneOf outerTypes = false

/-- Something in a value calls for probes, outside of the patterns of declarators. -/
def IsTraced (v : Json) : Prop := ∃ kind, (false, kind) ∈ constructsOf v

/-! ## Inside of expressions -/

section Inner

variable {type key : String} {fields : Fields Json} {v : Json}

theorem not_outer (h : IsInner (.obj fields)) (htype : Fields.type? fields = some type) : type ∉ outerTypes := by
  have hone := h.1
  rw [Json.isOneOf, show (Json.obj fields).type? = some type from htype, Option.any_some] at hone
  simpa using hone

/-- Nothing but functions leads from expressions to statements. -/
theorem inner_slots : ∀ row ∈ Grammar.table, ∀ t ∈ row.1, t ∈ outerTypes ∨ t ∈ functionTypes ∨
    ∀ slot ∈ row.2, (∀ b ∈ outerTypes, b ∉ slot.2.types) ∧ slot.2.isPlacement = false := by
  decide

theorem IsInner.field (h : IsInner (.obj fields)) (hproper : (Json.obj fields).Proper) (htype : Fields.type? fields = some type)
    (hfunction : type ∉ functionTypes) (hkey : key ≠ "loc" ∧ key ≠ "range") (hv : Fields.get? key fields = some v) : IsInner v := by
  refine hproper.not_bound htype hkey (fun slots slot hshape hslot => ?_) hv
  obtain ⟨row, hrow, hmem, rfl⟩ := ofGroup_mem_types hshape
  have hslots := ((inner_slots row hrow type hmem).resolve_left (not_outer h htype)).resolve_left hfunction
  exact hslots _ (Fields.mem_of_get? hslot)

end Inner

/-! ## What calls for probes -/

section Traced

variable {type key : String} {fields : Fields Json} {v : Json}

theorem IsTraced.item {items : List Json} (hv : v ∈ items) (hnode : v.isNode = true) (h : IsTraced v) :
    IsTraced (.arr items) := by
  obtain ⟨kind, hkind⟩ := h
  refine ⟨kind, ?_⟩
  rw [constructsOf, collect_arr, List.mem_flatMap]
  exact ⟨v, hv, by rwa [if_pos hnode]⟩

theorem IsTraced.of_wanted (htype : Fields.type? fields = some type) {kind : ProbeKind} (h : kind ∈ wanted type fields) :
    IsTraced (.obj fields) := by
  refine ⟨kind, ?_⟩
  rw [constructsOf, collect_obj htype]
  exact List.mem_append_left _ (List.mem_map_of_mem h)

theorem IsTraced.of_field (htype : Fields.type? fields = some type) (hleaf : type ∉ leafTypes)
    (hkey : ¬ (key = "loc" ∨ key = "range")) (hid : ¬ (type = "VariableDeclarator" ∧ key = "id"))
    (hv : Fields.get? key fields = some v) (h : IsTraced v) : IsTraced (.obj fields) := by
  obtain ⟨kind, hkind⟩ := h
  refine ⟨kind, ?_⟩
  rw [constructsOf, collect_entered htype hleaf]
  refine List.mem_append_right _ (List.mem_flatMap.2 ⟨_, Fields.mem_of_get? hv, ?_⟩)
  rwa [constructs_part hkey hid]

theorem not_function (h : ¬ IsTraced (.obj fields)) (htype : Fields.type? fields = some type) : type ∉ functionTypes := by
  intro hfunction
  refine h (.of_wanted htype (?_ : ProbeKind.call ∈ _))
  rw [wanted, if_pos hfunction]
  exact List.mem_cons_self

theorem not_console (h : ¬ IsTraced (.obj fields)) (htype : Fields.type? fields = some "CallExpression") :
    (Json.field "callee" (.obj fields)).isConsoleMethod = false := by
  by_contra hconsole
  have hprints : (Json.field "callee" (.obj fields)).isConsoleMethod = true := by simpa using hconsole
  refine h (.of_wanted htype (?_ : ProbeKind.print ∈ _))
  simp [wanted, functionTypes, loopTypes, hprints]

end Traced

/-! ## What becomes of them -/

section Rewritten

variable {code : Option String} {m : Mode} {classes : List Json} {up : Option Json} {type : String} {name : Json}
  {fields made out : Fields Json}

/-- What is neither a statement nor calls for probes is framed with nothing. -/
theorem RewrittenNode.frame_untraced (hnode : RewrittenNode code classes up type name fields made out)
    (hinner : IsInner (.obj fields)) (h : ¬ IsTraced (.obj fields)) :
    prepared type fields = fields ∧
      ∀ key w o, Fields.get? key made = some w → Fields.get? key out = some o → o = w := by
  have htypes : ∀ g ∈ frameTable, ∀ t ∈ g.1, t ∈ outerTypes ∨ t ∈ functionTypes ∨ t = "CallExpression" := by decide
  by_cases hun : Unframed type
  · refine ⟨hun.prepared_eq fields, fun key w o hw ho => ?_⟩
    have hframe := hnode.frame key w o hw ho
    rwa [hun.frameKind_eq, Frame.same_iff] at hframe
  obtain ⟨entries, hentries⟩ := Option.ne_none_iff_exists'.1 hun
  obtain ⟨g, hg, hmem, -⟩ := ofGroup_mem_types hentries
  obtain rfl : type = "CallExpression" :=
    ((htypes g hg type hmem).resolve_left (not_outer hinner hnode.type)).resolve_left (not_function h hnode.type)
  have hnot : Visit.isConsole (Json.field "callee" (.obj fields)) ≠ .ok true := by
    obtain ⟨callee, ctype, hcallee, hctype, -⟩ := Json.fits_node (hnode.proper.fits "callee" hnode.type rfl rfl)
    have hmethod := not_console h hnode.type
    rw [Json.field_of_get? hcallee] at hmethod ⊢
    intro hprints
    rw [isConsoleMethod_eq (hnode.proper.field hcallee) hctype hprints] at hmethod
    cases hmethod
  refine ⟨by simp [prepared, completed, readyField, functionTypes, loopTypes], fun key w o hw ho => ?_⟩
  have hkind : frameKind "CallExpression" key ∈ [.same, .callee, .arguments] := by
    by_cases hsame : frameKind "CallExpression" key = .same
    · rw [hsame]
      exact List.mem_cons_self
    · obtain ⟨g, hg, hmem, hentry⟩ := exists_of_frameKind rfl hsame
      have hall : ∀ g ∈ frameTable, "CallExpression" ∈ g.1 → ∀ e ∈ g.2, e.2 ∈ [FrameKind.same, .callee, .arguments] := by decide
      exact hall g hg hmem _ hentry
  have hframe := hnode.frame key w o hw ho
  generalize frameKind "CallExpression" key = k at hkind hframe
  cases hframe with
  | same | callee | arguments => rfl
  | printer _ hprints => exact absurd hprints hnot
  | printed _ _ hprints => exact absurd hprints hnot
  | _ => simp at hkind

/-- A value inside of an expression that calls for no probes stays as it is. -/
theorem Rewrites.eq_of_untraced {v w : Json} (hrw : Rewrites code m classes up v w) (hm : m ≠ .statements) (hinner : IsInner v)
    (h : ¬ IsTraced v) : w = v := by
  induction hrw with
  | kept | value => rfl
  | statements => exact absurd rfl hm
  | items classes up vs ws hlen _ hother ih =>
    rw [eq_of_zip_eq hlen fun p hp => ?_]
    cases hn : p.1.isNode with
    | false => exact hother p hp hn
    | true =>
      have hmem := (List.of_mem_zip hp).1
      refine ih p hp hn (by decide) ⟨hinner.2 _ rfl _ hmem, ?_⟩ fun htraced => h (htraced.item hmem hn)
      intro items hitems
      rw [hitems] at hn
      cases hn
  | node classes up type name fields made out htype hproper hname hmade hrw hout hframe ih =>
    have hnode : RewrittenNode code classes up type name fields made out := ⟨htype, hproper, hname, hmade, hout, hrw, hframe⟩
    obtain ⟨hprepared, hsame⟩ := hnode.frame_untraced hinner h
    have hfunction := not_function h htype
    have hnames : Fields.names out = Fields.names fields := by rw [hout, hmade, hprepared]
    refine congrArg Json.obj (Fields.ext hnames hnode.nodup_out fun key => ?_)
    cases hv : Fields.get? key fields with
    | none => exact Fields.get?_eq_none.2 (hnames ▸ Fields.get?_eq_none.1 hv)
    | some v =>
      have hready : Fields.get? key (prepared type fields) = some v := hprepared.symm ▸ hv
      obtain ⟨w, hw⟩ := Fields.exists_get?_of_names hmade hready
      obtain ⟨o, ho⟩ := Fields.exists_get?_of_names hout hw
      rw [ho, hsame key w o hw ho]
      have hfield := hrw key v w hready hw
      refine congrArg some ?_
      by_cases hposition : key = "loc" ∨ key = "range"
      · rw [mode_position hposition] at hfield
        cases hfield
        rfl
      by_cases hleaf : type ∈ leafTypes
      · refine hfield.inert (hproper.inert htype hv (not_or.1 hposition) fun slots slot hshape hslot => ?_)
        have hscalar : ∀ t ∈ leafTypes, ∀ row ∈ Grammar.table, t ∈ row.1 → ∀ slot ∈ row.2, Json.isScalar slot.2 = true := by
          decide
        obtain ⟨row, hrow, hmem, rfl⟩ := ofGroup_mem_types hshape
        exact hscalar type hleaf row hrow hmem _ (Fields.mem_of_get? hslot)
      by_cases hid : type = "VariableDeclarator" ∧ key = "id"
      · obtain ⟨rfl, rfl⟩ := hid
        cases hfield
        rfl
      refine ih key v w hready hw ?_ (hinner.field hproper htype hfunction (not_or.1 hposition) hv) fun ht => ?_
      · have hall : ∀ t ∈ ["Program", "BlockStatement", "SwitchCase"], t ∈ outerTypes := by decide
        exact mode_ne_statements key fun hlist => not_outer hinner htype (hall type hlist)
      · exact h (ht.of_field htype hleaf hposition hid hv)

/-- What becomes of a value inside of an expression has the probes that the value calls for, none of them beside it. -/
theorem Rewrites.count_inner {v w : Json} (hrw : Rewrites code .visited classes up v w) (hinner : IsInner v) (hnames : v.Unreserved)
    (kind : ProbeKind) : (probesOf w).count kind = (constructsOf v).count (false, kind) := by
  have hcounted : ProbesCounted kind .visited v w := hrw.count_probes
  have hclass {x : Json} (h : x.isOneOf outerTypes = false) : x.isOneOf ["ClassDeclaration"] = false := by
    by_contra hone
    obtain ⟨fields, type, rfl, htype, hmem⟩ := Json.isOneOf_iff.1 (Bool.not_eq_false _ ▸ hone)
    have houter : (Json.obj fields).isOneOf outerTypes = true :=
      Json.isOneOf_iff.2 ⟨fields, type, rfl, htype, List.mem_singleton.1 hmem ▸ by decide⟩
    rw [h] at houter
    cases houter
  replace hcounted := hcounted (by decide) hnames
  have hbeside : besideIn v = [] := besideIn_eq_nil ⟨hclass hinner.1, fun items he x hx => hclass (hinner.2 items he x hx)⟩
  rwa [if_pos rfl, hbeside] at hcounted

/-- A value inside of an expression is changed exactly if it calls for probes. -/
theorem Rewrites.eq_iff {v w : Json} (hrw : Rewrites code .visited classes up v w) (hinner : IsInner v) (hnames : v.Unreserved) :
    w = v ↔ ¬ IsTraced v := by
  refine ⟨fun he => ?_, hrw.eq_of_untraced (by decide) hinner⟩
  rintro ⟨kind, hkind⟩
  have hcount := hrw.count_inner hinner hnames kind
  rw [he, probesOf, probes_unreserved hnames] at hcount
  exact List.count_eq_zero.1 hcount.symm hkind

end Rewritten

end ScriptTrace
