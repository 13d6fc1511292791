import ScriptTrace.Proofs.Grammar
import ScriptTrace.Proofs.NumberText
import ScriptTrace.Proofs.QuotedText
import Mathlib.Data.List.Forall2
import Mathlib.Data.Option.Basic

/-!
# Canonical texts tell values apart

The canonical text of a value is read from left to right without choice: the first character tells what kind
of value it is, a word or number ends at the first character that belongs to none, a string at its quote, and
a list where no comma follows. Fields in the order of their names make one text of all orders.

* `byName_perm`, `names_byName_sorted` : fields in order;
* `Json.Alike` : values that are the same up to the order of fields, numbers compared by their text;
* `Json.render_cut` : two texts with something behind them;
* `Json.render_eq_iff` : values have the same text exactly if they are alike.
-/

namespace ScriptTrace

/-! ## Fields in order -/

section Order

variable {α β : Type}

theorem insertByName_perm (p : String × α) (fields : Fields α) : (insertByName p fields).Perm (p :: fields) := by
  induction fields with
  | nil => exact .refl _
  | cons q rest ih =>
    unfold insertByName
    split
    · exact (ih.cons q).trans (.swap p q rest)
    · exact .refl _

/-- Fields in order are the fields. -/
theorem byName_perm (fields : Fields α) : (byName fields).Perm fields := by
  induction fields with
  | nil => exact .refl _
  | cons p rest ih => exact (insertByName_perm p (byName rest)).trans (ih.cons p)

theorem mapValues_insertByName (f : α → β) (p : String × α) (fields : Fields α) :
    Fields.mapValues f (insertByName p fields) = insertByName (p.1, f p.2) (Fields.mapValues f fields) := by
  induction fields with
  | nil => rfl
  | cons q rest ih =>
    rw [insertByName, Fields.mapValues_cons, insertByName]
    split
    · rw [Fields.mapValues_cons, ih]
    · rfl

theorem mapValues_byName (f : α → β) (fields : Fields α) :
    Fields.mapValues f (byName fields) = byName (Fields.mapValues f fields) := by
  induction fields with
  | nil => rfl
  | cons p rest ih => rw [byName, mapValues_insertByName, ih, Fields.mapValues_cons, byName]

theorem insertByName_sorted {p : String × α} {fields : Fields α} (h : fields.Pairwise fun a b => a.1 ≤ b.1) :
    (insertByName p fields).Pairwise fun a b => a.1 ≤ b.1 := by
  induction fields with
  | nil => exact List.pairwise_singleton _ p
  | cons q rest ih =>
    obtain ⟨hq, hrest⟩ := List.pairwise_cons.1 h
    unfold insertByName
    split
    · next hle =>
      refine List.pairwise_cons.2 ⟨fun r hr => ?_, ih hrest⟩
      rcases List.mem_cons.1 ((insertByName_perm p rest).mem_iff.1 hr) with rfl | hr
      · exact hle
      · exact hq r hr
    · next hnle =>
      have hle : p.1 ≤ q.1 := (String.le_total p.1 q.1).resolve_right hnle
      refine List.pairwise_cons.2 ⟨fun r hr => ?_, h⟩
      rcases List.mem_cons.1 hr with rfl | hr
      · exact hle
      · exact String.le_trans hle (hq r hr)

theorem byName_sorted (fields : Fields α) : (byName fields).Pairwise fun a b => a.1 ≤ b.1 := by
  induction fields with
  | nil => exact .nil
  | cons p rest ih => exact insertByName_sorted ih

theorem names_byName_sorted (fields : Fields α) : (Fields.names (byName fields)).Pairwise (· ≤ ·) :=
  List.pairwise_map.2 (byName_sorted fields)

theorem names_byName_perm (fields : Fields α) : (Fields.names (byName fields)).Perm (Fields.names fields) :=
  (byName_perm fields).map _

theorem Fields.get?_perm {as bs : Fields α} (h : as.Perm bs) (hnd : (Fields.names as).Nodup) (key : String) :
    Fields.get? key as = Fields.get? key bs := by
  have hnames : (Fields.names as).Perm (Fields.names bs) := h.map _
  cases hb : Fields.get? key bs with
  | none =>
    rw [Fields.get?_eq_none] at hb ⊢
    exact fun ha => hb (hnames.mem_iff.1 ha)
  | some v => exact Fields.get?_of_mem hnd (h.mem_iff.2 (Fields.mem_of_get? hb))

theorem nodup_byName {fields : Fields α} (hnd : (Fields.names fields).Nodup) : (Fields.names (byName fields)).Nodup :=
  (names_byName_perm fields).nodup_iff.2 hnd

/-- Names in order are determined by which names there are. -/
theorem names_byName_eq {as : Fields α} {bs : Fields β} (ha : (Fields.names as).Nodup) (hb : (Fields.names bs).Nodup)
    (h : ∀ key, key ∈ Fields.names as ↔ key ∈ Fields.names bs) :
    Fields.names (byName as) = Fields.names (byName bs) := by
  have hperm : (Fields.names (byName as)).Perm (Fields.names (byName bs)) :=
    (names_byName_perm as).trans (((List.perm_ext_iff_of_nodup ha hb).2 h).trans (names_byName_perm bs).symm)
  exact hperm.eq_of_pairwise (fun _ _ _ _ => String.le_antisymm) (names_byName_sorted as) (names_byName_sorted bs)

/-! ## Fields that are related name by name -/

variable {R : α → β → Prop}

namespace Fields

theorem rel_get? {as : Fields α} {bs : Fields β} (h : List.Forall₂ (fun a b => a.1 = b.1 ∧ R a.2 b.2) as bs) (key : String) :
    Option.Rel R (get? key as) (get? key bs) := by
  induction h with
  | nil => exact .none
  | cons hab _ ih =>
    unfold get?
    rw [← hab.1]
    split
    · exact .some hab.2
    · exact ih

theorem mem_names_of_rel {as : Fields α} {bs : Fields β} {key : String} (h : Option.Rel R (get? key as) (get? key bs)) :
    key ∈ names as ↔ key ∈ names bs := by
  rw [← not_iff_not, ← get?_eq_none, ← get?_eq_none]
  generalize get? key as = a at h
  generalize get? key bs = b at h
  cases h with
  | none => simp
  | some _ => simp

theorem forall₂_of_rel {as : Fields α} {bs : Fields β} (hnames : names as = names bs) (hnd : (names as).Nodup)
    (h : ∀ key, Option.Rel R (get? key as) (get? key bs)) :
    List.Forall₂ (fun a b => a.1 = b.1 ∧ R a.2 b.2) as bs := by
  induction as generalizing bs with
  | nil =>
    cases bs with
    | nil => exact .nil
    | cons b bs => cases hnames
  | cons a as ih =>
    cases bs with
    | nil => cases hnames
    | cons b bs =>
      obtain ⟨hname, hrest⟩ : a.1 = b.1 ∧ names as = names bs := List.cons.inj hnames
      obtain ⟨hnew, hnd⟩ : a.1 ∉ names as ∧ (names as).Nodup := List.nodup_cons.1 hnd
      have hfirst := h a.1
      rw [get?, if_pos rfl, get?, if_pos hname.symm] at hfirst
      refine .cons ⟨hname, ?_⟩ (ih hrest hnd fun key => ?_)
      · cases hfirst with
        | some h => exact h
      · by_cases hkey : a.1 = key
        · rw [get?_eq_none.2 (hkey ▸ hnew), get?_eq_none.2 (by rw [← hrest]; exact hkey ▸ hnew)]
          exact .none
        · have hother := h key
          rwa [get?, if_neg hkey, get?, if_neg (by rwa [← hname])] at hother

end Fields

end Order

namespace Json

/-! ## Values that are alike -/

/-- The names of every object in a value, at any depth, are distinct. -/
def Distinct (j : Json) : Prop := j.everyObject (fun fields => decide (Fields.names fields).Nodup) = true

/-- The text of a number. -/
def numberText? : Json → Option String
  | int n => some (toString n)
  | float x => some (floatText x)
  | _ => none

/-- Equal up to the order of fields at every depth, numbers compared by their text. -/
inductive Alike : Json → Json → Prop
  | null : Alike null null
  | bool (b : Bool) : Alike (bool b) (bool b)
  | number {x y : Json} {text : String} : x.numberText? = some text → y.numberText? = some text → Alike x y
  | str (s : String) : Alike (str s) (str s)
  | arr {xs ys : List Json} : List.Forall₂ Alike xs ys → Alike (arr xs) (arr ys)
  | obj {fs gs : Fields Json} :
    (∀ key, Option.Rel Alike (Fields.get? key fs) (Fields.get? key gs)) → Alike (obj fs) (obj gs)

theorem induction {P : Json → Prop} (null : P null) (bool : ∀ b, P (bool b)) (int : ∀ n, P (int n)) (float : ∀ x, P (float x))
    (str : ∀ s, P (str s)) (arr : ∀ items, (∀ x ∈ items, P x) → P (arr items))
    (obj : ∀ fields : Fields Json, (∀ f ∈ fields, P f.2) → P (obj fields)) (j : Json) : P j :=
  @Json.rec P (fun items => ∀ x ∈ items, P x) (fun fields => ∀ f ∈ fields, P f.2) (fun f => P f.2)
    null bool int float str arr obj (by simp) (fun x xs hx hxs => by simpa using ⟨hx, hxs⟩) (by simp)
    (fun f fs hf hfs => fun g hg => (List.mem_cons.1 hg).elim (fun h => h ▸ hf) (hfs g)) (fun _ _ h => h) j

theorem Distinct.item {items : List Json} (h : (arr items).Distinct) {x : Json} (hx : x ∈ items) : x.Distinct :=
  everyObject_arr.1 h x hx

theorem Distinct.nodup {fields : Fields Json} (h : (obj fields).Distinct) : (Fields.names fields).Nodup :=
  of_decide_eq_true (everyObject_obj.1 h).1

theorem Distinct.field {fields : Fields Json} (h : (obj fields).Distinct) {f : String × Json} (hf : f ∈ fields) :
    f.2.Distinct :=
  (everyObject_obj.1 h).2 f hf

/-! ## Texts as characters -/

def chars (j : Json) : List Char := j.render.toList

/-- A field in an object's text. -/
def memberChars (f : String × Json) : List Char := (quoteAscii f.1).toList ++ ':' :: ' ' :: f.2.chars

theorem renderItems_eq_map (items : List Json) : renderItems items = items.map render := by
  induction items with
  | nil => rfl
  | cons x xs ih => rw [renderItems, ih, List.map_cons]

theorem renderFields_eq_mapValues (fields : Fields Json) : renderFields fields = Fields.mapValues render fields := by
  induction fields with
  | nil => rfl
  | cons f fs ih => rw [renderFields, ih, Fields.mapValues_cons]

theorem chars_str (s : String) : (str s).chars = (quoteAscii s).toList := rfl

theorem chars_arr (items : List Json) :
    (arr items).chars = '[' :: (List.intercalate [',', ' '] (items.map chars) ++ [']']) := by
  have hitems : items.map (fun x => x.render.toList) = items.map chars := rfl
  rw [chars, render, renderItems_eq_map, String.toList_append, String.toList_append, String.toList_intercalate, List.map_map]
  exact congrArg (fun cs => '[' :: (cs ++ [']'])) (congrArg (List.intercalate [',', ' ']) hitems)

theorem chars_obj (fields : Fields Json) : (obj fields).chars =
    '\x7b' :: (List.intercalate [',', ' '] ((byName fields).map memberChars) ++ ['\x7d']) := by
  have hmembers : (((byName (Fields.mapValues render fields)).map fun f => quoteAscii f.1 ++ ": " ++ f.2).map String.toList) =
      (byName fields).map memberChars := by
    rw [← mapValues_byName, Fields.mapValues, List.map_map, List.map_map]
    refine List.map_congr_left fun f _ => ?_
    rw [Function.comp_apply, Function.comp_apply, String.toList_append, String.toList_append, List.append_assoc]
    rfl
  rw [chars, render, renderFields_eq_mapValues, String.toList_append, String.toList_append, String.toList_intercalate, hmembers]
  rfl

/-! ## Kinds of text -/

/-- What a value's text is read as. -/
inductive TextKind where
  | null | bool | number | str | arr | obj
  deriving DecidableEq

def textKind : Json → TextKind
  | null => .null
  | bool _ => .bool
  | int _ | float _ => .number
  | str _ => .str
  | arr _ => .arr
  | obj _ => .obj

/-- The kind of text that begins with a character. -/
def kindOfStart (c : Char) : TextKind :=
  if c = 'n' then .null else if c = 't' ∨ c = 'f' then .bool else if c = '"' then .str
  else if c = '[' then .arr else if c = '\x7b' then .obj else .number

theorem ne_of_startsNumber {c d : Char} (hc : startsNumber c = true) (hd : startsNumber d = false) : c ≠ d := by
  rintro rfl
  rw [hc] at hd
  cases hd

theorem kindOfStart_number {c : Char} (h : startsNumber c = true) : kindOfStart c = .number := by
  have hne (d : Char) (hd : startsNumber d = false) : c ≠ d := ne_of_startsNumber h hd
  simp [kindOfStart, hne 'n' (by decide), hne 't' (by decide), hne 'f' (by decide), hne '"' (by decide),
    hne '[' (by decide), hne '\x7b' (by decide)]

/-- The first character of a text tells its kind, and ends no list. -/
theorem exists_start (j : Json) : ∃ c rest, j.chars = c :: rest ∧ kindOfStart c = j.textKind ∧ c ≠ ']' := by
  have hnumber {cs : List Char} (h : IsNumberText cs) : ∃ c rest, cs = c :: rest ∧ kindOfStart c = .number ∧ c ≠ ']' := by
    obtain ⟨c, rest, hcs, hc⟩ := h.start
    exact ⟨c, rest, hcs, kindOfStart_number hc, ne_of_startsNumber hc (by decide)⟩
  cases j with
  | null => exact ⟨'n', _, rfl, rfl, by decide⟩
  | bool b =>
    cases b with
    | true => exact ⟨'t', _, rfl, rfl, by decide⟩
    | false => exact ⟨'f', _, rfl, rfl, by decide⟩
  | int n => exact hnumber (isNumberText_int n)
  | float x => exact hnumber (isNumberText_float x)
  | str s => exact ⟨'"', _, by rw [chars_str, quoteAscii, quoteWith, String.toList_ofList], rfl, by decide⟩
  | arr items => exact ⟨'[', _, chars_arr items, rfl, by decide⟩
  | obj fields => exact ⟨'\x7b', _, chars_obj fields, rfl, by decide⟩

theorem textKind_eq {x y : Json} {r r' : List Char} (h : x.chars ++ r = y.chars ++ r') : x.textKind = y.textKind := by
  obtain ⟨c, cs, hx, hcx, -⟩ := exists_start x
  obtain ⟨d, ds, hy, hdy, -⟩ := exists_start y
  rw [hx, hy, List.cons_append, List.cons_append] at h
  rw [← hcx, ← hdy, (List.cons.inj h).1]

/-- What may stand behind a value: nothing, a comma, or the end of a list. -/
def Ends (rest : List Char) : Prop := ∀ c ∈ rest.head?, c = ',' ∨ c = ']' ∨ c = '\x7d'

theorem takeWhile_token {cs rest : List Char} (hcs : ∀ c ∈ cs, isTokenChar c = true) (hrest : Ends rest) :
    (cs ++ rest).takeWhile isTokenChar = cs := by
  have hnone : rest.takeWhile isTokenChar = [] := by
    cases rest with
    | nil => rfl
    | cons c rest =>
      rw [List.takeWhile_cons_of_neg]
      rcases hrest c rfl with rfl | rfl | rfl <;> decide
  rw [List.takeWhile_append_of_pos hcs, hnone, List.append_nil]

/-- A word or number ends where no character of a word or number follows. -/
theorem token_cut {cs ds r r' : List Char} (hcs : ∀ c ∈ cs, isTokenChar c = true) (hds : ∀ c ∈ ds, isTokenChar c = true)
    (hr : Ends r) (hr' : Ends r') (h : cs ++ r = ds ++ r') : cs = ds ∧ r = r' := by
  have heq : cs = ds := by rw [← takeWhile_token hcs hr, h, takeWhile_token hds hr']
  subst heq
  exact ⟨rfl, List.append_cancel_left h⟩

/-! ## Lists with commas -/

section Lists

variable {α : Type} {f : α → List Char} {R : α → α → Prop} {close : Char}

/-- What stands behind the first of some items: the others, and the closing character. -/
def afterFirst (f : α → List Char) (close : Char) (xs : List α) (rest : List Char) : List Char :=
  xs.flatMap (fun x => ',' :: ' ' :: f x) ++ close :: rest

theorem intercalate_cons (f : α → List Char) (close : Char) (x : α) (xs : List α) (rest : List Char) :
    List.intercalate [',', ' '] ((x :: xs).map f) ++ close :: rest = f x ++ afterFirst f close xs rest := by
  induction xs generalizing x with
  | nil => simp [afterFirst]
  | cons y ys ih =>
    rw [List.map_cons, List.map_cons, List.intercalate_cons_cons, ← List.map_cons, List.append_assoc, List.append_assoc, ih y]
    simp [afterFirst]

theorem ends_afterFirst (hclose : close = ']' ∨ close = '\x7d') (xs : List α) (rest : List Char) :
    Ends (afterFirst f close xs rest) := by
  cases xs with
  | nil =>
    intro c hc
    obtain rfl : close = c := by simpa [afterFirst] using hc
    exact .inr hclose
  | cons x xs =>
    intro c hc
    obtain rfl : ',' = c := by simpa [afterFirst] using hc
    exact .inl rfl

theorem afterFirst_cut (hclose : close = ']' ∨ close = '\x7d') {xs ys : List α} {r r' : List Char}
    (hcut : ∀ x ∈ xs, ∀ y ∈ ys, ∀ s s', Ends s → Ends s' → f x ++ s = f y ++ s' → R x y ∧ s = s')
    (h : afterFirst f close xs r = afterFirst f close ys r') : List.Forall₂ R xs ys ∧ r = r' := by
  induction xs generalizing ys with
  | nil =>
    cases ys with
    | nil => exact ⟨.nil, by simpa [afterFirst] using h⟩
    | cons y ys => rcases hclose with rfl | rfl <;> simp [afterFirst] at h
  | cons x xs ih =>
    cases ys with
    | nil => rcases hclose with rfl | rfl <;> simp [afterFirst] at h
    | cons y ys =>
      have htail : f x ++ afterFirst f close xs r = f y ++ afterFirst f close ys r' := by simpa [afterFirst] using h
      obtain ⟨hxy, hrest⟩ := hcut x (by simp) y (by simp) _ _ (ends_afterFirst hclose xs r) (ends_afterFirst hclose ys r') htail
      obtain ⟨hall, hr⟩ := ih (fun a ha b hb => hcut a (List.mem_cons_of_mem x ha) b (List.mem_cons_of_mem y hb)) hrest
      exact ⟨.cons hxy hall, hr⟩

/-- A list is cut where its items are cut, if none begins with the closing character. -/
theorem intercalate_cut (hclose : close = ']' ∨ close = '\x7d') {xs ys : List α} {r r' : List Char}
    (hstart : ∀ x, ∃ c rest, f x = c :: rest ∧ c ≠ close)
    (hcut : ∀ x ∈ xs, ∀ y ∈ ys, ∀ s s', Ends s → Ends s' → f x ++ s = f y ++ s' → R x y ∧ s = s')
    (h : List.intercalate [',', ' '] (xs.map f) ++ close :: r = List.intercalate [',', ' '] (ys.map f) ++ close :: r') :
    List.Forall₂ R xs ys ∧ r = r' := by
  cases xs with
  | nil =>
    cases ys with
    | nil => exact ⟨.nil, by simpa using h⟩
    | cons y ys =>
      obtain ⟨c, rest, hc, hne⟩ := hstart y
      rw [intercalate_cons, hc] at h
      exact absurd (List.cons.inj h).1 hne.symm
  | cons x xs =>
    cases ys with
    | nil =>
      obtain ⟨c, rest, hc, hne⟩ := hstart x
      rw [intercalate_cons, hc] at h
      exact absurd (List.cons.inj h).1 hne
    | cons y ys =>
      rw [intercalate_cons, intercalate_cons] at h
      obtain ⟨hxy, hrest⟩ := hcut x (by simp) y (by simp) _ _ (ends_afterFirst hclose xs r) (ends_afterFirst hclose ys r') h
      obtain ⟨hall, hr⟩ := afterFirst_cut hclose
        (fun a ha b hb => hcut a (List.mem_cons_of_mem x ha) b (List.mem_cons_of_mem y hb)) hrest
      exact ⟨.cons hxy hall, hr⟩

end Lists

/-! ## Values from their texts -/

theorem numberText?_of_textKind {x : Json} (h : x.textKind = .number) :
    ∃ text, x.numberText? = some text ∧ x.chars = text.toList ∧ IsNumberText x.chars := by
  cases x with
  | int n => exact ⟨_, rfl, rfl, isNumberText_int n⟩
  | float x => exact ⟨_, rfl, rfl, isNumberText_float x⟩
  | _ => cases h

/-- Two numbers with something behind them. -/
theorem number_cut {x y : Json} {r r' : List Char} (hx : x.textKind = .number) (hy : y.textKind = .number) (hr : Ends r)
    (hr' : Ends r') (h : x.chars ++ r = y.chars ++ r') : Alike x y ∧ r = r' := by
  obtain ⟨text, hxt, hxc, hxn⟩ := numberText?_of_textKind hx
  obtain ⟨text', hyt, hyc, hyn⟩ := numberText?_of_textKind hy
  obtain ⟨htext, hrest⟩ := token_cut hxn.token hyn.token hr hr' h
  rw [hxc, hyc] at htext
  exact ⟨.number hxt (String.toList_inj.1 htext ▸ hyt), hrest⟩

/-- Two fields with something behind them. -/
theorem member_cut {f g : String × Json} {r r' : List Char}
    (hvalue : ∀ s s', Ends s → Ends s' → f.2.chars ++ s = g.2.chars ++ s' → Alike f.2 g.2 ∧ s = s') (hr : Ends r)
    (hr' : Ends r') (h : memberChars f ++ r = memberChars g ++ r') : (f.1 = g.1 ∧ Alike f.2 g.2) ∧ r = r' := by
  rw [memberChars, memberChars, List.append_assoc, List.append_assoc] at h
  obtain ⟨hname, hrest⟩ := quoteAscii_cut h
  have htail : f.2.chars ++ r = g.2.chars ++ r' := by simpa using hrest
  obtain ⟨halike, hrest⟩ := hvalue r r' hr hr' htail
  exact ⟨⟨hname, halike⟩, hrest⟩

/-- Fields with the same names in order, and values that are alike, are alike. -/
theorem alike_obj {fs gs : Fields Json} (hfs : (Fields.names fs).Nodup) (hgs : (Fields.names gs).Nodup)
    (h : List.Forall₂ (fun f g => f.1 = g.1 ∧ Alike f.2 g.2) (byName fs) (byName gs)) : Alike (obj fs) (obj gs) := by
  refine .obj fun key => ?_
  rw [← Fields.get?_perm (byName_perm fs) (nodup_byName hfs), ← Fields.get?_perm (byName_perm gs) (nodup_byName hgs)]
  exact Fields.rel_get? h key

/-- A text tells the value, up to what is alike, and where it ends. -/
theorem render_cut {x y : Json} (hx : x.Distinct) (hy : y.Distinct) {r r' : List Char} (hr : Ends r) (hr' : Ends r')
    (h : x.chars ++ r = y.chars ++ r') : Alike x y ∧ r = r' := by
  have hkind := textKind_eq h
  induction x using Json.induction generalizing y r r' with
  | null =>
    cases y with
    | null => exact ⟨.null, List.append_cancel_left h⟩
    | _ => cases hkind
  | bool b =>
    cases y with
    | bool b' =>
      have htoken (b : Bool) : ∀ c ∈ (bool b).chars, isTokenChar c = true :=
        token_of_all (by cases b <;> decide)
      obtain ⟨htext, hrest⟩ := token_cut (htoken b) (htoken b') hr hr' h
      have hinj : ∀ b b' : Bool, (boolText b).toList = (boolText b').toList → b = b' := by decide
      obtain rfl := hinj b b' htext
      exact ⟨.bool b, hrest⟩
    | _ => cases hkind
  | int n => exact number_cut rfl hkind.symm hr hr' h
  | float x => exact number_cut rfl hkind.symm hr hr' h
  | str s =>
    cases y with
    | str t =>
      obtain ⟨rfl, hrest⟩ := quoteAscii_cut h
      exact ⟨.str s, hrest⟩
    | _ => cases hkind
  | arr items ih =>
    cases y with
    | arr items' =>
      rw [chars_arr, chars_arr, List.cons_append, List.cons_append, List.append_assoc, List.append_assoc] at h
      have hstart (x : Json) : ∃ c rest, x.chars = c :: rest ∧ c ≠ ']' := by
        obtain ⟨c, rest, hc, -, hne⟩ := exists_start x
        exact ⟨c, rest, hc, hne⟩
      obtain ⟨hall, hrest⟩ := intercalate_cut (.inl rfl) hstart
        (fun a ha b hb s s' hs hs' h => ih a ha (hx.item ha) (hy.item hb) hs hs' h (textKind_eq h)) (List.cons.inj h).2
      exact ⟨.arr hall, hrest⟩
    | _ => cases hkind
  | obj fields ih =>
    cases y with
    | obj fields' =>
      rw [chars_obj, chars_obj, List.cons_append, List.cons_append, List.append_assoc, List.append_assoc] at h
      have hstart (f : String × Json) : ∃ c rest, memberChars f = c :: rest ∧ c ≠ '\x7d' :=
        ⟨'"', _, by rw [memberChars, quoteAscii, quoteWith, String.toList_ofList, List.cons_append], by decide⟩
      have hmem {fields : Fields Json} {f : String × Json} (hf : f ∈ byName fields) : f ∈ fields :=
        (byName_perm fields).mem_iff.1 hf
      obtain ⟨hall, hrest⟩ := intercalate_cut (R := fun f g => f.1 = g.1 ∧ Alike f.2 g.2) (.inr rfl) hstart
        (fun f hf g hg s s' hs hs' h => member_cut (fun t t' ht ht' h =>
          ih f (hmem hf) (hx.field (hmem hf)) (hy.field (hmem hg)) ht ht' h (textKind_eq h)) hs hs' h) (List.cons.inj h).2
      exact ⟨alike_obj hx.nodup hy.nodup hall, hrest⟩
    | _ => cases hkind

/-! ## Texts of values that are alike -/

theorem forall₂_of_alike {fs gs : Fields Json} (hfs : (Fields.names fs).Nodup) (hgs : (Fields.names gs).Nodup)
    (h : ∀ key, Option.Rel Alike (Fields.get? key fs) (Fields.get? key gs)) :
    List.Forall₂ (fun f g => f.1 = g.1 ∧ Alike f.2 g.2) (byName fs) (byName gs) := by
  refine Fields.forall₂_of_rel (names_byName_eq hfs hgs fun key => ?_) (nodup_byName hfs) fun key => ?_
  · exact Fields.mem_names_of_rel (h key)
  · rw [Fields.get?_perm (byName_perm fs) (nodup_byName hfs), Fields.get?_perm (byName_perm gs) (nodup_byName hgs)]
    exact h key

theorem map_eq_of_forall₂ {α β γ : Type} {R : α → β → Prop} {f : α → γ} {g : β → γ} {xs : List α} {ys : List β}
    (h : List.Forall₂ R xs ys) (hfg : ∀ x ∈ xs, ∀ y ∈ ys, R x y → f x = g y) : xs.map f = ys.map g := by
  induction h with
  | nil => rfl
  | @cons x y xs ys hxy _ ih =>
    rw [List.map_cons, List.map_cons, hfg x (by simp) y (by simp) hxy,
      ih fun a ha b hb => hfg a (List.mem_cons_of_mem x ha) b (List.mem_cons_of_mem y hb)]

theorem render_of_numberText? {x y : Json} {text : String} (hx : x.numberText? = some text) (hy : y.numberText? = some text) :
    x.render = y.render := by
  have hrender {x : Json} (hx : x.numberText? = some text) : x.render = text := by
    cases x with
    | int n => exact Option.some.inj hx
    | float x => exact Option.some.inj hx
    | _ => cases hx
  rw [hrender hx, hrender hy]

/-- Values that are alike have the same text. -/
theorem Alike.render_eq {x y : Json} (hx : x.Distinct) (hy : y.Distinct) (h : Alike x y) : x.render = y.render := by
  induction x using Json.induction generalizing y with
  | null =>
    cases h with
    | null => rfl
    | number hx _ => cases hx
  | bool b =>
    cases h with
    | bool => rfl
    | number hx _ => cases hx
  | int n =>
    cases h with
    | number hx hy => exact render_of_numberText? hx hy
  | float x =>
    cases h with
    | number hx hy => exact render_of_numberText? hx hy
  | str s =>
    cases h with
    | str => rfl
    | number hx _ => cases hx
  | arr items ih =>
    cases h with
    | number hx _ => cases hx
    | @arr _ items' hall =>
      have hrender : items.map render = items'.map render := by
        exact map_eq_of_forall₂ hall fun x hx' y hy' hxy => ih x hx' (hx.item hx') (hy.item hy') hxy
      rw [render, render, renderItems_eq_map, renderItems_eq_map, hrender]
  | obj fields ih =>
    cases h with
    | number hx _ => cases hx
    | @obj _ fields' hall =>
      have hrender : byName (renderFields fields) = byName (renderFields fields') := by
        rw [renderFields_eq_mapValues, renderFields_eq_mapValues, ← mapValues_byName, ← mapValues_byName]
        refine map_eq_of_forall₂ (forall₂_of_alike hx.nodup hy.nodup hall) fun f hf g hg hfg => ?_
        have hf : f ∈ fields := (byName_perm fields).mem_iff.1 hf
        have hg : g ∈ fields' := (byName_perm fields').mem_iff.1 hg
        rw [hfg.1, ih f hf (hx.field hf) (hy.field hg) hfg.2]
      rw [render, render, hrender]

/-- Values have the same text exactly if they are alike. -/
theorem render_eq_iff {x y : Json} (hx : x.Distinct) (hy : y.Distinct) : x.render = y.render ↔ Alike x y := by
  refine ⟨fun h => ?_, fun h => h.render_eq hx hy⟩
  have hchars : x.chars ++ [] = y.chars ++ [] := by rw [chars, chars, h]
  exact (render_cut hx hy (by simp [Ends]) (by simp [Ends]) hchars).1

end Json

end ScriptTrace
