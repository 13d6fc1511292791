import ScriptTrace.Json.Basic
import Mathlib.Data.List.Forall2

/-!
# Field lists as maps

What is true of the fields of a node is mostly said key by key.

* `Fields.mapValues` : a function on every value, names and order kept;
* `Fields.ext` : fields with the same names, none twice, and the same values are the same;
* `Fields.mem_of_get?`, `Fields.get?_of_mem` : looking up is finding.
-/

namespace ScriptTrace.Fields

variable {α β γ : Type}

/-- The fields with a function applied to every value. -/
def mapValues (f : α → β) (fields : Fields α) : Fields β := fields.map fun p => (p.1, f p.2)

@[simp] theorem mapValues_nil (f : α → β) : mapValues f [] = [] := rfl

@[simp] theorem mapValues_cons (f : α → β) (k : String) (v : α) (rest : Fields α) :
    mapValues f ((k, v) :: rest) = (k, f v) :: mapValues f rest := rfl

@[simp] theorem names_mapValues (f : α → β) (fields : Fields α) :
    names (mapValues f fields) = names fields := by
  simp [names, mapValues]

@[simp] theorem get?_mapValues (f : α → β) (key : String) (fields : Fields α) :
    get? key (mapValues f fields) = (get? key fields).map f := by
  induction fields with
  | nil => rfl
  | cons p rest ih =>
    by_cases h : p.1 = key
    · simp [mapValues, get?, h]
    · simpa [mapValues, get?, h] using ih

theorem mapValues_set (f : α → β) (key : String) (value : α) (fields : Fields α) :
    mapValues f (set key value fields) = set key (f value) (mapValues f fields) := by
  induction fields with
  | nil => rfl
  | cons p rest ih =>
    by_cases h : p.1 = key
    · simp [mapValues, set, h]
    · simpa [mapValues, set, h] using ih

@[simp] theorem mapValues_mapValues (g : β → γ) (f : α → β) (fields : Fields α) :
    mapValues g (mapValues f fields) = mapValues (g ∘ f) fields := by
  simp [mapValues]

theorem mapValues_id (fields : Fields α) : mapValues id fields = fields := by
  simp [mapValues]

/-! ## Looking up -/

theorem mem_of_get? {key : String} {v : α} {fields : Fields α} (h : get? key fields = some v) :
    (key, v) ∈ fields := by
  induction fields with
  | nil => cases h
  | cons p rest ih =>
    obtain ⟨k, w⟩ := p
    by_cases hk : k = key
    · simp only [get?, hk, if_true, Option.some.injEq] at h
      simp [hk, h]
    · simp only [get?, hk, if_false] at h
      exact List.mem_cons_of_mem _ (ih h)

theorem get?_eq_none {key : String} {fields : Fields α} : get? key fields = none ↔ key ∉ names fields := by
  induction fields with
  | nil => simp [get?, names]
  | cons p rest ih =>
    by_cases h : p.1 = key
    · simp [get?, names, h]
    · have h' : key ≠ p.1 := fun e => h e.symm
      simpa [get?, names, h, h'] using ih

theorem mem_names_of_get? {key : String} {v : α} {fields : Fields α} (h : get? key fields = some v) :
    key ∈ names fields :=
  List.mem_map_of_mem (f := Prod.fst) (mem_of_get? h)

theorem exists_get? {key : String} {fields : Fields α} (h : key ∈ names fields) :
    ∃ v, get? key fields = some v := by
  cases hv : get? key fields with
  | some v => exact ⟨v, rfl⟩
  | none => exact absurd h (get?_eq_none.1 hv)

theorem get?_of_mem {key : String} {v : α} {fields : Fields α} (hnd : (names fields).Nodup)
    (h : (key, v) ∈ fields) : get? key fields = some v := by
  induction fields with
  | nil => cases h
  | cons p rest ih =>
    obtain ⟨k, w⟩ := p
    simp only [names, List.map_cons, List.nodup_cons] at hnd
    rcases List.mem_cons.1 h with h | h
    · cases h
      simp [get?]
    · have hk : k ≠ key := by
        rintro rfl
        exact hnd.1 (List.mem_map_of_mem (f := Prod.fst) h)
      simpa [get?, hk] using ih hnd.2 h

/-- Only the value under `key` is new when it is set. -/
theorem mem_set {key : String} {w : α} {fields : Fields α} {f : String × α} (h : f ∈ set key w fields) : f = (key, w) ∨ f ∈ fields := by
  induction fields with
  | nil => exact .inl (List.mem_singleton.1 h)
  | cons g fields ih =>
    rw [set] at h
    split at h
    · next hkey =>
      rcases List.mem_cons.1 h with rfl | h
      · exact .inl (by rw [hkey])
      · exact .inr (List.mem_cons_of_mem g h)
    · rcases List.mem_cons.1 h with rfl | h
      · exact .inr List.mem_cons_self
      · exact (ih h).imp_right (List.mem_cons_of_mem g)

theorem get?_append (key : String) (as bs : Fields α) :
    get? key (as ++ bs) = (get? key as).orElse fun _ => get? key bs := by
  induction as with
  | nil => rfl
  | cons p rest ih =>
    by_cases h : p.1 = key
    · simp [get?, h]
    · simpa [get?, h] using ih

theorem setAll_cons (fields news : Fields α) (f : String × α) :
    setAll fields (f :: news) = setAll (set f.1 f.2 fields) news := rfl

/-- Of many fields that are set, the last one under a name counts. -/
theorem get?_setAll (key : String) (news fields : Fields α) :
    get? key (setAll fields news) = (get? key news.reverse).or (get? key fields) := by
  induction news generalizing fields with
  | nil => rfl
  | cons p rest ih =>
    obtain ⟨k, v⟩ := p
    rw [setAll_cons, ih, get?_set, List.reverse_cons, get?_append, Option.orElse_eq_or, Option.or_assoc]
    by_cases h : k = key
    · simp [get?, h]
    · simp [get?, h]

/-- Fields are determined by their names, when none occurs twice, and by what is found under each. -/
theorem ext {as bs : Fields α} (hnames : names as = names bs) (hnd : (names as).Nodup)
    (hget : ∀ key, get? key as = get? key bs) : as = bs := by
  induction as generalizing bs with
  | nil => cases bs with
    | nil => rfl
    | cons b rest => simp [names] at hnames
  | cons a as ih =>
    cases bs with
    | nil => simp [names] at hnames
    | cons b bs =>
      obtain ⟨k, v⟩ := a
      obtain ⟨k', w⟩ := b
      simp only [names, List.map_cons, List.cons.injEq, List.nodup_cons] at hnames hnd
      obtain ⟨rfl, hrest⟩ := hnames
      have hv : v = w := by simpa [get?] using hget k
      subst hv
      refine congrArg _ (ih hrest hnd.2 fun key => ?_)
      by_cases hk : k = key
      · subst hk
        have hb : k ∉ List.map (fun p => p.1) bs := hrest ▸ hnd.1
        rw [get?_eq_none.2 hnd.1, get?_eq_none.2 hb]
      · simpa [get?, hk] using hget key

/-- Setting a field to what it holds changes nothing. -/
theorem set_of_get? {key : String} {v : α} {fields : Fields α} (h : get? key fields = some v) :
    set key v fields = fields := by
  induction fields with
  | nil => cases h
  | cons p rest ih =>
    obtain ⟨k, w⟩ := p
    by_cases hk : k = key
    · simp only [get?, if_pos hk, Option.some.injEq] at h
      simp [set, hk, h]
    · simp only [get?, if_neg hk] at h
      simp [set, hk, ih h]

theorem setAll_of_same {news fields : Fields α} (h : ∀ f ∈ news, get? f.1 fields = some f.2) :
    setAll fields news = fields := by
  induction news with
  | nil => rfl
  | cons f news ih =>
    rw [setAll_cons, set_of_get? (h f (by simp))]
    exact ih fun g hg => h g (List.mem_cons_of_mem f hg)

/-- The last value set is the one that stays. -/
theorem set_set (key : String) (v w : α) (fields : Fields α) : set key v (set key w fields) = set key v fields := by
  induction fields with
  | nil => simp [set]
  | cons p rest ih =>
    by_cases h : p.1 = key
    · simp [set, h]
    · simp [set, h, ih]

/-- Setting a field that is there keeps the names. -/
theorem names_set_of_mem {key : String} {v : α} {fields : Fields α} (h : key ∈ names fields) :
    names (set key v fields) = names fields := by
  rw [names_set, if_pos h]

end ScriptTrace.Fields
