import Mathlib
import ScriptTrace.Proofs.RunOutcomes
import ScriptTrace.Proofs.SpelledIntegers

/-!
# Events are read as they are written

An object describes an event by its fields. Some of them may be missing and then have a default, two may stand under
either of two names, and the line may be written as any value that stands for an integer; fields that no event has do
not matter. Written with all its fields, an event that was read is read as the same event again. A buffer that lists
values holds events exactly if every value describes one; otherwise the first that does not tells what is wrong.

* `Binary64.StandsFor`, `StandsForInteger` : the values that stand for an integer, and for which one;
* `FieldHolds` : the value of a field, under the first of its names that is there, or its default;
* `Event.DescribedBy`, `read_eq_valid` : which values describe an event, and which one;
* `read_toJson` : an event that is written, and read again;
* `readAll_eq_error`, `loadEvents_list_eq_error` : the first value of a list that describes no event;
* `readEvents_stable` : single events and whole buffers.
-/

namespace ScriptTrace

/-! ## Values -/

/-- The number is exactly the integer. -/
def Binary64.StandsFor : Binary64 → Int → Prop
  | .finite negative significand exponent, n =>
    n * 2 ^ (-exponent).toNat = signed negative (significand * 2 ^ exponent.toNat)
  | _, _ => False

/-- The integers that values stand for. A number with a point stands for one below a bound, and a text for the one that
it spells. -/
inductive StandsForInteger : Json → Int → Prop
  | int (n : Int) : StandsForInteger (.int n) n
  | bool (b : Bool) : StandsForInteger (.bool b) (if b then 1 else 0)
  | float {x : Binary64} {n : Int} : x.StandsFor n → n.natAbs < 2 ^ 63 → StandsForInteger (.float x) n
  | text {s : String} {n : Int} : lenientInteger s = .ok n → StandsForInteger (.str s) n

/-- A quotient of natural numbers, if it is an integer. -/
theorem natDiv_eq_iff {a b : Nat} (hb : 0 < b) (n : Int) : (a % b = 0 ∧ ((a / b : Nat) : Int) = n) ↔ n * b = a := by
  constructor
  · rintro ⟨hmod, rfl⟩
    exact_mod_cast Nat.div_mul_cancel (Nat.dvd_of_mod_eq_zero hmod)
  · intro h
    have hn : 0 ≤ n := by
      by_contra hneg
      have hlt := Int.mul_neg_of_neg_of_pos (Int.not_le.1 hneg) (Int.natCast_pos.2 hb)
      omega
    obtain ⟨k, rfl⟩ := Int.eq_ofNat_of_zero_le hn
    obtain rfl : k * b = a := by exact_mod_cast h
    exact ⟨Nat.mul_mod_left k b, congrArg Nat.cast (Nat.mul_div_cancel k hb)⟩

theorem signed_natDiv_eq_iff {a b : Nat} (hb : 0 < b) (negative : Bool) (n : Int) :
    (a % b = 0 ∧ signed negative (a / b) = n) ↔ n * b = signed negative a := by
  cases negative with
  | false => exact natDiv_eq_iff hb n
  | true =>
    have hneg : (-((a / b : Nat) : Int) = n) ↔ ((a / b : Nat) : Int) = -n := by omega
    have hmul : (n * b = -(a : Int)) ↔ -n * b = a := by
      rw [Int.neg_mul]
      omega
    exact (and_congr_right fun _ => hneg).trans ((natDiv_eq_iff hb (-n)).trans hmul.symm)

theorem toInt?_eq_some {x : Binary64} {n : Int} : x.toInt? = some n ↔ x.StandsFor n := by
  cases x with
  | infinite | nan => exact ⟨(by cases ·), False.elim⟩
  | finite negative m e =>
    have hratio : (Binary64.finite negative m e).toInt? = some n ↔
        (Binary64.ratio m e).1 % (Binary64.ratio m e).2 = 0 ∧
          signed negative ((Binary64.ratio m e).1 / (Binary64.ratio m e).2) = n := by
      simp only [Binary64.toInt?, Binary64.truncate?, signed, Option.ite_none_right_eq_some, Option.some.injEq]
    have hpos : 0 < (Binary64.ratio m e).2 := by
      unfold Binary64.ratio
      split
      · exact Nat.one_pos
      · exact Nat.pow_pos (by decide)
    rw [hratio, signed_natDiv_eq_iff hpos, Binary64.StandsFor, Binary64.ratio]
    split
    · have he : (-e).toNat = 0 := by omega
      rw [he]
      rfl
    · have he : e.toNat = 0 := by omega
      rw [he, Nat.pow_zero, Nat.mul_one]
      exact_mod_cast Iff.rfl

theorem wholeNumber_eq_ok {x : Binary64} {n : Int} : Reading.wholeNumber x = .ok n ↔ x.StandsFor n ∧ n.natAbs < 2 ^ 63 := by
  rw [← toInt?_eq_some]
  unfold Reading.wholeNumber
  split
  · rename_i hnone
    have hint : x.toInt? = none := by
      cases x with
      | finite => cases hnone
      | infinite | nan => rfl
    simp [hint]
  · rename_i hint
    simp [hint]
  · rename_i k _ hint
    simp only [hint, Option.some.injEq]
    constructor
    · intro h
      split at h
      · cases h
        exact ⟨rfl, ‹_›⟩
      · cases h
    · rintro ⟨rfl, hlt⟩
      exact if_pos hlt

theorem integer_eq_ok {j : Json} {n : Int} : Reading.integer j = .ok n ↔ StandsForInteger j n := by
  constructor
  · intro h
    unfold Reading.integer at h
    split at h
    · cases h
      exact .int _
    · cases h
      exact .bool _
    · obtain ⟨hstands, hlt⟩ := wholeNumber_eq_ok.1 h
      exact .float hstands hlt
    · rename_i s
      refine .text ?_
      cases hread : lenientInteger s with
      | ok k => rw [hread] at h; cases h; rfl
      | error fault => rw [hread] at h; cases h
    · cases h
  · rintro (_ | _ | ⟨hstands, hlt⟩ | hread)
    · rfl
    · rfl
    · exact wholeNumber_eq_ok.2 ⟨hstands, hlt⟩
    · rw [Reading.integer, hread]
      rfl

/-! ## Fields -/

/-- What a field holds: what the value under the first of its names that is there means, or else its default. -/
inductive FieldHolds {α : Type} (names : List String) (default : Option α) (means : Json → α → Prop) (fields : Fields Json)
    (a : α) : Prop
  | given {j : Json} (hget : names.findSome? (Fields.get? · fields) = some j) (hmeans : means j a)
  | missing (hget : names.findSome? (Fields.get? · fields) = none) (hdefault : default = some a)

/-- A text for some, and null for none. -/
def MeansText (j : Json) (s : Option String) : Prop := j = .ofText? s

/-- An object with these fields describes the event. -/
structure Event.DescribedBy (e : Event) (fields : Fields Json) : Prop where
  kind : ∃ word, FieldHolds ["kind"] none (· = .str ·) fields word ∧ Kind.ofWord word = e.kind
  line : FieldHolds ["line"] (some (-1)) StandsForInteger fields e.line
  name : FieldHolds ["name"] (some none) MeansText fields e.name
  args : FieldHolds ["args"] (some []) (· = .obj ·) fields e.args
  locals : FieldHolds ["locals"] (some []) (· = .obj ·) fields e.locals
  value : FieldHolds ["value"] (some .null) (· = ·) fields e.value
  expression : FieldHolds ["expression"] (some none) MeansText fields e.expression
  result : FieldHolds ["result"] (some .null) (· = ·) fields e.result
  loopType : FieldHolds ["loopType", "loop_type"] (some none) MeansText fields e.loopType
  output : FieldHolds ["output"] (some none) MeansText fields e.output
  className : FieldHolds ["className", "class_name"] (some none) MeansText fields e.className
  message : FieldHolds ["message"] (some none) MeansText fields e.message

section Readings

variable {α : Type} {j : Json}

theorem text_eq_ok {s : String} : Reading.text j = .ok s ↔ j = .str s := by
  cases j <;> simp [Reading.text]

theorem optionalText_eq_ok {s : Option String} : Reading.optionalText j = .ok s ↔ MeansText j s := by
  cases j <;> cases s <;> simp [Reading.optionalText, MeansText, Json.ofText?]

theorem fields_eq_ok {fs : Fields Json} : Reading.fields j = .ok fs ↔ j = .obj fs := by
  cases j <;> simp [Reading.fields]

theorem any_eq_ok {v : Json} : Reading.any j = .ok v ↔ j = v := by
  simp [Reading.any]

theorem located_eq_valid {place : String} {r : Except Flaw α} {a : α} : located place r = .valid a ↔ r = .ok a := by
  cases r <;> simp [located]

end Readings

section FieldReadings

variable {α : Type} {names : List String} {name other : String} {default : Option α} {means : Json → α → Prop}
  {fields : Fields Json} {j : Json} {a : α}

theorem fieldHolds_of_some (hget : names.findSome? (Fields.get? · fields) = some j) :
    FieldHolds names default means fields a ↔ means j a := by
  refine ⟨?_, .given hget⟩
  rintro (⟨hgiven, hmeans⟩ | ⟨hmissing, -⟩)
  · obtain rfl := Option.some.inj (hget.symm.trans hgiven)
    exact hmeans
  · cases hget.symm.trans hmissing

theorem fieldHolds_of_none (hget : names.findSome? (Fields.get? · fields) = none) :
    FieldHolds names default means fields a ↔ default = some a := by
  refine ⟨?_, .missing hget⟩
  rintro (⟨hgiven, -⟩ | ⟨-, hdefault⟩)
  · cases hget.symm.trans hgiven
  · exact hdefault

variable {reading : Reading α} (hreading : ∀ j a, reading j = .ok a ↔ means j a)

include hreading

theorem required_eq_valid : required name reading fields = .valid a ↔ FieldHolds [name] none means fields a := by
  rw [required, located_eq_valid]
  cases hget : Fields.get? name fields with
  | none => rw [fieldHolds_of_none (by simp [hget])]; exact ⟨(by cases ·), (by cases ·)⟩
  | some j => rw [fieldHolds_of_some (by simp [hget]; rfl)]; exact hreading j a

theorem defaultedAs_eq_valid {default : α} : defaultedAs name other default reading fields = .valid a ↔
    FieldHolds [name, other] (some default) means fields a := by
  unfold defaultedAs
  split
  · rename_i j _ hget
    rw [located_eq_valid, hreading, fieldHolds_of_some (by simp [hget]; rfl)]
  · rename_i j hnone hget
    rw [located_eq_valid, hreading, fieldHolds_of_some (by simp [hnone, hget]; rfl)]
  · rename_i hnone hother
    rw [fieldHolds_of_none (by simp [hnone, hother]), Checked.valid.injEq, Option.some.injEq]

theorem defaulted_eq_valid {default : α} : defaulted name default reading fields = .valid a ↔
    FieldHolds [name] (some default) means fields a := by
  rw [defaulted, defaultedAs_eq_valid hreading]
  cases hget : Fields.get? name fields with
  | none => rw [fieldHolds_of_none (by simp [hget]), fieldHolds_of_none (by simp [hget])]
  | some j => rw [fieldHolds_of_some (by simp [hget]; rfl), fieldHolds_of_some (by simp [hget]; rfl)]

end FieldReadings

namespace Checked

variable {α β : Type}

theorem map_eq_valid {f : α → β} {r : Checked α} {b : β} : f <$> r = .valid b ↔ ∃ a, r = .valid a ∧ f a = b := by
  change r.map f = .valid b ↔ _
  cases r <;> simp [Checked.map]

theorem seq_eq_valid {f : Checked (α → β)} {r : Checked α} {b : β} :
    f <*> r = .valid b ↔ ∃ g, f = .valid g ∧ ∃ a, r = .valid a ∧ g a = b := by
  change f.apply r = .valid b ↔ _
  cases f <;> cases r <;> simp [Checked.apply]

end Checked

/-- What is read is described, field by field. -/
theorem Event.DescribedBy.of_read {fields : Fields Json} {e : Event} (h : Event.read (.obj fields) = .valid e) :
    e.DescribedBy fields := by
  simp only [Event.read, Checked.seq_eq_valid, Checked.map_eq_valid, required_eq_valid fun _ _ => text_eq_ok,
    defaulted_eq_valid fun _ _ => integer_eq_ok, defaulted_eq_valid fun _ _ => optionalText_eq_ok,
    defaulted_eq_valid fun _ _ => fields_eq_ok, defaulted_eq_valid fun _ _ => any_eq_ok,
    defaultedAs_eq_valid fun _ _ => optionalText_eq_ok] at h
  -- The fields are taken off from the last to the first, in the order opposite to that of reading.
  obtain ⟨_, h, message, hmessage, rfl⟩ := h
  obtain ⟨_, h, className, hclassName, rfl⟩ := h
  obtain ⟨_, h, output, houtput, rfl⟩ := h
  obtain ⟨_, h, loopType, hloopType, rfl⟩ := h
  obtain ⟨_, h, result, hresult, rfl⟩ := h
  obtain ⟨_, h, expression, hexpression, rfl⟩ := h
  obtain ⟨_, h, value, hvalue, rfl⟩ := h
  obtain ⟨_, h, locals, hlocals, rfl⟩ := h
  obtain ⟨_, h, args, hargs, rfl⟩ := h
  obtain ⟨_, h, name, hname, rfl⟩ := h
  obtain ⟨_, h, line, hline, rfl⟩ := h
  obtain ⟨_, ⟨word, hword, rfl⟩, rfl⟩ := h
  exact ⟨⟨word, hword, rfl⟩, hline, hname, hargs, hlocals, hvalue, hexpression, hresult, hloopType, houtput, hclassName, hmessage⟩

theorem Event.DescribedBy.read {fields : Fields Json} {e : Event} (h : e.DescribedBy fields) :
    Event.read (.obj fields) = .valid e := by
  obtain ⟨word, hword, hkind⟩ := h.kind
  have htext {name : String} {s : Option String} (h : FieldHolds [name] (some none) MeansText fields s) :=
    (defaulted_eq_valid fun _ _ => optionalText_eq_ok).2 h
  have heither {name other : String} {s : Option String} (h : FieldHolds [name, other] (some none) MeansText fields s) :=
    (defaultedAs_eq_valid fun _ _ => optionalText_eq_ok).2 h
  have hfields {name : String} {fs : Fields Json} (h : FieldHolds [name] (some []) (· = .obj ·) fields fs) :=
    (defaulted_eq_valid fun _ _ => fields_eq_ok).2 h
  have hany {name : String} {v : Json} (h : FieldHolds [name] (some .null) (· = ·) fields v) :=
    (defaulted_eq_valid fun _ _ => any_eq_ok).2 h
  rw [Event.read, (required_eq_valid fun _ _ => text_eq_ok).2 hword, (defaulted_eq_valid fun _ _ => integer_eq_ok).2 h.line,
    htext h.name, hfields h.args, hfields h.locals, hany h.value, htext h.expression, hany h.result, heither h.loopType,
    htext h.output, heither h.className, htext h.message]
  change Checked.valid { e with kind := Kind.ofWord word } = _
  rw [hkind]

/-- An event is read exactly from the objects that describe it. -/
theorem read_eq_valid {p : Json} {e : Event} : Event.read p = .valid e ↔ ∃ fields, p = .obj fields ∧ e.DescribedBy fields := by
  constructor
  · intro h
    cases p with
    | obj fields => exact ⟨fields, rfl, .of_read h⟩
    | _ => cases h
  · rintro ⟨fields, rfl, h⟩
    exact h.read

/-! ## Writing -/

/-- The kind of an event that was read is the one that its word is read as. -/
theorem Event.DescribedBy.ofWord_word {fields : Fields Json} {e : Event} (h : e.DescribedBy fields) :
    Kind.ofWord e.kind.word = e.kind := by
  obtain ⟨word, -, hkind⟩ := h.kind
  rw [← hkind, Kind.word_ofWord]

/-- All fields of an event describe it. -/
theorem Event.exists_describedBy (e : Event) (hkind : Kind.ofWord e.kind.word = e.kind) :
    ∃ fields, e.toJson = .obj fields ∧ e.DescribedBy fields := by
  exact ⟨_, rfl, ⟨e.kind.word, .given rfl rfl, hkind⟩, .given rfl (.int e.line), .given rfl rfl, .given rfl rfl, .given rfl rfl,
    .given rfl rfl, .given rfl rfl, .given rfl rfl, .given rfl rfl, .given rfl rfl, .given rfl rfl, .given rfl rfl⟩

/-- An event that was read is written in a way that it is read again. -/
theorem read_toJson {p : Json} {e : Event} (h : Event.read p = .valid e) : Event.read e.toJson = .valid e := by
  obtain ⟨fields, -, hfields⟩ := read_eq_valid.1 h
  exact read_eq_valid.2 (e.exists_describedBy hfields.ofWord_word)

/-! ## Buffers -/

/-- The first of some values that describes no event, and what is wrong with it. -/
def FirstFlawed (values : List Json) (issues : List Issue) : Prop :=
  ∃ before bad after, values = before ++ bad :: after ∧ (∀ p ∈ before, ∃ e, Event.read p = .valid e) ∧
    Event.read bad = .invalid issues

theorem readAll_eq_error {values : List Json} {issues : List Issue} :
    Event.readAll values = .error issues ↔ FirstFlawed values issues := by
  have hok (p : Json) : (∃ e, (Event.read p).toExcept = .ok e) ↔ ∃ e, Event.read p = .valid e := by
    cases Event.read p <;> simp [Checked.toExcept]
  have herror (p : Json) : (Event.read p).toExcept = .error issues ↔ Event.read p = .invalid issues := by
    cases Event.read p <;> simp [Checked.toExcept]
  unfold Event.readAll Checked.readAll FirstFlawed
  rw [mapM_eq_error]
  simp only [hok, herror]

section Lists

variable {text : String} {values : List Json} (hparse : Json.parse text = .ok (.arr values))

include hparse

theorem loadEvents_list_eq_ok {events : List Event} :
    loadEvents (some text) = .ok events ↔ List.Forall₂ (fun p e => Event.read p = .valid e) values events := by
  rw [loadEvents_list hparse, ← readAll_eq_ok]
  cases Event.readAll values <;> simp [Except.mapError]

theorem loadEvents_list_eq_error {fault : BufferFault} :
    loadEvents (some text) = .error fault ↔ ∃ issues, FirstFlawed values issues ∧ fault = .badEvent issues := by
  simp only [← readAll_eq_error]
  rw [loadEvents_list hparse]
  cases Event.readAll values <;> simp [Except.mapError, eq_comm]

/-- A list is accepted if each of its values is. -/
theorem exists_loadEvents_iff : (∃ events, loadEvents (some text) = .ok events) ↔ ∀ p ∈ values, ∃ e, Event.read p = .valid e := by
  constructor
  · rintro ⟨events, h⟩ p hp
    obtain ⟨e, -, he⟩ := exists_of_mem_forall₂ ((loadEvents_list_eq_ok hparse).1 h).flip p hp
    exact ⟨e, he⟩
  · intro hall
    cases hload : loadEvents (some text) with
    | ok events => exact ⟨events, rfl⟩
    | error fault =>
      obtain ⟨issues, ⟨before, bad, after, rfl, -, hbad⟩, -⟩ := (loadEvents_list_eq_error hparse).1 hload
      obtain ⟨e, he⟩ := hall bad (by simp)
      rw [hbad] at he
      cases he

end Lists

/-- Every event of a buffer was read from a value. -/
theorem exists_read_of_loadEvents {payload : Option String} {events : List Event} (h : loadEvents payload = .ok events) :
    ∀ e ∈ events, ∃ p, Event.read p = .valid e := by
  cases loadEvents_eq_ok.1 h with
  | missing | empty => exact fun e he => absurd he List.not_mem_nil
  | items text j values events hsome hparse hitems hread =>
    intro e he
    obtain ⟨p, -, hp⟩ := exists_of_mem_forall₂ hread e he
    exact ⟨p, hp⟩

/-- The events of a buffer are read again from any text that lists them as they are written. -/
theorem loadEvents_written {payload : Option String} {events : List Event} {text : String} (h : loadEvents payload = .ok events)
    (hparse : Json.parse text = .ok (.arr (events.map Event.toJson))) : loadEvents (some text) = .ok events := by
  refine (loadEvents_list_eq_ok hparse).2 (List.forall₂_map_left_iff.2 (List.forall₂_same.2 fun e he => ?_))
  obtain ⟨p, hp⟩ := exists_read_of_loadEvents h e he
  exact read_toJson hp

/-- Exactly the objects that describe an event are read, as the event they describe, and each spelling of an integer
may stand for a line. Written with all its fields, an event that was read is read as the same event again. A buffer that
lists values holds events, one for each value and in their order, exactly if each value describes one; otherwise it is
refused with what is wrong with the first that does not. Any text that lists the events of a buffer as they are written
holds the same events. -/
theorem readEvents_stable :
    (∀ p e, Event.read p = .valid e ↔ ∃ fields, p = .obj fields ∧ e.DescribedBy fields) ∧
    (∀ s n, SpelledInteger s n → StandsForInteger (.str s) n) ∧
    (∀ p e, Event.read p = .valid e → Event.read e.toJson = .valid e) ∧
    (∀ text values, Json.parse text = .ok (.arr values) →
      (∀ events, loadEvents (some text) = .ok events ↔ List.Forall₂ (fun p e => Event.read p = .valid e) values events) ∧
      ((∃ events, loadEvents (some text) = .ok events) ↔ ∀ p ∈ values, ∃ e, Event.read p = .valid e) ∧
      ∀ fault, loadEvents (some text) = .error fault ↔ ∃ issues, FirstFlawed values issues ∧ fault = .badEvent issues) ∧
    ∀ payload events text, loadEvents payload = .ok events → Json.parse text = .ok (.arr (events.map Event.toJson)) →
      loadEvents (some text) = .ok events :=
  ⟨fun _ _ => read_eq_valid, fun _ _ h => .text (lenientInteger_spelled h), fun _ _ => read_toJson,
    fun _ _ hparse => ⟨fun _ => loadEvents_list_eq_ok hparse, exists_loadEvents_iff hparse,
      fun _ => loadEvents_list_eq_error hparse⟩,
    fun _ _ _ => loadEvents_written⟩

/-- A record with an integer spelled at length, the other name of a field, a field without a value and one that no
event has. -/
def spelledRecord : Json :=
  .obj [("kind", .str "loop"), ("line", .str " +0_7.00 "), ("name", .null), ("loop_type", .str "while"), ("row", .int 1)]

/-- The event of this record. -/
def spelledEvent : Event := { kind := .note "loop", line := 7, loopType := some "while" }

/-- A buffer with this record alone. -/
def spelledBuffer : String :=
  "[\x7b\"kind\":\"loop\",\"line\":\" +0_7.00 \",\"name\":null,\"loop_type\":\"while\",\"row\":1\x7d]"

/-- A buffer with two values that are no events. -/
def flawedBuffer : String := "[3,\x7b\x7d]"

/-- A buffer with the event of the record as it is written. -/
def writtenBuffer : String :=
  "[\x7b\"kind\":\"loop\",\"line\":7,\"name\":null,\"args\":\x7b\x7d,\"locals\":\x7b\x7d,\"value\":null,\"expression\":null," ++
    "\"result\":null,\"loopType\":\"while\",\"output\":null,\"className\":null,\"message\":null\x7d]"

theorem readEvents_stable_spelled :
    SpelledInteger " +0_7.00 " 7 ∧ StandsForInteger (.str " +0_7.00 ") 7 ∧
    Event.read spelledRecord = .valid spelledEvent ∧ Event.read spelledEvent.toJson = .valid spelledEvent ∧
    Json.parse spelledBuffer = .ok (.arr [spelledRecord]) ∧ loadEvents (some spelledBuffer) = .ok [spelledEvent] ∧
    Json.parse flawedBuffer = .ok (.arr [.int 3, .obj []]) ∧
    loadEvents (some flawedBuffer) = .error (.badEvent [⟨"", .notRecord⟩]) ∧
    Json.parse writtenBuffer = .ok (.arr ([spelledEvent].map Event.toJson)) ∧
    loadEvents (some writtenBuffer) = .ok [spelledEvent] := by
  have hdigits : AsciiDigits [0, 7] ['0', '_', '7'] := .grouped (by decide) (by decide) (.digit (by decide) .nil)
  have hspace : ∀ c ∈ [' '], isWhiteSpace c = true := List.forall_mem_singleton.2 rfl
  have hspelled : SpelledInteger " +0_7.00 " 7 :=
    .intro ⟨[' '], [' '], rfl, hspace, hspace⟩ .plus hdigits (by decide) (.zeros 1) (by decide)
  have hgood : Json.parse spelledBuffer = .ok (.arr [spelledRecord]) := by cbv
  have hflawed : Json.parse flawedBuffer = .ok (.arr [.int 3, .obj []]) := by cbv
  have hwritten : Json.parse writtenBuffer = .ok (.arr ([spelledEvent].map Event.toJson)) := by cbv
  obtain ⟨hread, hstands, hagain, hlists, hbuffers⟩ := readEvents_stable
  have hline := hstands _ _ hspelled
  have hevent : Event.read spelledRecord = .valid spelledEvent := by
    refine (hread _ _).2 ⟨_, rfl, ?_⟩
    exact {
      kind := ⟨"loop", .given rfl rfl, rfl⟩
      line := .given rfl hline
      name := .given rfl rfl
      args := .missing rfl rfl
      locals := .missing rfl rfl
      value := .missing rfl rfl
      expression := .missing rfl rfl
      result := .missing rfl rfl
      loopType := .given rfl rfl
      output := .missing rfl rfl
      className := .missing rfl rfl
      message := .missing rfl rfl }
  have hload := ((hlists _ _ hgood).1 [spelledEvent]).2 (.cons hevent .nil)
  have hfirst : FirstFlawed [.int 3, .obj []] [⟨"", .notRecord⟩] := ⟨[], .int 3, [.obj []], rfl, by simp, rfl⟩
  exact ⟨hspelled, hline, hevent, hagain _ _ hevent, hgood, hload, hflawed, ((hlists _ _ hflawed).2.2 _).2 ⟨_, hfirst, rfl⟩,
    hwritten, hbuffers _ _ _ hload hwritten⟩

end ScriptTrace
