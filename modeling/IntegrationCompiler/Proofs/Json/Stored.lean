import IntegrationCompiler.Manifest.Basic
import IntegrationCompiler.Proofs.Diagnostics.Checked
import IntegrationCompiler.Proofs.Diagnostics.Fails
import IntegrationCompiler.Proofs.Diagnostics.Returns
import IntegrationCompiler.Proofs.Field.Shape
import IntegrationCompiler.Proofs.Json.RoundTrip

/-!
# Values in files

A file holds one value. What is written into it is read as the same value, and a record that is
written as a value is read as the same record.

Main definitions:

* `Value.Storable` — a value of JSON whose numbers have texts that are read back;
* `Keeps` — what is written for a thing is storable, and is read as the thing.

Main results:

* `parse_jsonFileText` — the text of a file is read as the value that it was made of;
* `exists_jsonFileText_iff` — a value of JSON has such a text unless an integer is too long;
* `Keeps.text`, `Keeps.list`, … — what is kept by the basic rules.
-/

namespace IntegrationCompiler

/-! ## Storable values -/

/-- A number has a text that is read back: integers do unless they are too long. -/
def Scalar.Kept : Scalar → Prop
  | .int n => n.natAbs < 10 ^ Number.maxIntegerDigits
  | .float x => Json.ReadsBack x
  | _ => True

/-- A value of JSON whose numbers have texts that are read back. -/
structure Value.Storable (v : Value) : Prop where
  json : v.IsJson
  kept : ∀ s, Within (.scalar s) v → s.Kept

namespace Value

theorem storable_scalar {s : Scalar} (hJson : IsJson (.scalar s)) (hKept : s.Kept) :
    Storable (.scalar s) where
  json := hJson
  kept _ hWithin := by
    cases within_scalar_iff.mp hWithin
    exact hKept

@[simp] theorem storable_null : Storable .null :=
  storable_scalar .null trivial

@[simp] theorem storable_bool (b : Bool) : Storable (.bool b) :=
  storable_scalar (.bool b) trivial

theorem storable_int {n : Int} (h : n.natAbs < 10 ^ Number.maxIntegerDigits) : Storable (.int n) :=
  storable_scalar (.int n) h

/-- Integers of three digits are not too long. -/
@[simp] theorem storable_smallInt {n : Int} (h : n.natAbs < 10 ^ 3) : Storable (.int n) :=
  storable_int (Nat.lt_of_lt_of_le h (Nat.pow_le_pow_right (by decide) (by decide)))

@[simp] theorem storable_str (s : String) : Storable (.str s) :=
  storable_scalar (.str s) trivial

theorem storable_list_iff {items : List Value} :
    Storable (.list items) ↔ ∀ v ∈ items, v.Storable := by
  constructor
  · rintro ⟨hJson, hKept⟩ v hv
    cases hJson with
    | list hItems => exact ⟨hItems v hv, fun s hs => hKept s (.item hv hs)⟩
  · intro h
    refine ⟨.list fun v hv => (h v hv).json, fun s hs => ?_⟩
    rcases within_list_iff.mp hs with hEq | ⟨v, hv, hs⟩
    · cases hEq
    · exact (h v hv).kept s hs

theorem storable_map_iff {es : Entries} : Storable (.map es) ↔
    (∀ e ∈ es, ∃ name, e.1 = .str name) ∧ (es.map Prod.fst).Nodup ∧ ∀ e ∈ es, e.2.Storable := by
  constructor
  · rintro ⟨hJson, hKept⟩
    cases hJson with
    | map hKeys hDistinct hValues =>
      exact ⟨hKeys, hDistinct, fun e he =>
        ⟨hValues e he, fun s hs => hKept s (.entry (k := e.1) he hs)⟩⟩
  · rintro ⟨hKeys, hDistinct, hValues⟩
    refine ⟨.map hKeys hDistinct fun e he => (hValues e he).json, fun s hs => ?_⟩
    rcases within_map_iff.mp hs with hEq | ⟨e, he, hs⟩
    · cases hEq
    · exact (hValues e he).kept s hs

theorem storable_object {fields : List (String × Value)} (hDistinct : (fields.map Prod.fst).Nodup)
    (hValues : ∀ e ∈ fields, e.2.Storable) : Storable (.object fields) where
  json := isJson_object hDistinct fun e he => (hValues e he).json
  kept s hs := by
    rcases within_map_iff.mp hs with hEq | ⟨_, he, hs⟩
    · cases hEq
    · obtain ⟨e, hMem, rfl⟩ := List.mem_map.mp he
      exact (hValues e hMem).kept s hs

namespace Storable

/-- Whatever occurs in a storable value is storable. -/
theorem within {v w : Value} (h : v.Storable) (hWithin : Within w v) : w.Storable := by
  induction hWithin with
  | self => exact h
  | item hMem _ ih => exact ih (storable_list_iff.mp h _ hMem)
  | entry hMem _ ih => exact ih ((storable_map_iff.mp h).2.2 _ hMem)

variable {es : Entries}

theorem get? (h : Storable (.map es)) {name : String} {v : Value} (hv : es.get? name = some v) :
    v.Storable :=
  h.within (within_of_mem (Entries.get?_eq_some_mem hv))

/-- Entries may go. -/
theorem sublist (h : Storable (.map es)) {kept : Entries} (hKept : kept.Sublist es) :
    Storable (.map kept) := by
  obtain ⟨hKeys, hDistinct, hValues⟩ := storable_map_iff.mp h
  exact storable_map_iff.mpr ⟨fun e he => hKeys e (hKept.subset he),
    hDistinct.sublist (hKept.map Prod.fst), fun e he => hValues e (hKept.subset he)⟩

/-- Entries may be stored. -/
theorem set (h : Storable (.map es)) {v : Value} (hv : v.Storable) (name : String) :
    Storable (.map (es.set name v)) := by
  obtain ⟨hKeys, hDistinct, hValues⟩ := storable_map_iff.mp h
  have hFrom : ∀ e ∈ es.set name v, (∃ name, e.1 = .str name) ∧ e.2.Storable := by
    rintro ⟨k, w⟩ he
    rcases Entries.mem_put he with ⟨rfl, hKey⟩ | hOld
    · exact ⟨⟨name, hKey.elim id Scalar.same_str.mp⟩, hv⟩
    · exact ⟨hKeys _ hOld, hValues _ hOld⟩
  exact storable_map_iff.mpr ⟨fun e he => (hFrom e he).1, Entries.nodup_set hDistinct name v,
    fun e he => (hFrom e he).2⟩

end Storable

end Value

/-! ## Texts of files -/

section

variable {v : Value} {text : String}

theorem jsonFileText_eq_ok_iff (h : v.IsJson) :
    jsonFileText v = .ok text ↔ ∃ body, Json.render? .pretty v = some body ∧ text = body ++ "\n" := by
  simp only [jsonFileText, h.jsonForm?, orMalformed, bind, Except.bind, pure, Except.pure]
  cases Json.render? .pretty v with
  | none => exact ⟨nofun, nofun⟩
  | some body => simp [eq_comm]

/-- **A value of JSON has a file unless an integer in it is too long.** -/
theorem exists_jsonFileText_iff (h : v.IsJson) : (∃ text, jsonFileText v = .ok text) ↔
    ∀ n, Value.Within (.int n) v → n.natAbs < 10 ^ Number.maxIntegerDigits := by
  have hRendered : (Json.render? .pretty v).isSome ↔ _ := Json.render?_isSome_iff h
  rw [← hRendered, Option.isSome_iff_exists]
  simp only [jsonFileText_eq_ok_iff h]
  constructor
  · rintro ⟨_, body, hBody, -⟩
    exact ⟨body, hBody⟩
  · rintro ⟨body, hBody⟩
    exact ⟨_, body, hBody, rfl⟩

/-- A value of JSON with an integer that is too long has none. -/
theorem jsonFileText_of_long (hForm : v.jsonForm? = some v) {n : Int}
    (hWithin : Value.Within (.int n) v) (hLong : 10 ^ Number.maxIntegerDigits ≤ n.natAbs) :
    jsonFileText v = .error .malformed := by
  have hNone : Json.render? .pretty v = none := by
    refine Option.eq_none_iff_forall_ne_some.mpr fun text hText => ?_
    exact absurd (Json.natAbs_lt_of_renderAt? hWithin 0 text hText) (Nat.not_lt.mpr hLong)
  unfold jsonFileText
  rw [hForm]
  show (do
    let text ← orMalformed (Json.render? .pretty v)
    .ok (text ++ "\n")) = (.error .malformed : Except Failure String)
  rw [hNone]
  rfl

/-- **The text of a file is read as the value that it was made of**, and there is such a text. -/
theorem parse_jsonFileText (h : v.Storable) :
    ∃ text, jsonFileText v = .ok text ∧ Json.parse text = .ok v := by
  obtain ⟨text, hText⟩ := (exists_jsonFileText_iff h.json).mpr fun n hn => h.kept (.int n) hn
  obtain ⟨body, hBody, rfl⟩ := (jsonFileText_eq_ok_iff h.json).mp hText
  exact ⟨_, hText, Json.parse_render_append h.json (fun x hx => h.kept (.float x) hx) hBody
    (List.forall_mem_singleton.mpr (by decide))⟩

end

/-! ## What is kept by the basic rules -/

/-- Entries under texts are the fields of an object. -/
theorem Entries.exists_fields {es : Entries} (h : ∀ e ∈ es, ∃ name, e.1 = .str name) :
    ∃ fields : List (String × Value), es = fields.map fun (k, v) => (.str k, v) := by
  induction es with
  | nil => exact ⟨[], rfl⟩
  | cons e rest ih =>
    obtain ⟨k, v⟩ := e
    rw [List.forall_mem_cons] at h
    obtain ⟨name, rfl⟩ : ∃ name, k = .str name := h.1
    obtain ⟨fields, rfl⟩ := ih h.2
    exact ⟨(name, v) :: fields, rfl⟩

theorem Value.asEntries_fields (fields : List (String × Value)) :
    asEntries (.object fields) = .ok (fields.map fun (k, v) => (.str k, v)) := by
  have hAll : Checked.all ((fields.map fun field => (Scalar.str field.1, field.2)).map
      fun entry => checkEntry asAny entry.1 entry.2) = .ok fields := by
    induction fields with
    | nil => rfl
    | cons e rest ih =>
      rw [List.map_cons, List.map_cons, Checked.all, ih]
      rfl
  refine Checked.map_eq_ok.mpr ⟨fields, hAll, rfl⟩

/-- The value can be stored, and is read as `a`. -/
structure Keeps {α : Type} (read : Value → Checked α) (v : Value) (a : α) : Prop where
  storable : v.Storable
  reads : read v = .ok a

namespace Keeps

variable {α : Type} {read : Value → Checked α} {write : α → Value}

theorem text (s : String) : Keeps Value.asText (.str s) s :=
  ⟨Value.storable_str s, rfl⟩

theorem bool (b : Bool) : Keeps Value.asBool (.bool b) b :=
  ⟨Value.storable_bool b, rfl⟩

theorem int {n : Int} (h : n.natAbs < 10 ^ Number.maxIntegerDigits) :
    Keeps Value.asInt (.int n) n :=
  ⟨Value.storable_int h, rfl⟩

theorem oneOf {ofName? : String → Option α} {name : String} {a : α} (h : ofName? name = some a) :
    Keeps (Value.asOneOf ofName?) (.str name) a :=
  ⟨Value.storable_str name, by rw [Value.asOneOf, h]⟩

/-- A part that may be left out is kept if what is there is kept and is not null. -/
theorem optional (write : α → Value) {a : Option α} (hNull : ∀ b ∈ a, write b ≠ .null)
    (h : ∀ b ∈ a, Keeps read (write b) b) :
    Keeps (Value.asOptional read) (.optional write a) a := by
  cases a with
  | none => exact ⟨Value.storable_null, rfl⟩
  | some b =>
    have hb := h b rfl
    refine ⟨hb.storable, ?_⟩
    show Value.asOptional read (write b) = .ok (some b)
    unfold Value.asOptional
    split
    · next hEq => exact absurd hEq (hNull b rfl)
    · rw [hb.reads]
      rfl

theorem optionalText (s : Option String) :
    Keeps (Value.asOptional Value.asText) (.optionalText s) s := by
  cases s with
  | none => exact ⟨Value.storable_null, rfl⟩
  | some s => exact ⟨Value.storable_str s, rfl⟩

theorem checkItems_map {as : List α} (h : ∀ a ∈ as, read (write a) = .ok a) (i : Nat) :
    Value.checkItems read i (as.map write) = .ok as := by
  induction as generalizing i with
  | nil => rfl
  | cons a rest ih =>
    rw [List.forall_mem_cons] at h
    rw [List.map_cons, Value.checkItems, h.1, ih h.2]
    rfl

theorem list {as : List α} (h : ∀ a ∈ as, Keeps read (write a) a) :
    Keeps (Value.asList read) (.list (as.map write)) as where
  storable := Value.storable_list_iff.mpr (List.forall_mem_map.mpr fun a ha => (h a ha).storable)
  reads := checkItems_map (fun a ha => (h a ha).reads) 0

theorem texts (ss : List String) : Keeps (Value.asList Value.asText) (.texts ss) ss :=
  list fun s _ => text s

/-- A mapping with any storable values is read as it is. -/
theorem entries {es : Entries} (h : (Value.map es).Storable) :
    Keeps Value.asEntries (.map es) es := by
  refine ⟨h, ?_⟩
  obtain ⟨fields, rfl⟩ := Entries.exists_fields (Value.storable_map_iff.mp h).1
  exact Value.asEntries_fields fields

/-- A record is kept if all its fields are storable and are read. -/
theorem record {fields : List (String × Value)} {readFields : Entries → Checked α} {a : α}
    (hDistinct : (fields.map Prod.fst).Nodup) (hValues : ∀ e ∈ fields, e.2.Storable)
    (h : readFields (fields.map fun (k, v) => (.str k, v)) = .ok a) :
    Keeps (Value.asRecord readFields) (.object fields) a :=
  ⟨Value.storable_object hDistinct hValues, h⟩

end Keeps

end IntegrationCompiler
