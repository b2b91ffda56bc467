import IntegrationCompiler.Diagnostics.Failure

/-!
# Checks that succeed

What is known of the parts when a check of the whole has succeeded.

* `Checked.seq_eq_ok`, `Checked.map_eq_ok`, `Checked.under_eq_ok` — the ways in which checks are put
  together;
* `Value.asEntries_eq_ok` — a mapping with text keys is read as it is;
* `Entries.want_eq_ok`, `Entries.need_eq_ok` — a record field that is there is the one that was
  checked; `Entries.want_absent` — one that is not there has its default;
* `Entries.want_ok`, `Entries.need_ok` — and conversely, a field that is there and right is read.
-/

namespace IntegrationCompiler

namespace Checked

variable {α β : Type}

theorem seq_eq_ok {f : Checked (α → β)} {c : Checked α} {b : β} :
    f <*> c = .ok b ↔ ∃ g a, f = .ok g ∧ c = .ok a ∧ g a = b := by
  constructor
  · intro h
    cases f with
    | ok g =>
      cases c with
      | ok a => exact ⟨g, a, rfl, rfl, Checked.ok.inj h⟩
      | bad issues => exact nomatch (h : Checked.bad issues = .ok b)
    | bad issues =>
      cases c with
      | ok a => exact nomatch (h : Checked.bad issues = .ok b)
      | bad more => exact nomatch (h : Checked.bad (issues ++ more) = .ok b)
  · rintro ⟨g, a, rfl, rfl, rfl⟩
    rfl

theorem map_eq_ok {f : α → β} {c : Checked α} {b : β} :
    f <$> c = .ok b ↔ ∃ a, c = .ok a ∧ f a = b := by
  have hMap : f <$> c = (pure f : Checked (α → β)) <*> c := rfl
  rw [hMap, seq_eq_ok]
  constructor
  · rintro ⟨g, a, hg, hc, rfl⟩
    cases hg
    exact ⟨a, hc, rfl⟩
  · rintro ⟨a, hc, rfl⟩
    exact ⟨f, a, rfl, hc, rfl⟩

theorem seq_ok {f : Checked (α → β)} {c : Checked α} {g : α → β} {a : α} (hf : f = .ok g)
    (hc : c = .ok a) : f <*> c = .ok (g a) :=
  seq_eq_ok.mpr ⟨g, a, hf, hc, rfl⟩

theorem map_ok {f : α → β} {c : Checked α} {a : α} (hc : c = .ok a) : f <$> c = .ok (f a) :=
  map_eq_ok.mpr ⟨a, hc, rfl⟩

theorem under_eq_ok {step : Step} {c : Checked α} {a : α} :
    c.under step = .ok a ↔ c = .ok a := by
  cases c with
  | ok b => exact Iff.rfl
  | bad issues => exact ⟨nofun, nofun⟩

theorem andThen_eq_ok {c : Checked α} {f : α → Checked β} {b : β} :
    c.andThen f = .ok b ↔ ∃ a, c = .ok a ∧ f a = .ok b := by
  cases c with
  | ok a => exact ⟨fun h => ⟨a, rfl, h⟩, fun ⟨_, ha, h⟩ => Checked.ok.inj ha ▸ h⟩
  | bad issues => exact ⟨nofun, nofun⟩

end Checked

namespace Value

/-- The fields of a mapping that was read are its entries. -/
theorem all_checkEntry {entries : Entries} {fields : List (String × Value)}
    (h : Checked.all (entries.map fun (k, v) => checkEntry asAny k v) = .ok fields) :
    fields.map (fun (k, v) => (Scalar.str k, v)) = entries := by
  induction entries generalizing fields with
  | nil =>
    cases h
    rfl
  | cons e rest ih =>
    obtain ⟨k, v⟩ := e
    rw [List.map_cons, Checked.all, Checked.seq_eq_ok] at h
    obtain ⟨g, fields', hg, hRest, rfl⟩ := h
    obtain ⟨⟨name, w⟩, hEntry, rfl⟩ := Checked.map_eq_ok.mp hg
    unfold checkEntry at hEntry
    obtain ⟨g', w', hg', hw, hPair⟩ := Checked.seq_eq_ok.mp hEntry
    obtain ⟨name', hName, rfl⟩ := Checked.map_eq_ok.mp hg'
    cases hPair
    cases hw
    have hk : k = .str name := by
      cases k with
      | str s =>
        cases hName
        rfl
      | _ => cases hName
    rw [List.map_cons, ih hRest, hk]

theorem asText_eq_ok {v : Value} {s : String} (h : asText v = .ok s) : v = .str s := by
  unfold asText at h
  split at h
  · cases h
    rfl
  · cases h

theorem asEntries_eq_ok {v : Value} {es : Entries} (h : asEntries v = .ok es) : v = .map es := by
  cases v with
  | map entries =>
    obtain ⟨fields, hFields, rfl⟩ := Checked.map_eq_ok.mp h
    exact congrArg Value.map (all_checkEntry hFields).symm
  | _ => cases h

theorem asOptional_asEntries_eq_ok {v : Value} {found : Option Entries}
    (h : asOptional asEntries v = .ok found) : v = .null ∧ found = none ∨
      ∃ es, v = .map es ∧ found = some es := by
  unfold asOptional at h
  split at h
  · cases h
    exact Or.inl ⟨rfl, rfl⟩
  · obtain ⟨es, hes, rfl⟩ := Checked.map_eq_ok.mp h
    exact Or.inr ⟨es, asEntries_eq_ok hes, rfl⟩

end Value

namespace Entries

theorem want_eq_ok {α : Type} {es : Entries} {names : List String} {name : String} {v : Value}
    {read : Value → Checked α} {default a : α} (hField : es.field? names = some (name, v))
    (h : es.want names read default = .ok a) : read v = .ok a := by
  rw [want, hField] at h
  exact Checked.under_eq_ok.mp h

theorem field?_singleton (es : Entries) (name : String) :
    es.field? [name] = (es.get? name).map (name, ·) := by
  rw [field?, List.findSome?_cons]
  cases es.get? name <;> rfl

theorem need_eq_ok {α : Type} {es : Entries} {name : String} {v : Value} {read : Value → Checked α}
    {a : α} (hField : es.get? name = some v) (h : es.need [name] read = .ok a) :
    read v = .ok a := by
  rw [need, field?_singleton, hField] at h
  exact Checked.under_eq_ok.mp h

theorem need_ok {α : Type} {es : Entries} {name : String} {v : Value} {read : Value → Checked α}
    {a : α} (hField : es.get? name = some v) (h : read v = .ok a) : es.need [name] read = .ok a := by
  rw [need, field?_singleton, hField]
  exact Checked.under_eq_ok.mpr h

theorem want_ok {α : Type} {es : Entries} {name : String} {v : Value} {read : Value → Checked α}
    {default a : α} (hField : es.get? name = some v) (h : read v = .ok a) :
    es.want [name] read default = .ok a := by
  rw [want, field?_singleton, hField]
  exact Checked.under_eq_ok.mpr h

theorem want_absent {α : Type} {es : Entries} {name : String} {read : Value → Checked α}
    {default a : α} (hField : es.get? name = none) (h : es.want [name] read default = .ok a) :
    a = default := by
  rw [want, field?_singleton, hField] at h
  exact (Checked.ok.inj h).symm

end Entries

end IntegrationCompiler
