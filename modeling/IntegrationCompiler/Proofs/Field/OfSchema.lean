import IntegrationCompiler.Field.OfSchema
import IntegrationCompiler.Proofs.Diagnostics.Checked
import IntegrationCompiler.Proofs.Diagnostics.Returns
import IntegrationCompiler.Proofs.Value.Tree

/-!
# The fields that schemas make

Whatever a schema says, its field has the key it was made for, holds a value itself, and has no
dropdown yet.

* `Field.Plain` — a field without children and without dropdown;
* `Field.ofSchema_ok` — the field for one schema;
* `Field.ofParameters_ok`, `Field.ofProperties_ok` — the fields for parameters and properties have
  their names, in their order.
-/

namespace IntegrationCompiler

theorem Entries.names_cons (k : Scalar) (v : Value) (rest : Entries) :
    Entries.names ((k, v) :: rest) = match k with
      | .str s => s :: Entries.names rest
      | _ => Entries.names rest := by
  cases k <;> rfl

theorem Entries.mem_names {es : Entries} {name : String} :
    name ∈ Entries.names es ↔ Entries.has es name = true := by
  rw [← Bool.not_eq_false, has_eq_false_iff, names, List.mem_filterMap]
  constructor
  · rintro ⟨⟨k, v⟩, hMem, hName⟩ hAbsent
    cases k with
    | str s =>
      cases hName
      exact hAbsent v hMem
    | _ => cases hName
  · intro h
    obtain ⟨v, hMem⟩ := not_forall_not.mp h
    exact ⟨(.str name, v), hMem, rfl⟩

namespace Field

/-- A field that holds a value itself and has no dropdown. -/
structure Plain (f : Field) : Prop where
  children_eq : f.children = []
  dynamic_eq : f.dynamic = none

theorem checked_eq_ok {f g : Field} (h : f.checked = .ok g) : g = f := by
  unfold checked at h
  split at h
  · cases h
  · exact (Checked.ok.inj h).symm

/-- What is read from a record that has neither children nor a dropdown. -/
theorem read_ok {es : Entries} {key : String} {f : Field} (hKey : es.get? "key" = some (.str key))
    (hChildren : es.get? "children" = none) (hDynamic : es.get? "dynamic" = none)
    (h : Field.read (.map es) = .ok f) : f.key = key ∧ f.Plain := by
  obtain ⟨g, hRead, hShape⟩ := Checked.andThen_eq_ok.mp h
  cases checked_eq_ok hShape
  -- the record is taken apart from its last field to its first
  obtain ⟨_, _, hPlaceholder, hLast, rfl⟩ := Checked.seq_eq_ok.mp hRead
  obtain ⟨_, _, hDefault, -, rfl⟩ := Checked.seq_eq_ok.mp hPlaceholder
  obtain ⟨_, _, hChoices, -, rfl⟩ := Checked.seq_eq_ok.mp hDefault
  obtain ⟨_, _, hRequired, -, rfl⟩ := Checked.seq_eq_ok.mp hChoices
  obtain ⟨_, _, hHelp, -, rfl⟩ := Checked.seq_eq_ok.mp hRequired
  obtain ⟨_, _, hFourth, -, rfl⟩ := Checked.seq_eq_ok.mp hHelp
  obtain ⟨_, _, hType, hMiddle, rfl⟩ := Checked.seq_eq_ok.mp hFourth
  obtain ⟨_, _, hLabel, -, rfl⟩ := Checked.seq_eq_ok.mp hType
  obtain ⟨_, _, hFirst, -, rfl⟩ := Checked.seq_eq_ok.mp hLabel
  obtain ⟨_, hName, rfl⟩ := Checked.map_eq_ok.mp hFirst
  cases Entries.need_eq_ok hKey hName
  exact ⟨rfl, Entries.want_absent hChildren hMiddle, Entries.want_absent hDynamic hLast⟩

/-- The field for a schema has the given key, no children and no dropdown. -/
theorem ofSchema_ok {schema description : Value} {key : String} {required : Bool} {f : Field}
    (h : ofSchema schema key required description = .ok f) : f.key = key ∧ f.Plain := by
  unfold ofSchema at h
  dsimp only at h
  split at h
  · exact read_ok rfl rfl rfl (ok_of_orFail h)
  · split at h
    · obtain ⟨form, -, h⟩ := ok_of_bind h
      obtain ⟨default, -, h⟩ := ok_of_bind h
      exact read_ok rfl rfl rfl (ok_of_orFail h)
    · cases h

/-! ## Fields for several schemas -/

/-- Fields without children and dropdowns that have the given names, in this order. -/
structure PlainNamed (names : List String) (fs : List Field) : Prop where
  keys_eq : fs.map (·.key) = names
  plain : ∀ f ∈ fs, f.Plain

namespace PlainNamed

theorem nil : PlainNamed [] [] := ⟨rfl, fun _ h => nomatch h⟩

theorem cons {name : String} {names : List String} {f : Field} {fs : List Field}
    (hKey : f.key = name) (hPlain : f.Plain) (h : PlainNamed names fs) :
    PlainNamed (name :: names) (f :: fs) where
  keys_eq := by rw [List.map_cons, hKey, h.keys_eq]
  plain := List.forall_mem_cons.mpr ⟨hPlain, h.plain⟩

theorem append {ns ms : List String} {fs gs : List Field} (hf : PlainNamed ns fs)
    (hg : PlainNamed ms gs) : PlainNamed (ns ++ ms) (fs ++ gs) where
  keys_eq := by rw [List.map_append, hf.keys_eq, hg.keys_eq]
  plain := List.forall_mem_append.mpr ⟨hf.plain, hg.plain⟩

theorem children_eq {names : List String} {fs : List Field} (h : PlainNamed names fs) :
    ∀ f ∈ fs, f.children = [] :=
  fun f hf => (h.plain f hf).children_eq

end PlainNamed

theorem ofParameters_ok {parameters : List Parameter} {exclude : List String} {fs : List Field}
    (h : ofParameters parameters exclude = .ok fs) :
    PlainNamed ((parameters.filter fun p => !exclude.contains p.name).map (·.name)) fs := by
  have hEach := ok_of_mapM h
  clear h
  generalize parameters.filter (fun p => !exclude.contains p.name) = ps at hEach
  induction hEach with
  | nil => exact .nil
  | cons hf _ ih =>
    obtain ⟨hKey, hPlain⟩ := ofSchema_ok hf
    exact .cons hKey hPlain ih

theorem any_eq_str (names : List String) (s : String) :
    (names.any fun name => Scalar.str s == .str name) = names.contains s := by
  rw [Bool.eq_iff_iff, List.any_eq_true, List.contains_iff_mem]
  constructor
  · rintro ⟨name, hMem, hSame⟩
    cases eq_of_beq hSame
    exact hMem
  · exact fun hMem => ⟨s, hMem, beq_self_eq_true _⟩

theorem ofProperties_ok {schema : Value} {exclude : List String} {fs : List Field}
    (h : ofProperties schema exclude = .ok fs) :
    PlainNamed ((Entries.names (Schema.properties schema)).filter fun n => !exclude.contains n)
      fs := by
  obtain ⟨required, -, hFields⟩ := ok_of_bind h
  have hEach := ok_of_mapM hFields
  clear h hFields
  generalize Schema.properties schema = es at hEach ⊢
  induction es generalizing fs with
  | nil =>
    cases hEach
    exact .nil
  | cons e rest ih =>
    obtain ⟨k, v⟩ := e
    rw [List.filter_cons] at hEach
    rw [Entries.names_cons]
    dsimp only at hEach ⊢
    cases k with
    | str s =>
      dsimp only
      rw [List.filter_cons, ← any_eq_str]
      split at hEach
      · next hKept =>
        obtain ⟨f, fs', hf, hRest, rfl⟩ := List.forall₂_cons_left_iff.mp hEach
        obtain ⟨hKey, hPlain⟩ := ofSchema_ok hf
        rw [if_pos hKept]
        exact .cons hKey hPlain (ih hRest)
      · next hExcluded =>
        rw [if_neg hExcluded]
        exact ih hEach
    | _ =>
      -- only a text can name a field
      split at hEach
      · obtain ⟨f, fs', hf, -, rfl⟩ := List.forall₂_cons_left_iff.mp hEach
        cases hf
      · exact ih hEach

end Field

end IntegrationCompiler
