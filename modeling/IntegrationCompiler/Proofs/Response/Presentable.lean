import IntegrationCompiler.Proofs.Request.Placed
import IntegrationCompiler.Proofs.Response.Samples

/-!
# Samples that can be shown

Whatever a payload holds, the sample made of it has something to show, and none of its keys names a
credential. The sample of a trigger has an `id` as well.

* `NamesCredential` — what a key must not be; `isSensitive_iff` — the test that samples pass;
* `Presentable` — what a sample has to be;
* `actionSample_presentable`, `triggerSample_presentable` — both normal forms reach it, from any
  payload.
-/

namespace IntegrationCompiler

open Logged

/-! ## Keys of credentials -/

/-- The characters of a key without those that only separate: low lines, hyphens and blanks. -/
def withoutSeparators (key : String) : List Char :=
  key.toList.filter fun c => c ≠ '_' ∧ c ≠ '-' ∧ Text.isBlank c = false

/-- A key names a credential if, without its separators and in whatever case, it is one of a few
names. -/
def NamesCredential (key : String) : Prop :=
  ∃ name ∈ ["password", "passwd", "pwd", "secret", "token", "apikey"],
    Text.lower (withoutSeparators key) = Text.lower name.toList

theorem isSensitive_iff (key : String) : isSensitive key = true ↔ NamesCredential key := by
  have hBare : (key.toList.filter fun c => !(c == '_' || c == '-' || Text.isBlank c)) =
      withoutSeparators key := by
    refine List.filter_congr fun c _ => Bool.eq_iff_iff.mpr ?_
    simp [and_assoc]
  -- the names are in lower case already
  have hLower : ∀ name ∈ sensitiveNames, String.ofList (Text.lower name.toList) = name := by
    decide
  unfold isSensitive
  dsimp only
  rw [hBare, List.contains_iff_mem]
  constructor
  · intro hMem
    refine ⟨_, hMem, ?_⟩
    have hName := hLower _ hMem
    rw [← String.ofList_inj, hName]
  · rintro ⟨name, hMem, hSame⟩
    rw [hSame, hLower name hMem]
    exact hMem

/-! ## Presentable samples -/

/-- All keys are texts that name no credentials. -/
def WithoutCredentials (sample : Entries) : Prop :=
  ∀ e ∈ sample, ∃ key, e.1 = .str key ∧ ¬ NamesCredential key

/-- A sample that can be shown: there is something in it, and no key names a credential. -/
structure Presentable (sample : Entries) : Prop where
  nonempty : sample ≠ []
  keys : WithoutCredentials sample

theorem withoutSensitive_keys {sample kept : Entries} (h : withoutSensitive sample = .ok kept) :
    WithoutCredentials kept := by
  rintro ⟨k, v⟩ hMem
  rw [filter_of_filterM h, List.mem_filter] at hMem
  have hPassed := hMem.2
  -- a key that passed the test is a text
  cases k with
  | str key =>
    refine ⟨key, rfl, fun hNames => ?_⟩
    dsimp only at hPassed
    rw [(isSensitive_iff key).mpr hNames] at hPassed
    cases hPassed
  | _ => cases hPassed

theorem not_namesCredential_id : ¬ NamesCredential "id" := by
  rw [← isSensitive_iff]
  decide

theorem orEmptySample_presentable {kept : Entries} (h : WithoutCredentials kept) :
    Presentable (orEmptySample kept) := by
  unfold orEmptySample
  split
  · exact ⟨nofun, List.forall_mem_singleton.mpr ⟨"id", rfl, not_namesCredential_id⟩⟩
  · next hSome => exact ⟨fun hNone => hSome (List.isEmpty_iff.mpr hNone), h⟩

/-- With an `id` a sample still has its entries, and one more or none. -/
theorem withId_presentable {sample : Entries} (h : Presentable sample) :
    Presentable (withId sample) ∧ Entries.has (withId sample) "id" = true := by
  unfold withId
  split
  · next hHas => exact ⟨h, hHas⟩
  · dsimp only
    generalize (idAliases.findSome? fun name => Entries.get? sample name).getD (.int 0) = v
    have hThere : Entries.get? (sample.set "id" v) "id" = some v := by
      rw [Entries.get?_set, if_pos rfl]
    refine ⟨⟨fun hNone => ?_, ?_⟩, ?_⟩
    · rw [hNone] at hThere
      cases hThere
    · rintro ⟨k, w⟩ he
      rcases Entries.key_of_mem_put he with hKey | ⟨old, hOld⟩
      · exact ⟨"id", hKey, not_namesCredential_id⟩
      · exact h.keys (k, old) hOld
    · rw [Entries.has, hThere]
      rfl

/-! ## Samples of operations -/

/-- **The sample of an action can be shown**, whatever payload it is made of. -/
theorem actionSample_presentable {raw : Value} {sample : Entries}
    (h : actionSample raw = .ok sample) : Presentable sample := by
  obtain ⟨kept, hKept, h⟩ := ok_of_bind h
  cases h
  exact orEmptySample_presentable (withoutSensitive_keys hKept)

/-- **The sample of a trigger can be shown and has an `id`**, whatever payload it is made of. -/
theorem triggerSample_presentable {raw : Value} {sample : Entries}
    (h : triggerSample raw = .ok sample) :
    Presentable sample ∧ Entries.has sample "id" = true := by
  obtain ⟨kept, hKept, h⟩ := ok_of_bind h
  cases h
  exact withId_presentable (orEmptySample_presentable (withoutSensitive_keys hKept))

end IntegrationCompiler
