import IntegrationCompiler.Draft.Stage
import IntegrationCompiler.Proofs.Diagnostics.Agreement

/-!
# Stages do not depend on the log

Every stage remarks on what it does, and none looks at what was remarked before. So what the stages
make of a draft is the same whatever was compiled earlier: `Draft.refine_steady`, with one lemma for
every step.
-/

namespace IntegrationCompiler

open Logged

variable (scope : Scope)

theorem Scope.fail_steady {α : Type} (fault : GenerationFault) :
    (scope.fail fault : Logged α).Steady :=
  .throw _

theorem Scope.warn_steady (text : String) : (scope.warn text).Steady :=
  .remark _ _

theorem Scope.bind_steady (key : String) (dropdown : DropdownConfig) :
    (scope.bind key dropdown).Steady := by
  unfold bind
  split
  · exact .pure _
  · exact (scope.warn_steady _).bind fun _ => .pure _

namespace Draft

/-! ## Flattening -/

theorem keptProperties_steady (names : List String) : (keptProperties scope names).Steady := by
  unfold keptProperties
  dsimp only
  split
  · exact .pure _
  · split
    · exact scope.fail_steady _
    · split
      · exact .pure _
      · exact scope.fail_steady _

theorem flatten_steady (config : FlattenConfig) (additional : List String) (d : Draft) :
    (d.flatten scope config additional).Steady := by
  unfold flatten
  dsimp only
  split
  · exact scope.fail_steady _
  · exact (keptProperties_steady scope additional).bind fun kept =>
      (Steady.liftExcept _).bind fun itemFields =>
      (Steady.orFail _).bind fun placed =>
      (Steady.liftExcept _).bind fun required =>
      (Steady.liftExcept _).bind fun fields => .pure _

/-! ## Helpers -/

theorem helperField_steady (key : String) (helper : HelperConfig) :
    (helperField scope key helper).Steady := by
  unfold helperField
  dsimp only
  split
  · refine (Steady.pure _).bind fun type => ?_
    split
    · exact (scope.bind_steady _ _).bind fun binding => .orFail _
    · exact (Steady.pure _).bind fun binding => .orFail _
  · exact .throw_bind _ _

theorem addMerge_steady (site : Option ItemSite) (nested : Bool) (key : String)
    (helper : HelperConfig) (merges : List MergePlan) :
    (addMerge scope site nested key helper merges).Steady := by
  unfold addMerge
  dsimp only
  split
  · exact .pure _
  · split
    · exact (scope.warn_steady _).bind fun _ => .pure _
    · exact .pure _

theorem attachHelper_steady (site : Option ItemSite) (a : Attachment)
    (named : String × HelperConfig) : (attachHelper scope site a named).Steady := by
  obtain ⟨key, helper⟩ := named
  unfold attachHelper
  dsimp only
  -- in a group and beside the inputs
  split
  · split
    · exact (scope.warn_steady _).bind fun _ => .pure _
    · exact (helperField_steady scope key helper).bind fun field => (Steady.orFail _).bind
        fun fields => (addMerge_steady scope site _ key helper _).bind fun merges => .pure _
  · split
    · exact (scope.warn_steady _).bind fun _ => .pure _
    · exact (helperField_steady scope key helper).bind fun field => (Steady.pure _).bind
        fun fields => (addMerge_steady scope site _ key helper _).bind fun merges => .pure _

theorem addHelpers_steady (d : Draft) : (d.addHelpers scope).Steady := by
  unfold addHelpers
  exact (Steady.foldlM (attachHelper_steady scope _) _ _).bind fun a => .pure _

/-! ## Dropdowns and defaults -/

theorem bindings_steady (fields : List Field) : (bindings scope fields).Steady := by
  refine Steady.filterMapM (fun f => ?_) _
  split
  · exact .pure _
  · exact (scope.bind_steady _ _).bind fun found => .pure _

theorem bindDropdowns_steady (d : Draft) : (d.bindDropdowns scope).Steady := by
  unfold bindDropdowns
  exact (bindings_steady scope _).bind fun bound =>
    (Steady.forIn (fun key _ => (scope.warn_steady _).bind fun _ => .pure _) _ _).bind fun _ =>
    .pure _

theorem setDefault_steady (d : Draft) (key : String) (v : Value) :
    (setDefault scope d key v).Steady := by
  unfold setDefault
  split
  · exact .pure _
  · dsimp only
    split
    · split
      · exact (Steady.pure _).bind fun default => (Steady.orFail _).bind fun _ => .pure _
      · exact (Steady.map (.liftExcept _)).bind fun default =>
          (Steady.orFail _).bind fun _ => .pure _
    · -- null and any other default
      split
      all_goals
        split
        · exact .pure _
        · exact (Steady.remark _ _).bind fun _ => .pure _

theorem addDefaults_steady (d : Draft) : (d.addDefaults scope).Steady := by
  unfold addDefaults
  dsimp only
  split
  · exact .foldlM (fun d entry => setDefault_steady scope d _ _) _ _
  · exact scope.fail_steady _

end Draft

/-! ## All stages -/

theorem Stage.apply_steady (stage : Stage) (d : Draft) : (stage.apply scope d).Steady := by
  cases stage with
  | visibility => exact .pure _
  | flattening =>
    dsimp only [apply]
    split
    · split
      · exact Draft.flatten_steady scope _ _ d
      · exact .pure _
    · exact .pure _
  | helpers => exact Draft.addHelpers_steady scope d
  | dropdowns => exact Draft.bindDropdowns_steady scope d
  | defaults => exact Draft.addDefaults_steady scope d

theorem Draft.refine_steady (d : Draft) : (d.refine scope).Steady :=
  .foldlM (fun d stage => (Steady.remark _ _).bind fun _ => stage.apply_steady scope d) _ _

end IntegrationCompiler
