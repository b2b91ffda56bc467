import IntegrationCompiler.Draft.Defaults
import IntegrationCompiler.Draft.Dropdowns
import IntegrationCompiler.Draft.Flattening
import IntegrationCompiler.Draft.HelperInputs
import IntegrationCompiler.Draft.Visibility

/-!
# Stages

The changes that the configuration makes to an action, one after another. Defaults come last, so
that they can be for any input, and dropdowns after the helpers, which may have some.

Main definitions:

* `Stage`, `Stage.apply` — one change;
* `ActionConfig.stages` — the changes that a configuration asks for, in their fixed order;
* `Draft.refine` — all of them.
-/

namespace IntegrationCompiler

/-- One change that a configuration makes. -/
inductive Stage where
  | visibility
  | flattening
  | helpers
  | dropdowns
  | defaults
  deriving DecidableEq, Repr

namespace Stage

/-- The part of the configuration that asks for a stage. -/
def name : Stage → String
  | .visibility => "hideRequestBodyProperties"
  | .flattening => "simplify.flattenArray"
  | .helpers => "helperFields"
  | .dropdowns => "dynamicFields"
  | .defaults => "fieldDefaults"

/-- Whether a configuration asks for a stage. The first one always takes place. -/
def isAsked (config : ActionConfig) : Stage → Bool
  | .visibility => true
  | .flattening => (config.simplified?.bind (·.flattenArray)).isSome
  | .helpers => !config.helperFields.isEmpty
  | .dropdowns => !config.dynamicFields.isEmpty
  | .defaults => !config.fieldDefaults.isEmpty

/-- Makes the change to a draft. -/
def apply (scope : Scope) : Stage → Draft → Logged Draft
  | .visibility, d => pure (d.hide scope)
  | .flattening, d =>
    match scope.config.simplified? with
    | some simplify =>
      match simplify.flattenArray with
      | some flatten => d.flatten scope flatten simplify.additionalProperties
      | none => pure d
    | none => pure d
  | .helpers, d => d.addHelpers scope
  | .dropdowns, d => d.bindDropdowns scope
  | .defaults, d => d.addDefaults scope

end Stage

/-- The stages that a configuration asks for, in their fixed order. -/
def ActionConfig.stages (config : ActionConfig) : List Stage :=
  [Stage.visibility, .flattening, .helpers, .dropdowns, .defaults].filter (Stage.isAsked config)

/-- Makes one change to a draft, with a remark. -/
def Draft.refineBy (scope : Scope) (d : Draft) (stage : Stage) : Logged Draft := do
  Logged.remark .debug ("Action " ++ inQuotes scope.key ++ ": applying " ++ stage.name)
  stage.apply scope d

/-- Makes all changes that the configuration asks for. -/
def Draft.refine (scope : Scope) (d : Draft) : Logged Draft :=
  scope.config.stages.foldlM (Draft.refineBy scope) d

end IntegrationCompiler
