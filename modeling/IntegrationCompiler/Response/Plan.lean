import IntegrationCompiler.Config.Basic

/-!
# Response plans

What becomes of an answer, as data: what an action returns, which items a trigger yields, how they
are paged through, labelled and filtered.

Main definitions: `ResponsePlan`, `ArrayExtraction`, `PaginationPlan`, `LabelPlan`, `FilterPlan`.
Each has a `read`, which checks a value, and a `toValue`, which writes it.
-/

namespace IntegrationCompiler

/-- What becomes of an action's answer. -/
inductive ResponseKind where
  | noContent
  | passthrough
  | wrapArray
  | extractSingle
  | bestEffort
  deriving DecidableEq, Repr

namespace ResponseKind

/-- All kinds. -/
def all : List ResponseKind :=
  [.noContent, .passthrough, .wrapArray, .extractSingle, .bestEffort]

/-- The name of a kind. -/
def name : ResponseKind → String
  | .noContent => "no_content"
  | .passthrough => "passthrough"
  | .wrapArray => "wrap_array"
  | .extractSingle => "extract_single"
  | .bestEffort => "best_effort"

/-- The kind with the given name. -/
def ofName? (s : String) : Option ResponseKind :=
  all.find? (·.name == s)

end ResponseKind

/-- How an action's answer becomes the object that it returns. -/
structure ResponsePlan where
  kind : ResponseKind
  /-- The key under which a list is put. -/
  key : Option String := none
  arrayProperty : Option String := none
  deriving DecidableEq, Repr

namespace ResponsePlan

/-- Checks a response plan. -/
def read : Value → Checked ResponsePlan := Value.asRecord fun es =>
  ResponsePlan.mk
    <$> es.need ["kind"] (Value.asOneOf ResponseKind.ofName?)
    <*> es.want ["key"] (Value.asOptional Value.asText) none
    <*> es.want ["array_property"] (Value.asOptional Value.asText) none

/-- Writes a response plan. -/
def toValue (p : ResponsePlan) : Value := .object [
  ("kind", .str p.kind.name), ("key", .optionalText p.key),
  ("array_property", .optionalText p.arrayProperty)]

end ResponsePlan

/-- Where the items of an answer are. -/
inductive ExtractionKind where
  | property
  | direct
  | wrapSingle
  | bestEffort
  deriving DecidableEq, Repr

namespace ExtractionKind

/-- All kinds. -/
def all : List ExtractionKind := [.property, .direct, .wrapSingle, .bestEffort]

/-- The name of a kind. -/
def name : ExtractionKind → String
  | .property => "property"
  | .direct => "direct"
  | .wrapSingle => "wrap_single"
  | .bestEffort => "best_effort"

/-- The kind with the given name. -/
def ofName? (s : String) : Option ExtractionKind :=
  all.find? (·.name == s)

end ExtractionKind

/-- How a trigger's answer becomes a list of items. -/
structure ArrayExtraction where
  kind : ExtractionKind
  property : Option String := none
  deriving DecidableEq, Repr

namespace ArrayExtraction

/-- Checks an extraction. -/
def read : Value → Checked ArrayExtraction := Value.asRecord fun es =>
  ArrayExtraction.mk
    <$> es.need ["kind"] (Value.asOneOf ExtractionKind.ofName?)
    <*> es.want ["property"] (Value.asOptional Value.asText) none

/-- Writes an extraction. -/
def toValue (e : ArrayExtraction) : Value := .object [
  ("kind", .str e.kind.name), ("property", .optionalText e.property)]

end ArrayExtraction

/-- Paging by offset and limit, as long as a flag says that there is more. -/
structure PaginationPlan where
  limitParam : String := "limit"
  offsetParam : String := "offset"
  hasMoreProperty : String := "has_more"
  pageSize : Int := 100
  extraction : ArrayExtraction
  deriving DecidableEq, Repr

namespace PaginationPlan

/-- Checks a paging plan. -/
def read : Value → Checked PaginationPlan := Value.asRecord fun es =>
  PaginationPlan.mk
    <$> es.want ["limit_param"] Value.asText "limit"
    <*> es.want ["offset_param"] Value.asText "offset"
    <*> es.want ["has_more_property"] Value.asText "has_more"
    <*> es.want ["page_size"] Value.asInt 100
    <*> es.need ["extraction"] ArrayExtraction.read

/-- Writes a paging plan. -/
def toValue (p : PaginationPlan) : Value := .object [
  ("limit_param", .str p.limitParam), ("offset_param", .str p.offsetParam),
  ("has_more_property", .str p.hasMoreProperty), ("page_size", .int p.pageSize),
  ("extraction", p.extraction.toValue)]

end PaginationPlan

/-- How the items of a dropdown are labelled. -/
structure LabelPlan where
  template : String
  fallback : Option String := none
  deriving DecidableEq, Repr

namespace LabelPlan

/-- Checks a label plan. -/
def read : Value → Checked LabelPlan := Value.asRecord fun es =>
  LabelPlan.mk
    <$> es.need ["template"] Value.asText
    <*> es.want ["fallback"] (Value.asOptional Value.asText) none

/-- Writes a label plan. -/
def toValue (p : LabelPlan) : Value := .object [
  ("template", .str p.template), ("fallback", .optionalText p.fallback)]

end LabelPlan

/-- Which items a trigger keeps. -/
structure FilterPlan where
  equals : Entries := []
  /-- An expression that is handed on as it is. -/
  expression : Option String := none
  deriving Repr

namespace FilterPlan

/-- Checks a filter plan. -/
def read : Value → Checked FilterPlan := Value.asRecord fun es =>
  FilterPlan.mk
    <$> es.want ["equals"] Value.asEntries []
    <*> es.want ["expression"] (Value.asOptional Value.asText) none

/-- Writes a filter plan. -/
def toValue (p : FilterPlan) : Value := .object [
  ("equals", .map p.equals), ("expression", .optionalText p.expression)]

end FilterPlan

end IntegrationCompiler
