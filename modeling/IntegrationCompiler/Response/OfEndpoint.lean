import IntegrationCompiler.Diagnostics.Failure
import IntegrationCompiler.Naming.Noun
import IntegrationCompiler.Request.Reading
import IntegrationCompiler.Response.Plan
import IntegrationCompiler.Schema.Basic

/-!
# Response plans of endpoints

Main definitions: `Endpoint.successResponse?`, `Schema.arrayProperty?`, `ResponsePlan.ofEndpoint`,
`ArrayExtraction.ofEndpoint`, `PaginationPlan.ofEndpoint?`.
-/

namespace IntegrationCompiler

namespace Endpoint

/-- The response to success: that for 200, or else that for 201. -/
def successResponse? (e : Endpoint) : Option Response :=
  (e.responses.lookup "200").or (e.responses.lookup "201")

/-- The schema of the response to success. -/
def successSchema? (e : Endpoint) : Option Entries :=
  e.successResponse?.bind (·.schema)

/-- Whether success never has content. -/
def isNoContent (e : Endpoint) : Bool :=
  (e.responses.lookup "204").isSome && e.successResponse?.isNone

/-- Method and path. -/
def title (e : Endpoint) : String :=
  e.method.name ++ " " ++ e.path

end Endpoint

/-- The names by which lists usually go. -/
def usualListNames : List String :=
  ["transactions", "items", "data", "results", "records", "list"]

/-- The property of a schema that holds the list: the first one of type array, or else one with a
usual name. -/
def Schema.arrayProperty? (schema : Value) : Option Scalar :=
  if hasType schema "array" then none
  else
    let fields := properties schema
    let byType := (List.find? (fun (_, p) => hasType p "array") fields).map (·.1)
    let byName := (usualListNames.find? fun name => Entries.has fields name).map Scalar.str
    byType.or byName

/-- A key as the name of a property, unless it is empty or not there. -/
def nameOfKey? (field : String) (key : Option Scalar) : Except Failure (Option String) :=
  match key.filter fun k => (Value.scalar k).truthy with
  | none => .ok none
  | some k => do
    let name ← ((Value.scalar k).asText.under (.key field)).orFail
    .ok (some name)

/-- What becomes of an action's answer. -/
def ResponsePlan.ofEndpoint (e : Endpoint) (noun : String) (simplify : Option SimplifyConfig) :
    Logged ResponsePlan :=
  if e.isNoContent then pure { kind := .noContent }
  else
    match e.successSchema? with
    | none => do
      Logged.remark .debug
        ("No success schema for " ++ e.title ++ "; shaping response best effort")
      pure { kind := .bestEffort, key := some "data" }
    | some es =>
      let schema := Value.map es
      if Schema.hasType schema "array" then
        pure { kind := .wrapArray, key := some (String.ofList (Text.lower (pluralize noun).toList)) }
      else
        match simplify.bind (·.responseExtraction) with
        | some unwrap =>
          let detected := (Schema.arrayProperty? schema).filter fun k => (Value.scalar k).truthy
          if unwrap.extractSingle && detected.isSome then do
            let name ← match unwrap.arrayProperty.filter (!·.isEmpty) with
              | some name => pure (some name)
              | none => liftExcept (nameOfKey? "array_property" detected)
            pure { kind := .extractSingle, arrayProperty := name }
          else pure { kind := .passthrough }
        | none => pure { kind := .passthrough }

/-- Where a trigger finds its items. A configured property wins over what the schema shows. -/
def ArrayExtraction.ofEndpoint (e : Endpoint) (arrayProperty : Option String) :
    Except Failure ArrayExtraction :=
  match arrayProperty.filter (!·.isEmpty), e.successSchema? with
  | some name, _ => .ok { kind := .property, property := some name }
  | none, none => .ok { kind := .bestEffort }
  | none, some es => do
    let schema := Value.map es
    match ← nameOfKey? "property" (Schema.arrayProperty? schema) with
    | some name => .ok { kind := .property, property := some name }
    | none =>
      if Schema.hasType schema "array" then .ok { kind := .direct }
      else .ok { kind := .wrapSingle }

/-- The size of a page where none is configured. -/
def usualPageSize : Int := 100

/-- The size of a page from a configured value: the integer part of a positive number. -/
def pageSizeOf (configured : Value) : Except Failure Int :=
  match toNumber? configured with
  | none => .ok usualPageSize
  | some n =>
    if n.atMostZero then .ok usualPageSize
    else
      match n with
      | .int i => .ok i
      | .float x => orMalformed x.truncate?

/-- How a trigger pages: only where the endpoint takes limit and offset, and its answer is a list
in a property or says whether there is more. Hidden triggers never page. -/
def PaginationPlan.ofEndpoint? (e : Endpoint) (extraction : ArrayExtraction) (hidden : Bool)
    (fixed : Entries) : Logged (Option PaginationPlan) :=
  let takes (name : String) : Bool := e.queryParameters.any (·.name == name)
  let saysMore := Entries.has (Schema.properties (.optionalEntries e.successSchema?)) "has_more"
  if hidden || !takes "limit" || !takes "offset" || !(saysMore || extraction.kind == .property) then
    pure none
  else do
    let size ← liftExcept (pageSizeOf (Entries.getOrNull fixed "limit"))
    Logged.remark .debug ("Paginating " ++ e.title ++ " with page size " ++ intText size)
    pure (some { pageSize := size, extraction := extraction })

end IntegrationCompiler
