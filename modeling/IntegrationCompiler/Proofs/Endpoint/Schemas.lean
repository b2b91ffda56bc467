import IntegrationCompiler.Proofs.Endpoint.Places

/-!
# The schemas of a read document

Every schema that an endpoint or a document carries was resolved by the one resolver that reads the
document, and so no reference and no composition is left in it.

* `Endpoint.schemas`, `ApiDocument.resolvedSchemas` — the schemas that are carried;
* `Extract.document_orderly` — reading a document makes orderly schemas only;
* `schemas_fully_resolved` — no schema position of a resolved schema, and so of a schema of a read
  document, has a key of a reference or of a composition.
-/

namespace IntegrationCompiler

open Resolving Value Resolver

/-- Neither a reference nor a composition stands at a schema position. -/
def Value.FullyResolved (v : Value) : Prop :=
  ∀ es, Position (.map es) v → Direct es

/-- The resolved schemas of an endpoint: of its parameters, its body and its responses. -/
def Endpoint.schemas (e : Endpoint) : List Entries :=
  e.parameters.filterMap (·.schema) ++ e.bodySchema.toList ++ e.responses.filterMap (·.2.schema)

/-- The resolved schemas of a document: of its endpoints, and the named ones. -/
def ApiDocument.resolvedSchemas (d : ApiDocument) : List Value :=
  (d.endpoints.flatMap Endpoint.schemas).map .map ++ d.schemas.map Prod.snd

namespace Extract

/-- A document that keeps mappings under `properties` does so at all its places. -/
theorem Place.objectProperties {raw : Entries} (hRaw : ObjectProperties (.map raw)) {kind : Kind}
    {v : Value} (hPlace : Place raw kind v) : ObjectProperties v :=
  hPlace.everywhere (fun ref => objectProperties_ofRef ref _ (.self _)) hRaw

theorem reading_orderly {raw : Entries} (hRaw : ObjectProperties (.map raw)) :
    Reading raw RemembersOrderly Orderly fun _ => True where
  logFree := remembersOrderly_logFree
  noSchema := null_orderly
  schema := fun _ hPlace => resolve_orderly hRaw (hPlace.objectProperties hRaw)
  noPayload := trivial
  payload := fun _ _ => trivial
  boxed := fun _ _ => trivial

theorem orderly_of_mem_schemas {e : Endpoint} {E : Value → Prop} (h : e.Carries Orderly E)
    {es : Entries} (hMem : es ∈ e.schemas) : Orderly (.map es) := by
  rcases List.mem_append.mp hMem with hMem | hMem
  · rcases List.mem_append.mp hMem with hMem | hMem
    · -- of a parameter
      obtain ⟨p, hp, hSchema⟩ := List.mem_filterMap.mp hMem
      have hOrderly := h.parameters p hp
      rw [hSchema] at hOrderly
      exact hOrderly
    · -- of the body
      obtain ⟨b, hb, hSchema⟩ := Option.bind_eq_some_iff.mp (Option.mem_toList.mp hMem)
      have hOrderly := h.body b hb
      rw [hSchema] at hOrderly
      exact hOrderly
  · -- of a response
    obtain ⟨r, hr, hSchema⟩ := List.mem_filterMap.mp hMem
    have hOrderly := h.responses r hr
    rw [hSchema] at hOrderly
    exact hOrderly

/-- **Reading a document makes orderly schemas only.** -/
theorem document_orderly {raw : Entries} (hRaw : ObjectProperties (.map raw))
    (openapiVersion : String) :
    Ensures RemembersOrderly (fun api => ∀ v ∈ api.resolvedSchemas, Orderly v)
      (document raw openapiVersion) := by
  refine (document_carries (reading_orderly hRaw) openapiVersion).mono fun api hApi v hv => ?_
  rcases List.mem_append.mp hv with hv | hv
  · -- of an endpoint
    obtain ⟨es, hes, rfl⟩ := List.mem_map.mp hv
    obtain ⟨e, he, hes⟩ := List.mem_flatMap.mp hes
    exact orderly_of_mem_schemas (hApi.endpoints e he) hes
  · -- a named one
    obtain ⟨entry, hEntry, rfl⟩ := List.mem_map.mp hv
    exact hApi.schemas entry hEntry

end Extract

/-- **No reference and no composition is left in a resolved schema**, at any position and after any
calls, if the document keeps mappings under `properties`. So it is with every schema of a document
that is read. -/
theorem schemas_fully_resolved {document : Entries}
    (hDocument : ObjectProperties (.map document)) :
    (∀ calls schema, ObjectProperties schema → ∀ resolved,
      outcome (.map document) schema (sessionAfter document calls) = .ok (some resolved) →
        FullyResolved (.map resolved)) ∧
    ∀ openapiVersion api, (ApiDocument.extract document openapiVersion).run.1 = .ok api →
      ∀ schema ∈ api.resolvedSchemas, FullyResolved schema := by
  constructor
  · intro calls schema hSchema resolved hOutcome es hPosition
    have hRun := resolve_orderly hDocument hSchema _ (remembersOrderly_sessionAfter hDocument calls)
    exact (hRun.1 _ hOutcome).direct_of_position hPosition
  · intro openapiVersion api hExtract schema hSchema es hPosition
    have hRun := Extract.document_orderly hDocument openapiVersion {} (fun e he => nomatch he)
    have hResult : ((Extract.document document openapiVersion).on {}).1 = .ok api := hExtract
    exact (hRun.1 api hResult schema hSchema).direct_of_position hPosition

/-- A list of nodes, each of which extends the schema of its successor. -/
def linkedNodes : Entries :=
  [(.str "paths", .object [("/nodes", .object [("get", .object [("responses", .object [
    ("200", .object [("content", .object [("application/json", .object [
      ("schema", .object [("type", .str "array"), ("items", ofRef "#/components/schemas/Node")])
    ])])])])])])]),
   (.str "components", .object [("schemas", .object [
    ("Node", .object [("properties", .object [("next", .object [
      ("allOf", .list [ofRef "#/components/schemas/Node"])])])])])])]

theorem linkedNodes_objectProperties : ObjectProperties (.map linkedNodes) := by
  simp [linkedNodes, Value.object, ofRef]

theorem schemas_fully_resolved_linkedNodes :
    FullyResolved (.object [("properties", .object [("next", .object [
      ("type", .str "object"), ("properties", .object []), ("required", .list [])])])]) ∧
    ∃ api, (ApiDocument.extract linkedNodes "3.0.3").run.1 = .ok api ∧
      api.resolvedSchemas.length = 2 ∧ ∀ schema ∈ api.resolvedSchemas, FullyResolved schema := by
  have h := schemas_fully_resolved linkedNodes_objectProperties
  constructor
  · have hNode : outcome (.map linkedNodes) (ofRef "#/components/schemas/Node")
        (sessionAfter linkedNodes [.resolve (ofRef "#/components/schemas/Node")]) =
          .ok (some _) := rfl
    exact h.1 _ _ (objectProperties_ofRef _) _ hNode
  · exact ⟨_, rfl, rfl, h.2 "3.0.3" _ rfl⟩

end IntegrationCompiler
