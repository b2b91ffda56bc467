import IntegrationCompiler.Proofs.Endpoint.Places
import IntegrationCompiler.Proofs.Reference.Typed

/-!
# Reading documents whose keywords have their types

A raw document whose schemas have keywords of their types is read into one whose schemas have such
keywords as well.

* `TypedSource` — what is asked of the raw document, at the places that are looked at;
* `TypedSource.of_throughout` — it is enough to ask the same of all mappings in the document;
* `ApiDocument.extract_typed` — what the document that is read carries.
-/

namespace IntegrationCompiler

open Resolving Value Schema

/-- Wherever a mapping occurs, its keywords have their types. -/
abbrev Value.TypedThroughout (v : Value) : Prop :=
  v.Everywhere fun es => ∀ e ∈ es, TypedEntry e.1 e.2

/-- Where schemas stand in a raw document their keywords have their types, and wherever a mapping
occurs in an example of a response its keys are texts. -/
structure TypedSource (raw : Entries) : Prop where
  schemas : ∀ es, Extract.Place raw .schema (.map es) → ∀ e ∈ es, TypedEntry e.1 e.2
  payloads : ∀ v, Extract.Place raw .payload v → v.TextKeys

namespace TypedSource

variable {raw : Entries}

theorem places (h : TypedSource raw) : Places (.map raw) (Extract.Place raw .schema) where
  typed := h.schemas
  part := fun _ _ hPlace hPart => .part hPlace hPart
  target := fun _ _ _ hPlace hRef hReferent => .target hPlace hRef hReferent

theorem reading (h : TypedSource raw) : Extract.Reading raw RemembersTyped Typed TextKeys where
  logFree := remembers_logFree _
  noSchema := .null
  schema := fun _ hPlace => Resolver.resolve_typed h.places hPlace
  noPayload := everywhere_scalar .null
  payload := h.payloads
  boxed := fun _ hv => everywhere_map_iff.mpr
    ⟨List.forall_mem_singleton.mpr ⟨_, rfl⟩, List.forall_mem_singleton.mpr hv⟩

theorem typedEntry_ref (ref : String) :
    ∀ e ∈ [(Scalar.str "$ref", Value.str ref)], TypedEntry e.1 e.2 :=
  List.forall_mem_singleton.mpr (typedEntry_of_name _ (by decide))

/-- It is enough that all mappings of the document have keywords of their types and keys that are
texts. -/
theorem of_throughout (hEntries : TypedThroughout (.map raw)) (hKeys : TextKeys (.map raw)) :
    TypedSource raw where
  schemas es hPlace :=
    hPlace.everywhere typedEntry_ref hEntries es (.self _)
  payloads _ hPlace :=
    hPlace.everywhere (fun _ => List.forall_mem_singleton.mpr ⟨_, rfl⟩) hKeys

end TypedSource

/-- **A document whose keywords have their types is read into one whose schemas are typed**, and the
keys of whose examples are texts. -/
theorem ApiDocument.extract_typed {raw : Entries} (h : TypedSource raw) {openapiVersion : String}
    {api : ApiDocument} (hExtract : (ApiDocument.extract raw openapiVersion).run.1 = .ok api) :
    api.Carries Typed TextKeys := by
  have hRun := Extract.document_carries h.reading openapiVersion {} (fun e he => nomatch he)
  have hResult : ((Extract.document raw openapiVersion).on {}).1 = .ok api := hExtract
  exact hRun.1 api hResult

end IntegrationCompiler
