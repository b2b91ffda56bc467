import IntegrationCompiler.Endpoint.Extract
import IntegrationCompiler.Proofs.Diagnostics.Checked
import IntegrationCompiler.Proofs.Reference.Resolved

/-!
# Where a document is read

Reading a document resolves the schemas that stand at certain places of it, and takes examples from
others. What is known of these places is known of all that the read document carries.

* `Extract.Place` — the places that are looked at, and what is expected there;
* `Endpoint.Carries`, `ApiDocument.Carries` — what is carried has a property;
* `Extract.Reading` — what has to be known of the places;
* `Extract.document_carries` — then a document that is read carries it, with one lemma for each part
  of a document.
-/

namespace IntegrationCompiler

open Resolving Value Resolver

/-! ## What is carried -/

/-- The schemas of an endpoint have one property, and the examples of its responses another. -/
structure Endpoint.Carries (P E : Value → Prop) (e : Endpoint) : Prop where
  parameters : ∀ p ∈ e.parameters, P (schemaValue p.schema)
  body : ∀ b ∈ e.requestBody, P (schemaValue b.schema)
  responses : ∀ r ∈ e.responses, P (schemaValue r.2.schema)
  examples : ∀ r ∈ e.responses, ∀ shown ∈ r.2.examples, E shown.2

/-- The same for a whole document, with its named schemas. -/
structure ApiDocument.Carries (P E : Value → Prop) (d : ApiDocument) : Prop where
  endpoints : ∀ e ∈ d.endpoints, e.Carries P E
  schemas : ∀ named ∈ d.schemas, P named.2

namespace Extract

/-! ## Places -/

/-- What is expected at a place of a raw document. -/
inductive Kind where
  | path
  | operation
  | parameter
  | body
  | response
  | schema
  | payload
  deriving DecidableEq, Repr

/-- A value stands where reading a document expects something of a kind: at the place itself, or
where references lead from there. -/
inductive Place (raw : Entries) : Kind → Value → Prop where
  | path {paths : Entries} {named : Scalar × Value} :
    Entries.getOrNull raw "paths" = .map paths → named ∈ paths → Place raw .path named.2
  | operation {item operation : Entries} {name : String} {method : Method} :
    Place raw .path (.map item) → (.str name, .map operation) ∈ item →
    Method.ofName? name = some method → Place raw .operation (.map operation)
  | shared {item : Entries} {v : Value} : Place raw .path (.map item) →
    v ∈ itemsUnder item "parameters" → Place raw .parameter v
  | own {operation : Entries} {v : Value} : Place raw .operation (.map operation) →
    v ∈ itemsUnder operation "parameters" → Place raw .parameter v
  | body {operation : Entries} : Place raw .operation (.map operation) →
    Place raw .body (Entries.getOrNull operation "requestBody")
  | response {operation declared : Entries} {coded : Scalar × Value} :
    Place raw .operation (.map operation) →
    Entries.getOrNull operation "responses" = .map declared → coded ∈ declared →
    Place raw .response coded.2
  | ofParameter {parameter : Entries} : Place raw .parameter (.map parameter) →
    Place raw .schema (Entries.getOrNull parameter "schema")
  | ofBody {body media : Entries} : Place raw .body (.map body) →
    jsonMedia? (Entries.getOrNull body "content") = some media →
    Place raw .schema (Entries.getOrNull media "schema")
  | ofResponse {response media : Entries} : Place raw .response (.map response) →
    jsonMedia? (Entries.getOrNull response "content") = some media →
    Place raw .schema (Entries.getOrNull media "schema")
  | payloads {response media shown : Entries} {named : Scalar × Value} :
    Place raw .response (.map response) →
    jsonMedia? (Entries.getOrNull response "content") = some media →
    Entries.getOrNull media "examples" = .map shown → named ∈ shown → Place raw .payload named.2
  | payload {response media : Entries} {v : Value} : Place raw .response (.map response) →
    jsonMedia? (Entries.getOrNull response "content") = some media →
    Entries.get? media "example" = some v → Place raw .payload v
  | named (name : String) : Place raw .schema (ofRef (componentRef name))
  | part {v p : Value} : Place raw .schema v → p ∈ v.parts → Place raw .schema p
  | target {kind : Kind} {v w : Value} {ref : String} : Place raw kind v → v.ref? = some ref →
    referent (.map raw) ref = .ok w → Place raw kind w

/-- A value at a place, or nothing. -/
def PlaceOrNull (raw : Entries) (kind : Kind) (v : Value) : Prop :=
  v = .null ∨ Place raw kind v

theorem PlaceOrNull.place {raw : Entries} {kind : Kind} {es : Entries}
    (h : PlaceOrNull raw kind (.map es)) : Place raw kind (.map es) :=
  h.resolve_left nofun

/-- What holds of all mappings in a document, and of references, holds of all mappings at its
places. -/
theorem Place.everywhere {raw : Entries} {R : Entries → Prop}
    (hRef : ∀ ref, R [(.str "$ref", .str ref)]) (hRaw : Everywhere R (.map raw)) {kind : Kind}
    {v : Value} (hPlace : Place raw kind v) : Everywhere R v := by
  have hEntry : ∀ {es : Entries} {key : Scalar} {w : Value}, Everywhere R (.map es) →
      (key, w) ∈ es → Everywhere R w :=
    fun h hMem => h.within (within_of_mem hMem)
  have hUnder : ∀ {es : Entries} (key : String), Everywhere R (.map es) →
      Everywhere R (Entries.getOrNull es key) := by
    intro es key h
    rcases getOrNull_eq_null_or_mem es key with hNull | hMem
    · exact hNull ▸ everywhere_scalar .null
    · exact hEntry h hMem
  have hBelow : ∀ {p w : Value}, Everywhere R w → Below p w → Everywhere R p := by
    intro p w h hLess
    rcases hLess.2 with hInside | ⟨s, rfl⟩
    · exact h.within hInside
    · exact everywhere_scalar s
  have hMedia : ∀ {es media : Entries}, Everywhere R (.map es) →
      jsonMedia? (Entries.getOrNull es "content") = some media → Everywhere R (.map media) := by
    intro es media h hJson
    obtain ⟨content, hContent, hJson⟩ := Option.bind_eq_some_iff.mp hJson
    have hThere := hUnder "application/json" (eq_of_entries? hContent ▸ hUnder "content" h)
    exact eq_of_entries? hJson ▸ hThere
  -- Every place lies in the one before it, but for the components and the targets of references.
  induction hPlace with
  | path hPaths hMem => exact hEntry (hPaths ▸ hUnder "paths" hRaw) hMem
  | operation _ hMem _ ih => exact hEntry ih hMem
  | shared _ hMem ih => exact hBelow ih (below_of_mem_itemsUnder hMem)
  | own _ hMem ih => exact hBelow ih (below_of_mem_itemsUnder hMem)
  | body _ ih => exact hUnder "requestBody" ih
  | response _ hDeclared hMem ih => exact hEntry (hDeclared ▸ hUnder "responses" ih) hMem
  | ofParameter _ ih => exact hUnder "schema" ih
  | ofBody _ hJson ih => exact hUnder "schema" (hMedia ih hJson)
  | ofResponse _ hJson ih => exact hUnder "schema" (hMedia ih hJson)
  | payloads _ hJson hShown hMem ih =>
    exact hEntry (hShown ▸ hUnder "examples" (hMedia ih hJson)) hMem
  | payload _ hJson hExample ih => exact hEntry (hMedia ih hJson) (Entries.get?_eq_some_mem hExample)
  | named name =>
    exact everywhere_map_iff.mpr ⟨hRef _, List.forall_mem_singleton.mpr (everywhere_scalar _)⟩
  | part _ hPart ih => exact hBelow ih (below_of_mem_parts hPart)
  | @target _ _ w _ _ _ hReferent ih =>
    by_cases hw : w = .null
    · exact hw ▸ everywhere_scalar .null
    · exact hRaw.within (within_of_referent hReferent hw)

/-- Where references lead from a place stands at a place as well. -/
theorem deref_place {raw : Entries} {I : Session → Prop} (hI : LogFree I) {kind : Kind} {v : Value}
    (hv : PlaceOrNull raw kind v) : Ensures I (PlaceOrNull raw kind) (deref (.map raw) v) := by
  refine deref_ensures hI (.inl rfl) (fun u ref w hu hRef hNamed => ?_) hv
  rcases hu with rfl | hu
  · cases hRef
  · exact .inr (.target hu hRef hNamed)

/-! ## Raw parts -/

theorem entriesAt_ensures {I : Session → Prop} (es : Entries) (key : String) :
    Ensures I (fun found => found = [] ∨ Entries.getOrNull es key = .map found)
      (entriesAt es key) := by
  unfold entriesAt
  split
  · exact .pure (.inl rfl)
  · next found hPresent => exact .pure (.inr (eq_of_present? hPresent).symm)
  · exact .throw .malformed

theorem identity_ensures {I : Session → Prop} (parameter : Entries) :
    Ensures I (fun _ => True) (identity parameter) := by
  unfold identity
  refine Ensures.bind (P := fun _ => True) ?_ fun name _ => ?_
  · dsimp only
    split
    · exact .pure trivial
    · exact .throw .malformed
  refine Ensures.bind (P := fun _ => True) ?_ fun location _ => .pure trivial
  dsimp only
  split
  · exact .pure trivial
  · exact .throw .malformed

theorem mem_mappings {vs : List Value} {es : Entries} (h : es ∈ mappings vs) : .map es ∈ vs := by
  obtain ⟨v, hv, hes⟩ := List.mem_filterMap.mp h
  exact eq_of_entries? hes ▸ hv

theorem mergeParameters_ensures {I : Session → Prop} {Q : Value → Prop}
    {ofPath ofOperation : List Value} (hPath : ∀ v ∈ ofPath, Q v)
    (hOperation : ∀ v ∈ ofOperation, Q v) :
    Ensures I (fun ps => ∀ p ∈ ps, Q (.map p)) (mergeParameters ofPath ofOperation) := by
  refine (Ensures.mapM fun p _ => identity_ensures p).bind fun overridden _ => ?_
  refine (Ensures.filterM (P := fun p => Q (.map p)) (fun p hp => ?_)
    fun p _ => ?_).bind fun kept hKept => .pure fun p hp => ?_
  · exact hPath _ (mem_mappings hp)
  · exact (identity_ensures p).bind fun _ _ => .pure trivial
  · rcases List.mem_append.mp hp with hp | hp
    · exact hKept p hp
    · exact hOperation _ (mem_mappings hp)

theorem parameterExamples_ensures {I : Session → Prop} (parameter : Entries) :
    Ensures I (fun _ => True) (parameterExamples parameter) := by
  unfold parameterExamples
  cases (Entries.getOrNull parameter "examples").present? with
  | none =>
    split
    · exact .pure trivial
    · exact .pure trivial
  | some v =>
    refine (Ensures.orMalformed (P := fun _ => True) fun _ _ => trivial).bind fun examples _ => ?_
    split
    · exact .pure trivial
    · exact .pure trivial

/-- A record that carries a schema was built with it. -/
theorem schema_of_read {P : Value → Prop} (hNull : P .null) {schema found : Option Entries}
    (hSchema : P (schemaValue schema))
    (hRead : asOptional asEntries (schemaValue schema) = .ok found) : P (schemaValue found) := by
  rcases asOptional_asEntries_eq_ok hRead with ⟨-, hNone⟩ | ⟨es, hSome, hFound⟩
  · rw [hNone]
    exact hNull
  · rw [hFound, schemaValue, ← hSome]
    exact hSchema

/-- What has to be known of the places of a document: the schemas there resolve to schemas with a
property, and the examples there have another. -/
structure Reading (raw : Entries) (I : Session → Prop) (P E : Value → Prop) : Prop where
  logFree : LogFree I
  noSchema : P .null
  schema : ∀ v, Place raw .schema v →
    Ensures I (fun found => P (schemaValue found)) (resolve (.map raw) v)
  noPayload : E .null
  payload : ∀ v, Place raw .payload v → E v
  boxed : ∀ v, E v → E (.object [("value", v)])

section

variable {raw : Entries} {I : Session → Prop} {P E : Value → Prop} (h : Reading raw I P E)

/-! ## Parameters -/

include h in
theorem parameter?_carries {parameter : Entries} (hPlace : Place raw .parameter (.map parameter)) :
    Ensures I (fun found => ∀ p ∈ found, P (schemaValue p.schema))
      (parameter? (.map raw) parameter) := by
  unfold parameter?
  split
  · exact .pure (by simp)
  · refine (parameterExamples_ensures parameter).bind fun examples _ => ?_
    refine (h.schema _ (.ofParameter hPlace)).bind fun schema hSchema => ?_
    refine Ensures.map (Ensures.orFail fun p hp => ?_) fun p hp => by simpa using hp
    -- the fields are checked in their order; the schema is the last but one
    obtain ⟨_, _, hSchemaField, -, rfl⟩ := Checked.seq_eq_ok.mp hp
    obtain ⟨_, _, hDescription, hRead, rfl⟩ := Checked.seq_eq_ok.mp hSchemaField
    obtain ⟨_, _, hRequired, -, rfl⟩ := Checked.seq_eq_ok.mp hDescription
    obtain ⟨_, _, hLocation, -, rfl⟩ := Checked.seq_eq_ok.mp hRequired
    obtain ⟨_, _, hName, -, rfl⟩ := Checked.seq_eq_ok.mp hLocation
    obtain ⟨_, -, rfl⟩ := Checked.map_eq_ok.mp hName
    exact schema_of_read h.noSchema hSchema (Entries.want_eq_ok rfl hRead)

/-! ## Bodies and responses -/

include h in
theorem mediaExamples_carries {response media : Entries}
    (hPlace : Place raw .response (.map response))
    (hMedia : jsonMedia? (Entries.getOrNull response "content") = some media) :
    Ensures I (fun es => ∀ shown ∈ es, E shown.2) (mediaExamples (.map raw) media) := by
  refine (entriesAt_ensures media "examples").bind fun named hNamed => ?_
  refine (Ensures.mapM (Q := fun shown => E shown.2) fun e he => ?_).bind fun examples hExamples => ?_
  -- A payload may be a reference, and what it leads to is a place again.
  · have hStart : PlaceOrNull raw .payload e.2 := by
      rcases hNamed with rfl | hNamed
      · cases he
      · exact .inr (.payloads hPlace hMedia hNamed he)
    refine (deref_place h.logFree hStart).bind fun v hv => .pure ?_
    exact hv.elim (fun hNull => hNull ▸ h.noPayload) (h.payload v)
  · split
    · next v hExample =>
      refine .pure ?_
      split
      · exact List.forall_mem_singleton.mpr (h.boxed v (h.payload v (.payload hPlace hMedia hExample)))
      · exact hExamples
    · exact .pure hExamples

/-- The examples of a body are read, but nothing is asked of them. -/
theorem mediaExamples_keeps (hI : LogFree I) (media : Entries) :
    Ensures I (fun _ => True) (mediaExamples (.map raw) media) := by
  refine (entriesAt_ensures media "examples").bind fun named _ => ?_
  refine (Ensures.mapM (Q := fun _ => True) fun e _ => ?_).bind fun examples _ => ?_
  · exact (deref_keeps hI (.map raw) e.2).bind fun _ _ => .pure trivial
  · split
    · exact .pure trivial
    · exact .pure trivial

include h in
theorem requestBody?_carries {v : Value} (hPlace : Place raw .body v) :
    Ensures I (fun found => ∀ b ∈ found, P (schemaValue b.schema))
      (requestBody? (.map raw) v) := by
  refine (deref_place h.logFree (.inr hPlace)).bind fun found hFound => ?_
  split
  · next body =>
    split
    · exact .pure (by simp)
    · next media hMedia =>
      refine (h.schema _ (.ofBody hFound.place hMedia)).bind fun schema hSchema => ?_
      refine (mediaExamples_keeps h.logFree media).bind fun examples _ => ?_
      refine Ensures.map (Ensures.orFail fun b hb => ?_) fun b hb => by simpa using hb
      obtain ⟨_, _, hSchemaField, -, rfl⟩ := Checked.seq_eq_ok.mp hb
      obtain ⟨_, _, hDescription, hRead, rfl⟩ := Checked.seq_eq_ok.mp hSchemaField
      obtain ⟨_, _, hRequired, -, rfl⟩ := Checked.seq_eq_ok.mp hDescription
      obtain ⟨_, -, rfl⟩ := Checked.map_eq_ok.mp hRequired
      exact schema_of_read h.noSchema hSchema (Entries.want_eq_ok rfl hRead)
  · exact .pure (by simp)

include h in
theorem response?_carries (code : Scalar) {v : Value} (hPlace : Place raw .response v) :
    Ensures I (fun found => ∀ r ∈ found, P (schemaValue r.schema) ∧ ∀ shown ∈ r.examples, E shown.2)
      (response? (.map raw) code v) := by
  refine (deref_place h.logFree (.inr hPlace)).bind fun found hFound => ?_
  split
  · next response =>
    refine (Ensures.orMalformed (P := fun _ => True) fun _ _ => trivial).bind fun text _ => ?_
    have hBuild : ∀ schema examples, P (schemaValue schema) → (∀ shown ∈ examples, E shown.2) →
        Ensures I
          (fun found => ∀ r ∈ found, P (schemaValue r.schema) ∧ ∀ shown ∈ r.examples, E shown.2)
          (some <$> build Response.read [
            ("status_code", .str text), ("description", Entries.getOrNull response "description"),
            ("schema", schemaValue schema), ("examples", .map examples)]) := by
      intro schema examples hSchema hExamples
      refine Ensures.map (P := fun r => P (schemaValue r.schema) ∧ ∀ shown ∈ r.examples, E shown.2)
        (Ensures.orFail fun r hr => ?_) fun r hr => by simpa using hr
      obtain ⟨_, _, hSchemaField, hShown, rfl⟩ := Checked.seq_eq_ok.mp hr
      obtain ⟨_, _, hDescription, hRead, rfl⟩ := Checked.seq_eq_ok.mp hSchemaField
      obtain ⟨_, _, hCode, -, rfl⟩ := Checked.seq_eq_ok.mp hDescription
      obtain ⟨_, -, rfl⟩ := Checked.map_eq_ok.mp hCode
      refine ⟨schema_of_read h.noSchema hSchema (Entries.want_eq_ok rfl hRead), ?_⟩
      cases asEntries_eq_ok (Entries.want_eq_ok rfl hShown)
      exact hExamples
    -- a response without a body, or with one in another format, carries no schema
    cases hMedia : jsonMedia? (Entries.getOrNull response "content") with
    | none => exact hBuild none [] h.noSchema (by simp)
    | some media =>
      dsimp only [Option.getD_some]
      split
      · exact hBuild none [] h.noSchema (by simp)
      · refine (h.schema _ (.ofResponse hFound.place hMedia)).bind fun schema hSchema => ?_
        exact (mediaExamples_carries h hFound.place hMedia).bind fun examples hExamples =>
          hBuild schema examples hSchema hExamples
  · exact .pure (by simp)

theorem mem_putNamed {α : Type} {name : String} {a : α} {named : List (String × α)}
    {e : String × α} (hMem : e ∈ putNamed name a named) : e.2 = a ∨ e ∈ named := by
  induction named with
  | nil => exact Or.inl (congrArg Prod.snd (List.mem_singleton.mp hMem))
  | cons first rest ih =>
    obtain ⟨n, b⟩ := first
    rw [putNamed] at hMem
    split at hMem
    · rcases List.mem_cons.mp hMem with rfl | hMem
      · exact Or.inl rfl
      · exact Or.inr (List.mem_cons_of_mem _ hMem)
    · rcases List.mem_cons.mp hMem with rfl | hMem
      · exact Or.inr List.mem_cons_self
      · exact (ih hMem).imp_right (List.mem_cons_of_mem _)

include h in
theorem responses_carries {declared : Entries}
    (hPlaces : ∀ coded ∈ declared, Place raw .response coded.2) :
    Ensures I
      (fun rs => ∀ r ∈ rs, P (schemaValue r.2.schema) ∧ ∀ shown ∈ r.2.examples, E shown.2)
      (responses (.map raw) declared) := by
  refine Ensures.foldlM (by simp) fun acc hAcc e he => ?_
  refine (response?_carries h e.1 (hPlaces e he)).bind fun found hFound => ?_
  cases found with
  | none => exact .pure hAcc
  | some r =>
    refine .pure fun entry hEntry => ?_
    rcases mem_putNamed hEntry with hSame | hOld
    · exact hSame ▸ hFound r rfl
    · exact hAcc entry hOld

/-! ## Endpoints -/

include h in
theorem endpoint_carries (path : Scalar) (method : Method) {shared : List Value}
    {operation : Entries} (hShared : ∀ v ∈ shared, Place raw .parameter v)
    (hOperation : Place raw .operation (.map operation)) :
    Ensures I (Endpoint.Carries P E) (endpoint (.map raw) path method shared operation) := by
  have hDeref : ∀ vs : List Value, (∀ v ∈ vs, Place raw .parameter v) →
      Ensures I (fun ws => ∀ w ∈ ws, PlaceOrNull raw .parameter w)
        (vs.mapM (deref (.map raw))) :=
    fun vs hvs => Ensures.mapM fun v hv => deref_place h.logFree (.inr (hvs v hv))
  refine (hDeref shared hShared).bind fun ofPath hPath => ?_
  refine (itemsAt_ensures operation "parameters").bind fun own hOwn => ?_
  refine (hDeref own fun v hv => .own hOperation (hOwn v hv)).bind fun ofOperation hOfOperation => ?_
  refine (mergeParameters_ensures hPath hOfOperation).bind fun merged hMerged => ?_
  refine (Ensures.filterMapM fun p hp => parameter?_carries h (hMerged p hp).place).bind
    fun parameters hParameters => ?_
  refine (requestBody?_carries h (.body hOperation)).bind fun body hBody => ?_
  refine (entriesAt_ensures operation "responses").bind fun declared hDeclared => ?_
  have hCoded : ∀ coded ∈ declared, Place raw .response coded.2 := by
    intro coded hMem
    rcases hDeclared with rfl | hDeclared
    · cases hMem
    · exact .response hOperation hDeclared hMem
  refine (responses_carries h hCoded).bind fun responses hResponses => ?_
  -- What was resolved on the way is what the endpoint carries: its last three fields are the
  -- parameters, the body and the responses.
  refine Ensures.orFail fun e he => ?_
  obtain ⟨_, _, hField, hLast, rfl⟩ := Checked.seq_eq_ok.mp he
  obtain ⟨_, _, hField', hMiddle, rfl⟩ := Checked.seq_eq_ok.mp hField
  obtain ⟨_, _, hTags, hFirst, rfl⟩ := Checked.seq_eq_ok.mp hField'
  obtain ⟨_, _, hDescription, -, rfl⟩ := Checked.seq_eq_ok.mp hTags
  obtain ⟨_, _, hSummary, -, rfl⟩ := Checked.seq_eq_ok.mp hDescription
  obtain ⟨_, _, hId, -, rfl⟩ := Checked.seq_eq_ok.mp hSummary
  obtain ⟨_, _, hMethod, -, rfl⟩ := Checked.seq_eq_ok.mp hId
  obtain ⟨_, _, hPathField, -, rfl⟩ := Checked.seq_eq_ok.mp hMethod
  obtain ⟨_, -, rfl⟩ := Checked.map_eq_ok.mp hPathField
  cases hLast
  cases hMiddle
  cases hFirst
  exact ⟨hParameters, hBody, fun r hr => (hResponses r hr).1, fun r hr => (hResponses r hr).2⟩

include h in
theorem pathEndpoints_carries (path : Scalar) {v : Value} (hPlace : Place raw .path v) :
    Ensures I (fun found => ∀ e ∈ found, e.Carries P E) (pathEndpoints (.map raw) path v) := by
  refine (deref_place h.logFree (.inr hPlace)).bind fun found hFound => ?_
  split
  · next item =>
    refine Ensures.mapM fun operation hOperation => ?_
    refine (itemsAt_ensures item "parameters").bind fun shared hShared => ?_
    refine endpoint_carries h path operation.1
      (fun v hv => .shared hFound.place (hShared v hv)) ?_
    -- an operation is the value of an entry of the path item
    obtain ⟨⟨key, v⟩, hEntry, hOperation⟩ := List.mem_filterMap.mp hOperation
    dsimp only at hOperation
    split at hOperation
    · obtain ⟨method, hMethod, hOperation⟩ := Option.bind_eq_some_iff.mp hOperation
      obtain ⟨es, hes, hSame⟩ := Option.bind_eq_some_iff.mp hOperation
      cases hSame
      cases eq_of_entries? hes
      exact .operation hFound.place hEntry hMethod
    · cases hOperation
  · exact .pure (by simp)

include h in
theorem endpoints_carries : Ensures I (fun found => ∀ e ∈ found, e.Carries P E)
    (endpoints raw) := by
  refine (entriesAt_ensures raw "paths").bind fun paths hPaths => ?_
  have hPlaces : ∀ named ∈ paths, Place raw .path named.2 := by
    intro named hMem
    rcases hPaths with rfl | hPaths
    · cases hMem
    · exact .path hPaths hMem
  refine (Ensures.mapM fun e he => pathEndpoints_carries h e.1 (hPlaces e he)).bind
    fun found hFound => ?_
  refine (remark_ensures h.logFree _ _).bind fun _ _ => .pure fun e he => ?_
  obtain ⟨group, hGroup, he⟩ := List.mem_flatten.mp he
  exact hFound group hGroup e he

theorem baseUrl_ensures (raw : Entries) : Ensures I (fun _ => True) (baseUrl raw) := by
  unfold baseUrl
  dsimp only
  split
  · exact .pure trivial
  · refine (Ensures.orMalformed (P := fun _ => True) fun _ _ => trivial).bind fun first _ => ?_
    split
    · exact .orMalformed fun _ _ => trivial
    · exact .pure trivial

include h in
/-- **What is known of the places of a document is known of all that it carries.** -/
theorem document_carries (openapiVersion : String) :
    Ensures I (ApiDocument.Carries P E) (document raw openapiVersion) := by
  refine (entriesAt_ensures raw "info").bind fun info _ => ?_
  refine (Ensures.orMalformed (P := fun _ => True) fun _ _ => trivial).bind fun version _ => ?_
  refine (baseUrl_ensures raw).bind fun base _ => ?_
  refine (endpoints_carries h).bind fun found hFound => ?_
  rw [componentSchemas_eq]
  refine (collectSchemas_ensures (Q := fun schema => P (schemaValue schema)) fun name =>
    h.schema _ (.named name)).bind fun schemas hSchemas => ?_
  refine (Ensures.orFail (P := fun _ => True) fun _ _ => trivial).bind fun title _ => ?_
  refine .pure ⟨hFound, fun named hNamed => ?_⟩
  obtain ⟨schema, hSchema, hP⟩ := hSchemas named hNamed
  rw [hSchema]
  exact hP

end

end Extract

end IntegrationCompiler
