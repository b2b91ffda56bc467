import IntegrationCompiler.Proofs.Diagnostics.Returns
import IntegrationCompiler.Proofs.Endpoint.Places

/-!
# The parameters of an endpoint

The operations of a path share its parameters, and each may declare parameters of its own, which
override shared ones. Which ones they override is decided by names and locations as they are
written; where a parameter becomes an input is decided afterwards, and then a parameter that is
written without a location goes to the query.

* `Extract.declared` — the mappings that declarations lead to;
* `Extract.overrides`, `Extract.pair?` — the two ways in which names and locations are read;
* `Extract.Extracts` — a parameter is the one that a mapping declares;
* `Extract.Offered` — the operations of a document, each with the parameters that are declared;
* `Extract.endpoints_offered` — the endpoints of a document and the parameters of each, in their
  order.
-/

namespace IntegrationCompiler

open Resolving Value Resolver

/-! ## Loops with known results -/

namespace Resolving.Ensures

variable {α β : Type} {I : Session → Prop}

theorem mapM_forall₂ {R : α → β → Prop} {f : α → Resolving β} {xs : List α}
    (h : ∀ a ∈ xs, Ensures I (R a) (f a)) : Ensures I (List.Forall₂ R xs) (xs.mapM f) := by
  induction xs with
  | nil => exact pure .nil
  | cons a rest ih =>
    rw [List.mapM_cons]
    refine (h a List.mem_cons_self).bind fun b hb => ?_
    refine (ih fun c hc => h c (List.mem_cons_of_mem _ hc)).bind fun bs hbs => ?_
    exact pure (.cons hb hbs)

theorem filterM_eq {f : α → Resolving Bool} {keep : α → Bool} {xs : List α}
    (h : ∀ a ∈ xs, Ensures I (· = keep a) (f a)) :
    Ensures I (· = xs.filter keep) (xs.filterM f) := by
  -- the loop collects what it keeps in reverse
  have hAux : ∀ kept : List α,
      Ensures I (· = (xs.filter keep).reverse ++ kept) (xs.filterAuxM f kept) := by
    induction xs with
    | nil => exact fun kept => pure rfl
    | cons a rest ih =>
      intro kept
      refine (h a List.mem_cons_self).bind fun b hb => ?_
      refine (ih (fun c hc => h c (List.mem_cons_of_mem _ hc)) _).mono fun as hAs => ?_
      rw [hAs, hb, List.filter_cons]
      cases keep a with
      | true => simp
      | false => simp
  exact (hAux []).bind fun as hAs => pure (by simp [hAs])

theorem filterMapM_forall₂ {R : α → β → Prop} {f : α → Resolving (Option β)} {keep : α → Bool}
    {xs : List α} (h : ∀ a ∈ xs, Ensures I (fun found => found.isSome = keep a ∧
      ∀ b ∈ found, R a b) (f a)) :
    Ensures I (List.Forall₂ R (xs.filter keep)) (xs.filterMapM f) := by
  have hLoop : ∀ found : List β, Ensures I
      (fun bs => ∃ rest, bs = found.reverse ++ rest ∧ List.Forall₂ R (xs.filter keep) rest)
      (List.filterMapM.loop f xs found) := by
    induction xs with
    | nil => exact fun found => pure ⟨[], (List.append_nil _).symm, .nil⟩
    | cons a rest ih =>
      intro found
      refine (h a List.mem_cons_self).bind fun next hNext => ?_
      have hRest := ih fun c hc => h c (List.mem_cons_of_mem _ hc)
      rw [List.filter_cons, ← hNext.1]
      cases next with
      | none => exact hRest found
      | some b =>
        refine (hRest (b :: found)).mono fun bs ⟨more, hBs, hMore⟩ => ?_
        exact ⟨b :: more, by simp [hBs], .cons (hNext.2 b rfl) hMore⟩
  exact (hLoop []).mono fun bs ⟨rest, hBs, hRest⟩ => hBs ▸ hRest

/-- Whatever a step is, its results are those of its runs. -/
theorem of_run (x : Resolving α) : Ensures (fun _ => True) (fun a => ∃ s t, x.on s = (.ok a, t)) x :=
  fun s _ => ⟨fun _ ha => ⟨s, _, Prod.ext ha rfl⟩, trivial⟩

end Resolving.Ensures

/-! ## What declarations lead to -/

namespace Resolver

theorem lookup_agrees (document : Value) (ref : String) :
    Agrees (fun _ _ => True) (lookup document ref) (lookup document ref) := by
  intro s t _
  obtain ⟨log, hLookup⟩ := lookup_on document ref s
  obtain ⟨log', hLookup'⟩ := lookup_on document ref t
  rw [hLookup, hLookup']
  exact ⟨rfl, trivial⟩

/-- What is found at the end of a chain of references depends on the document only. -/
theorem derefTo_agrees (document : Value) (budget : Nat) (seen : List String) (v : Value) :
    Agrees (fun _ _ => True) (derefTo document budget seen v) (derefTo document budget seen v) := by
  have hLog : IgnoresLog fun _ _ => True := fun _ _ _ _ => trivial
  induction budget generalizing seen v with
  | zero => exact .throw .malformed
  | succ budget ih =>
    unfold derefTo
    split
    · split
      · exact .pure _
      · split
        · exact (Agrees.remark hLog _ _).bind fun _ => .pure _
        · exact (lookup_agrees document _).bind fun next => ih _ next
      · unfold lookupValue
        split
        · exact lookup_agrees document _
        · exact (Agrees.remark hLog _ _).bind fun _ => .pure _
      · exact .throw .malformed
    · exact .pure _

/-- What a value leads to. -/
def destination (document v : Value) : Except Failure Value :=
  ((deref document v).on {}).1

theorem deref_leads (document v : Value) :
    Ensures (fun _ => True) (fun w => destination document v = .ok w) (deref document v) :=
  fun s _ => ⟨fun _ hw => (derefTo_agrees document _ _ v {} s trivial).1.trans hw, trivial⟩

end Resolver

namespace Extract

/-- The mappings to which values lead. -/
def declared (document : Value) (vs : List Value) : List Entries :=
  mappings (vs.filterMap fun v => (destination document v).toOption)

theorem declared_of_leads {document : Value} {vs ws : List Value}
    (h : List.Forall₂ (fun v w => destination document v = .ok w) vs ws) :
    declared document vs = mappings ws := by
  unfold declared
  congr 1
  induction h with
  | nil => rfl
  | cons hLeads _ ih =>
    rw [List.filterMap_cons, hLeads]
    exact congrArg _ ih

/-! ## Names and locations, in two ways -/

section

variable {document : Value} {p o : Entries}

/-- A name or a location as it is written; one that is not written counts as empty. -/
def written (parameter : Entries) (key : String) : Value :=
  (Entries.get? parameter key).getD (.str "")

/-- The name and the location under which a declaration is merged are the written ones. -/
def WrittenAs (parameter : Entries) (i : Scalar × Scalar) : Prop :=
  written parameter "name" = .scalar i.1 ∧ written parameter "in" = .scalar i.2

theorem identity_written (parameter : Entries) :
    Ensures (fun _ => True) (WrittenAs parameter) (identity parameter) := by
  unfold identity
  refine Ensures.bind (P := fun s => written parameter "name" = .scalar s) ?_ fun name hName => ?_
  · dsimp only
    split
    · next s hs => exact .pure hs
    · exact .throw .malformed
  refine Ensures.bind (P := fun s => written parameter "in" = .scalar s) ?_ fun location hIn =>
    .pure ⟨hName, hIn⟩
  dsimp only
  split
  · next s hs => exact .pure hs
  · exact .throw .malformed

/-- A declaration of an operation overrides one of its path: both have the name and the location
that are written in the other. -/
def overrides (own shared : Entries) : Bool :=
  (written own "name").same (written shared "name") && (written own "in").same (written shared "in")

/-- The name and the location of a declaration that becomes an input; the location is the query if
none is written. -/
def pair? (parameter : Entries) : Option (Value × Location) :=
  (location? parameter).map fun location => (written parameter "name", location)

/-- The name and the location of a parameter. -/
def pairOf (p : Parameter) : Value × Location :=
  (.str p.name, p.location)

/-- The declarations that become inputs. -/
def inputs (ps : List Entries) : List Entries :=
  ps.filter fun p => (location? p).isSome

/-- The shared declarations that are not overridden, and then those of the operation. -/
def merged (shared own : List Entries) : List Entries :=
  shared.filter (fun p => !own.any (overrides · p)) ++ own

theorem any_overrides {own : List Entries} {identities : List (Scalar × Scalar)}
    {i : Scalar × Scalar} (hOwn : List.Forall₂ WrittenAs own identities) (hp : WrittenAs p i) :
    identities.any (fun (n, l) => n.same i.1 && l.same i.2) = own.any (overrides · p) := by
  induction hOwn with
  | nil => rfl
  | cons hFirst _ ih =>
    rw [List.any_cons, List.any_cons, ih, overrides, hFirst.1, hFirst.2, hp.1, hp.2]
    rfl

theorem mergeParameters_merged (ofPath ofOperation : List Value) :
    Ensures (fun _ => True) (· = merged (mappings ofPath) (mappings ofOperation))
      (mergeParameters ofPath ofOperation) := by
  refine (Ensures.mapM_forall₂ fun p _ => identity_written p).bind fun identities hOwn => ?_
  refine (Ensures.filterM_eq fun p _ => ?_).bind fun kept hKept => .pure (hKept ▸ rfl)
  exact (identity_written p).bind fun i hp => .pure (congrArg not (any_overrides hOwn hp))

/-! ## Extracted parameters -/

/-- A parameter is the one that a mapping declares. One in the path is required in any case; the
schema and the examples are what a resolver makes of those that are declared. -/
structure Extracts (document : Value) (raw : Entries) (p : Parameter) : Prop where
  pair : pair? raw = some (pairOf p)
  required : p.required = (p.location == .path || (Entries.getOrNull raw "required").truthy)
  description : Value.optionalText p.description = Entries.getOrNull raw "description"
  schema : ∃ s t, (resolve document (Entries.getOrNull raw "schema")).on s = (.ok p.schema, t)
  examples : ∃ s t, (parameterExamples raw).on s = (.ok p.examples, t)

theorem optionalText_of_read {v : Value} {text : Option String}
    (h : asOptional asText v = .ok text) : Value.optionalText text = v := by
  unfold asOptional at h
  split at h
  · cases h
    rfl
  · obtain ⟨s, hs, rfl⟩ := Checked.map_eq_ok.mp h
    exact (asText_eq_ok hs).symm

theorem eq_of_schema_read {schema found : Option Entries}
    (h : asOptional asEntries (schemaValue schema) = .ok found) : found = schema := by
  rcases asOptional_asEntries_eq_ok h with ⟨hNull, rfl⟩ | ⟨es, hMap, rfl⟩
  · cases schema with
    | none => rfl
    | some es => cases hNull
  · cases schema with
    | none => cases hMap
    | some es =>
      cases hMap
      rfl

theorem location_of_read {location found : Location}
    (h : asOneOf Location.ofName? (.str location.name) = .ok found) : found = location := by
  cases location <;> exact (Checked.ok.inj h).symm

theorem parameter?_extracts (document : Value) (raw : Entries) :
    Ensures (fun _ => True) (fun found => found.isSome = (location? raw).isSome ∧
      ∀ p ∈ found, Extracts document raw p) (parameter? document raw) := by
  unfold parameter?
  cases hLocation : location? raw with
  | none => exact .pure ⟨rfl, by simp⟩
  | some location =>
    refine (Ensures.of_run (parameterExamples raw)).bind fun examples hExamples => ?_
    refine (Ensures.of_run (resolve document (Entries.getOrNull raw "schema"))).bind
      fun schema hSchema => ?_
    refine Ensures.map (P := fun p => Extracts document raw p) (Ensures.orFail fun p hp => ?_)
      fun p hp => by simpa using hp
    -- the fields are checked in their order
    obtain ⟨_, _, hField, hLast, rfl⟩ := Checked.seq_eq_ok.mp hp
    obtain ⟨_, _, hDescribed, hRead, rfl⟩ := Checked.seq_eq_ok.mp hField
    obtain ⟨_, _, hRequired, hText, rfl⟩ := Checked.seq_eq_ok.mp hDescribed
    obtain ⟨_, _, hPlaced, hFlag, rfl⟩ := Checked.seq_eq_ok.mp hRequired
    obtain ⟨_, _, hNamed, hPlace, rfl⟩ := Checked.seq_eq_ok.mp hPlaced
    obtain ⟨_, hName, rfl⟩ := Checked.map_eq_ok.mp hNamed
    obtain rfl := location_of_read (Entries.need_eq_ok rfl hPlace)
    obtain rfl := Checked.ok.inj (Entries.want_eq_ok rfl hFlag :)
    refine ⟨?_, rfl, optionalText_of_read (Entries.want_eq_ok rfl hText), ?_, ?_⟩
    · rw [pair?, hLocation]
      exact congrArg (fun name => some (name, _)) (asText_eq_ok (Entries.need_eq_ok rfl hName))
    · exact eq_of_schema_read (Entries.want_eq_ok rfl hRead) ▸ hSchema
    · exact Value.map.inj (asEntries_eq_ok (Entries.want_eq_ok rfl hLast)) ▸ hExamples

/-- Where the items at a key are read, they are what is met there. -/
theorem itemsAt_read (entries : Entries) (key : String) :
    Ensures (fun _ => True) (· = itemsUnder entries key) (itemsAt entries key) := by
  unfold itemsAt itemsUnder present?
  cases hTruthy : (Entries.getOrNull entries key).truthy with
  | false => exact .pure (walk?_of_not_truthy hTruthy).symm
  | true => exact .orMalformed fun items hItems => by rw [hItems, Option.getD_some]

theorem entriesAt_read (entries : Entries) (key : String) :
    Ensures (fun _ => True) (· = (Entries.getOrNull entries key).entries?.getD [])
      (entriesAt entries key) := by
  unfold entriesAt
  split
  · next hAbsent =>
    have hFalsy : (Entries.getOrNull entries key).truthy = false := by
      simpa [present?] using hAbsent
    refine .pure ?_
    cases hValue : Entries.getOrNull entries key with
    | map es =>
      rw [hValue] at hFalsy
      cases es <;> trivial
    | _ => rfl
  · next hPresent => exact .pure (by rw [← eq_of_present? hPresent]; rfl)
  · exact .throw .malformed

/-! ## Operations -/

/-- An operation of a document, and the path item that it stands in. -/
structure Offered where
  path : Scalar
  item : Entries
  method : Method
  operation : Entries

namespace Offered

variable (document : Value) (o : Offered)

/-- The parameters that the path declares. -/
def shared : List Entries :=
  declared document (itemsUnder o.item "parameters")

/-- The parameters that the operation declares. -/
def own : List Entries :=
  declared document (itemsUnder o.operation "parameters")

/-- An endpoint is that of an operation: its parameters, in their order, are those that the path and
then the operation declare, without what is overridden and without what becomes no input. -/
structure Becomes (e : Endpoint) : Prop where
  path : .str e.path = Value.scalar o.path
  method : e.method = o.method
  parameters :
    List.Forall₂ (Extracts document) (inputs (merged (o.shared document) (o.own document))) e.parameters

end Offered

/-- The operations of a path item. -/
def operationsOf (item : Entries) : List (Method × Entries) :=
  item.filterMap fun (key, v) => do
    let .str name := key | none
    let method ← Method.ofName? name
    let operation ← v.entries?
    some (method, operation)

/-- The operations under a path. -/
def offeredAt (document : Value) (path : Scalar) (raw : Value) : List Offered :=
  match destination document raw with
  | .ok (.map item) => (operationsOf item).map fun (method, operation) =>
      ⟨path, item, method, operation⟩
  | _ => []

/-- The operations of a document, in its order. -/
def offered (document : Entries) : List Offered :=
  ((Entries.getOrNull document "paths").entries?.getD []).flatMap fun (path, raw) =>
    offeredAt (.map document) path raw

theorem endpoint_becomes (document : Value) (o : Offered) :
    Ensures (fun _ => True) (o.Becomes document)
      (endpoint document o.path o.method (itemsUnder o.item "parameters") o.operation) := by
  have hDeref (vs : List Value) : Ensures (fun _ => True)
      (fun ws => mappings ws = declared document vs) (vs.mapM (deref document)) :=
    (Ensures.mapM_forall₂ fun v _ => deref_leads document v).mono fun ws hws =>
      (declared_of_leads hws).symm
  refine (hDeref _).bind fun ofPath hPath => ?_
  refine (itemsAt_read o.operation "parameters").bind fun own hOwn => ?_
  refine (hDeref own).bind fun ofOperation hOperation => ?_
  refine (mergeParameters_merged ofPath ofOperation).bind fun ps hMerged => ?_
  refine (Ensures.filterMapM_forall₂ fun p _ => parameter?_extracts document p).bind
    fun parameters hParameters => ?_
  rw [hMerged, hPath, hOperation, hOwn] at hParameters
  refine (Ensures.of_run _).bind fun body _ => ?_
  refine (Ensures.of_run _).bind fun declared _ => ?_
  refine (Ensures.of_run _).bind fun responses _ => ?_
  refine Ensures.orFail fun e he => ?_
  -- path and method are the first fields, and the parameters the last but two
  obtain ⟨_, _, hField, -, rfl⟩ := Checked.seq_eq_ok.mp he
  obtain ⟨_, _, hField', -, rfl⟩ := Checked.seq_eq_ok.mp hField
  obtain ⟨_, _, hTags, hOwnField, rfl⟩ := Checked.seq_eq_ok.mp hField'
  obtain ⟨_, _, hDescription, -, rfl⟩ := Checked.seq_eq_ok.mp hTags
  obtain ⟨_, _, hSummary, -, rfl⟩ := Checked.seq_eq_ok.mp hDescription
  obtain ⟨_, _, hId, -, rfl⟩ := Checked.seq_eq_ok.mp hSummary
  obtain ⟨_, _, hMethod, -, rfl⟩ := Checked.seq_eq_ok.mp hId
  obtain ⟨_, _, hPathField, hMethodField, rfl⟩ := Checked.seq_eq_ok.mp hMethod
  obtain ⟨_, hPathText, rfl⟩ := Checked.map_eq_ok.mp hPathField
  cases hOwnField
  cases hMethodField
  exact ⟨(asText_eq_ok (Checked.under_eq_ok.mp hPathText)).symm, rfl, hParameters⟩

theorem pathEndpoints_offered (document : Value) (path : Scalar) (raw : Value) :
    Ensures (fun _ => True) (List.Forall₂ (Offered.Becomes document) (offeredAt document path raw))
      (pathEndpoints document path raw) := by
  refine (deref_leads document raw).bind fun found hFound => ?_
  unfold offeredAt
  rw [hFound]
  cases found with
  | map item =>
    refine Ensures.mono (P := List.Forall₂ (fun o => Offered.Becomes document
      ⟨path, item, o.1, o.2⟩) (operationsOf item)) (Ensures.mapM_forall₂ fun o _ => ?_)
      fun es hes => List.forall₂_map_left_iff.mpr hes
    refine (itemsAt_read item "parameters").bind fun shared hShared => ?_
    rw [hShared]
    exact endpoint_becomes document ⟨path, item, o.1, o.2⟩
  | _ => exact .pure .nil

/-- **The endpoints of a document are those of its operations**, in their order. -/
theorem endpoints_offered (document : Entries) :
    Ensures (fun _ => True)
      (List.Forall₂ (Offered.Becomes (.map document)) (offered document)) (endpoints document) := by
  refine (entriesAt_read document "paths").bind fun paths hPaths => ?_
  refine (Ensures.mapM_forall₂ fun e _ => pathEndpoints_offered (.map document) e.1 e.2).bind
    fun found hFound => ?_
  refine (remark_ensures (fun _ _ _ => trivial) _ _).bind fun _ _ => .pure ?_
  rw [offered, ← hPaths, List.flatMap_def]
  clear hPaths
  induction hFound with
  | nil => exact .nil
  | cons hFirst _ ih => exact List.rel_append hFirst ih

end

end Extract

end IntegrationCompiler
