import IntegrationCompiler.Proofs.Endpoint.Parameters
import IntegrationCompiler.Proofs.Value.Updates

/-!
# Which parameters override others

An operation overrides parameters of its path, so that each pair of a name and a location should
become one input, the operation's own where it has one. It does, as long as what is written in two
declarations is the same exactly if the same input is read from them; a declaration that does not
write its location can break this.

* `Extract.EachOnce` — each pair once, and the operation's own declarations win;
* `Extract.ReadAsWritten` — the two ways of reading names and locations agree;
* `Extract.parameters_override` — for every operation of a document, the one is so exactly if the
  other is.
-/

namespace IntegrationCompiler

open Resolving Value Resolver

namespace Extract

section

variable {document : Value} {p o : Entries}

/-- Each pair of a name and a location that is declared for an input is extracted once, from the
operation's own declaration if there is one. -/
structure EachOnce (document : Value) (shared own : List Entries) (found : List Parameter) :
    Prop where
  distinct : (found.map pairOf).Nodup
  declared : ∀ pair, pair ∈ found.map pairOf ↔ ∃ q ∈ shared ++ own, pair? q = some pair
  own_wins : ∀ p ∈ found, ∀ o ∈ own, pair? o = some (pairOf p) → Extracts document o p

/-- What is written in the declarations of an operation overrides an input of its path exactly if
one of them is read as the same input. -/
def ReadAsWritten (shared own : List Entries) : Prop :=
  ∀ p ∈ inputs shared, own.any (overrides · p) = true ↔ ∃ o ∈ own, pair? o = pair? p

theorem pair?_isSome (p : Entries) : (pair? p).isSome = (location? p).isSome :=
  Option.isSome_map

theorem mem_inputs {ps : List Entries} {pair : Value × Location} (hp : p ∈ ps)
    (hPair : pair? p = some pair) : p ∈ inputs ps := by
  refine List.mem_filter.mpr ⟨hp, ?_⟩
  rw [← pair?_isSome, hPair, Option.isSome_some]

theorem pairs_of_extracts {ps : List Entries} {found : List Parameter}
    (h : List.Forall₂ (Extracts document) (inputs ps) found) :
    found.map pairOf = ps.filterMap pair? := by
  have hPairs : ∀ {qs : List Entries} {found : List Parameter},
      List.Forall₂ (Extracts document) qs found → found.map pairOf = qs.filterMap pair? := by
    intro qs found hqs
    induction hqs with
    | nil => rfl
    | cons hFirst _ ih => rw [List.map_cons, List.filterMap_cons_some hFirst.pair, ih]
  rw [hPairs h, inputs, List.filterMap_filter]
  refine List.filterMap_congr fun p _ => ?_
  rw [← pair?_isSome]
  cases pair? p <;> rfl

/-- Where no value is met twice, it comes from one item only. -/
theorem eq_of_nodup_filterMap {α γ : Type} {f : α → Option γ} {xs : List α}
    (h : (xs.filterMap f).Nodup) {a b : α} {c : γ} (ha : a ∈ xs) (hb : b ∈ xs)
    (hfa : f a = some c) (hfb : f b = some c) : a = b := by
  induction xs with
  | nil => cases ha
  | cons x rest ih =>
    have hRest : (rest.filterMap f).Nodup :=
      h.sublist ((List.sublist_cons_self x rest).filterMap f)
    have hFirst {y : α} (hy : y ∈ rest) (hfx : f x = some c) (hfy : f y = some c) : False := by
      rw [List.filterMap_cons_some hfx] at h
      exact (List.nodup_cons.mp h).1 (List.mem_filterMap.mpr ⟨y, hy, hfy⟩)
    rcases List.mem_cons.mp ha with hax | hax
    · rcases List.mem_cons.mp hb with hbx | hbx
      · exact hax.trans hbx.symm
      · exact (hFirst hbx (hax ▸ hfa) hfb).elim
    · rcases List.mem_cons.mp hb with hbx | hbx
      · exact (hFirst hax (hbx ▸ hfb) hfa).elim
      · exact ih hRest hax hbx

section

variable {shared own : List Entries} {found : List Parameter}
  (hFound : List.Forall₂ (Extracts document) (inputs (merged shared own)) found)

include hFound in
theorem pairs_of_merged : found.map pairOf =
    (shared.filter fun p => !own.any (overrides · p)).filterMap pair? ++ own.filterMap pair? := by
  rw [pairs_of_extracts hFound, merged, List.filterMap_append]

theorem mem_kept {p : Entries} (hp : p ∈ shared) (hNot : own.any (overrides · p) = false) :
    p ∈ shared.filter fun p => !own.any (overrides · p) :=
  List.mem_filter.mpr ⟨hp, congrArg not hNot⟩

include hFound in
/-- A declaration of the operation that becomes an input is extracted. -/
theorem extracts_of_own {o : Entries} (ho : o ∈ own) {pair : Value × Location}
    (hPair : pair? o = some pair) : ∃ p ∈ found, Extracts document o p :=
  exists_right_of_mem hFound (mem_inputs (List.mem_append_right _ ho) hPair)

include hFound in
theorem nodup_pairs (hShared : (shared.filterMap pair?).Nodup) (hOwn : (own.filterMap pair?).Nodup)
    (hRead : ReadAsWritten shared own) : (found.map pairOf).Nodup := by
  rw [pairs_of_merged hFound, List.nodup_append]
  refine ⟨hShared.sublist (List.filter_sublist.filterMap _), hOwn, ?_⟩
  rintro pair hKept _ hOther rfl
  obtain ⟨p, hp, hPair⟩ := List.mem_filterMap.mp hKept
  obtain ⟨o, ho, hSame⟩ := List.mem_filterMap.mp hOther
  obtain ⟨hp, hNot⟩ := List.mem_filter.mp hp
  rw [(hRead p (mem_inputs hp hPair)).mpr ⟨o, ho, hSame.trans hPair.symm⟩] at hNot
  cases hNot

include hFound in
theorem mem_pairs (hRead : ReadAsWritten shared own) (pair : Value × Location) :
    pair ∈ found.map pairOf ↔ ∃ q ∈ shared ++ own, pair? q = some pair := by
  rw [pairs_of_merged hFound, List.mem_append, List.mem_filterMap, List.mem_filterMap]
  constructor
  · rintro (⟨q, hq, hPair⟩ | ⟨q, hq, hPair⟩)
    · exact ⟨q, List.mem_append_left _ (List.mem_of_mem_filter hq), hPair⟩
    · exact ⟨q, List.mem_append_right _ hq, hPair⟩
  · rintro ⟨q, hq, hPair⟩
    rcases List.mem_append.mp hq with hq | hq
    · -- a shared declaration is there itself, or the one that overrides it is
      cases hOver : own.any (overrides · q) with
      | false => exact Or.inl ⟨q, mem_kept hq hOver, hPair⟩
      | true =>
        obtain ⟨o, ho, hSame⟩ := (hRead q (mem_inputs hq hPair)).mp hOver
        exact Or.inr ⟨o, ho, hSame.trans hPair⟩
    · exact Or.inr ⟨q, hq, hPair⟩

include hFound in
theorem eachOnce_of_readAsWritten (hShared : (shared.filterMap pair?).Nodup)
    (hOwn : (own.filterMap pair?).Nodup) (hRead : ReadAsWritten shared own) :
    EachOnce document shared own found := by
  have hDistinct := nodup_pairs hFound hShared hOwn hRead
  refine ⟨hDistinct, mem_pairs hFound hRead, fun p hp o ho hPair => ?_⟩
  obtain ⟨p', hp', hExtracts⟩ := extracts_of_own hFound ho hPair
  have hSame := Option.some.inj (hPair.symm.trans hExtracts.pair)
  rw [List.inj_on_of_nodup_map hDistinct hp hp' hSame]
  exact hExtracts

include hFound in
theorem readAsWritten_of_eachOnce (hShared : (shared.filterMap pair?).Nodup)
    (h : EachOnce document shared own found) : ReadAsWritten shared own := by
  intro p hp
  have hPairs := pairs_of_merged hFound
  obtain ⟨hp, hInput⟩ := List.mem_filter.mp hp
  obtain ⟨pair, hPair⟩ := Option.isSome_iff_exists.mp ((pair?_isSome p).trans hInput)
  constructor
  · -- otherwise the pair of what is overridden would be nowhere
    intro hOver
    have hMem := (h.declared pair).mpr ⟨p, List.mem_append_left _ hp, hPair⟩
    rw [hPairs, List.mem_append, List.mem_filterMap, List.mem_filterMap] at hMem
    rcases hMem with ⟨q, hq, hSame⟩ | ⟨o, ho, hSame⟩
    · obtain ⟨hq, hNot⟩ := List.mem_filter.mp hq
      cases eq_of_nodup_filterMap hShared hp hq hPair hSame
      rw [hOver] at hNot
      cases hNot
    · exact ⟨o, ho, hSame.trans hPair.symm⟩
  · -- otherwise the pair would be there twice
    rintro ⟨o, ho, hSame⟩
    by_contra hNot
    have hDistinct := h.distinct
    rw [hPairs] at hDistinct
    refine (List.nodup_append.mp hDistinct).2.2 pair ?_ pair ?_ rfl
    · exact List.mem_filterMap.mpr ⟨p, mem_kept hp (Bool.eq_false_iff.mpr hNot), hPair⟩
    · exact List.mem_filterMap.mpr ⟨o, ho, hSame.trans hPair⟩

theorem ofName?_eq_some {s : String} {location : Location} :
    Location.ofName? s = some location ↔ s = location.name := by
  constructor
  · intro h
    unfold Location.ofName? at h
    have hName := List.find?_some h
    exact (eq_of_beq hName).symm
  · rintro rfl
    cases location <;> rfl

/-- A location that is written is read as it is written. -/
theorem location?_eq_some (h : Entries.has p "in" = true) {location : Location} :
    location? p = some location ↔ written p "in" = .str location.name := by
  obtain ⟨v, hv⟩ := Option.isSome_iff_exists.mp h
  unfold location? written
  rw [hv, Option.getD_some, Option.getD_some]
  split
  · rw [ofName?_eq_some]
    exact ⟨congrArg Value.str, fun hSame => Scalar.str.inj (Value.scalar.inj hSame)⟩
  · next hNoText => exact ⟨nofun, fun hSame => absurd hSame (hNoText _)⟩

theorem pair?_eq_some {name : Value} {location : Location} :
    pair? p = some (name, location) ↔ written p "name" = name ∧ location? p = some location := by
  rw [pair?, Option.map_eq_some_iff]
  constructor
  · rintro ⟨_, hLocation, hPair⟩
    cases hPair
    exact ⟨rfl, hLocation⟩
  · rintro ⟨rfl, hLocation⟩
    exact ⟨location, hLocation, rfl⟩

include hFound in
/-- An input of the operation has a text for its name, since it is extracted. -/
theorem exists_name {o : Entries} {location : Location} (ho : o ∈ own)
    (hOwn : location? o = some location) : ∃ name, written o "name" = .str name := by
  obtain ⟨p, -, hExtracts⟩ := extracts_of_own hFound ho (pair?_eq_some.mpr ⟨rfl, hOwn⟩)
  exact ⟨p.name, (pair?_eq_some.mp hExtracts.pair).1⟩

include hFound in
theorem readAsWritten_of_has (h : ∀ p ∈ shared ++ own, Entries.has p "in" = true) :
    ReadAsWritten shared own := by
  intro p hp
  obtain ⟨hp, hInput⟩ := List.mem_filter.mp hp
  obtain ⟨location, hLocation⟩ := Option.isSome_iff_exists.mp hInput
  have hIn := (location?_eq_some (h p (List.mem_append_left _ hp))).mp hLocation
  constructor
  · intro hOver
    obtain ⟨o, ho, hBoth⟩ := List.any_eq_true.mp hOver
    obtain ⟨hName, hSame⟩ := Bool.and_eq_true_iff.mp hBoth
    rw [hIn, same_str] at hSame
    have hOwn := (location?_eq_some (h o (List.mem_append_right _ ho))).mpr hSame
    obtain ⟨name, hOwnName⟩ := exists_name hFound ho hOwn
    rw [hOwnName, str_same] at hName
    refine ⟨o, ho, (pair?_eq_some.mpr ⟨hOwnName, hOwn⟩).trans ?_⟩
    exact (pair?_eq_some.mpr ⟨hName, hLocation⟩).symm
  · rintro ⟨o, ho, hSame⟩
    rw [show pair? p = some (written p "name", location) from pair?_eq_some.mpr ⟨rfl, hLocation⟩,
      pair?_eq_some] at hSame
    obtain ⟨hName, hOwn⟩ := hSame
    obtain ⟨name, hOwnName⟩ := exists_name hFound ho hOwn
    refine List.any_eq_true.mpr ⟨o, ho, Bool.and_eq_true_iff.mpr ⟨?_, ?_⟩⟩
    · rw [← hName, hOwnName, same_str]
    · rw [hIn, same_str]
      exact (location?_eq_some (h o (List.mem_append_right _ ho))).mp hOwn

end

end

/-- **Operations override the parameters of their paths.** Whatever a document is and whatever a
resolver has been used for, the endpoints that are extracted are those of the operations, in their
order, and where neither a path nor an operation declares an input twice, each declared input is
there once and the operation's own declaration wins, exactly if names and locations are read as they
are written. They are if every declaration writes its location. -/
theorem parameters_override {document : Entries} {found : List Endpoint} {s t : Session}
    (h : (endpoints document).on s = (.ok found, t)) :
    List.Forall₂ (fun o e => o.Becomes (.map document) e ∧
      (((o.shared (.map document)).filterMap pair?).Nodup →
        ((o.own (.map document)).filterMap pair?).Nodup →
        (EachOnce (.map document) (o.shared (.map document)) (o.own (.map document)) e.parameters ↔
          ReadAsWritten (o.shared (.map document)) (o.own (.map document)))) ∧
      ((∀ p ∈ o.shared (.map document) ++ o.own (.map document), Entries.has p "in" = true) →
        ReadAsWritten (o.shared (.map document)) (o.own (.map document))))
      (offered document) found := by
  have hBecomes := (endpoints_offered document s trivial).1 found (congrArg Prod.fst h)
  refine hBecomes.imp fun o e hOne => ⟨hOne, fun hShared hOwn => ⟨fun hEach => ?_, fun hRead => ?_⟩,
    fun hHas => readAsWritten_of_has hOne.parameters hHas⟩
  · exact readAsWritten_of_eachOnce hOne.parameters hShared hEach
  · exact eachOnce_of_readAsWritten hOne.parameters hShared hOwn hRead

/-- A document with one operation; its path and the operation itself declare parameters. -/
def itemList (shared own : List Value) : Entries :=
  [(.str "paths", .object [("/items", .object [("parameters", .list shared),
    ("get", .object [("parameters", .list own)])])])]

/-- Both declare the page that is asked for. -/
def pagedItems : Entries :=
  itemList [.object [("name", .str "page"), ("in", .str "query")]]
    [.object [("name", .str "page"), ("in", .str "query"), ("required", .bool true)]]

theorem parameters_override_pagedItems :
    ∃ found t, (endpoints pagedItems).on {} = (.ok found, t) ∧
      List.Forall₂ (fun o e => EachOnce (.map pagedItems) (o.shared (.map pagedItems))
        (o.own (.map pagedItems)) e.parameters) (offered pagedItems) found := by
  have hOk : ((endpoints pagedItems).on {}).1.isOk = true := by decide +kernel
  cases hRun : (endpoints pagedItems).on {} with
  | mk out t =>
    rw [hRun] at hOk
    cases out with
    | error e => cases hOk
    | ok found =>
      refine ⟨found, t, rfl, ?_⟩
      have hOverride := parameters_override hRun
      rw [show offered pagedItems = [_] from rfl] at hOverride ⊢
      cases hOverride with
      | cons hFirst hRest =>
        cases hRest
        obtain ⟨-, hEach, hHas⟩ := hFirst
        refine .cons ((hEach (List.nodup_singleton _) (List.nodup_singleton _)).mpr (hHas ?_)) .nil
        exact List.forall_mem_cons.mpr ⟨rfl, List.forall_mem_singleton.mpr rfl⟩

/-- The path does not write where the page goes. -/
def itemsOfSomePage : Entries :=
  itemList [.object [("name", .str "page")]]
    [.object [("name", .str "page"), ("in", .str "query"), ("required", .bool true)]]

theorem parameters_repeated :
    ∃ o, offered itemsOfSomePage = [o] ∧
      ((o.shared (.map itemsOfSomePage)).filterMap pair?).Nodup ∧
      ((o.own (.map itemsOfSomePage)).filterMap pair?).Nodup ∧
      ((endpoints itemsOfSomePage).on {}).1.toOption.map (·.map fun e =>
        e.parameters.map fun p => (p.name, p.location)) =
          some [[("page", .query), ("page", .query)]] :=
  ⟨_, rfl, List.nodup_singleton _, List.nodup_singleton _, by decide +kernel⟩

end Extract

end IntegrationCompiler
