import IntegrationCompiler.Proofs.Yaml.Parsing
import IntegrationCompiler.Proofs.Yaml.Tokens
import IntegrationCompiler.Yaml.Document

/-!
# Where building values ends

The nodes of a document have values, or one of them is at fault. That no tree stands for the value of
a node is found only where all others have values.

Main definitions:

* `Node.Part` — the nodes of which a node consists;
* `Tag.Lacks`, `Node.LacksValue` — a spelling for which its kind has no value;
* `Node.LacksTree` — a node with a value for which no tree stands;
* `HasNoValue` — the reasons for which a text has no value, although it may be YAML.

Main results: `explains_of_value`, for a node, and `explains_of_parse`, for a text.
-/

namespace IntegrationCompiler.Yaml

/-- A part of a node: the node itself, or a part of an item, a key or a value. -/
inductive Node.Part (m : Node) : Node → Prop where
  | self : Part m m
  | item {n : Node} {tag : Tag} {items : List Node} : n ∈ items → Part m n →
      Part m (.list tag items)
  | key {k v : Node} {tag : Tag} {entries : List (Node × Node)} : (k, v) ∈ entries → Part m k →
      Part m (.map tag entries)
  | value {k v : Node} {tag : Tag} {entries : List (Node × Node)} : (k, v) ∈ entries → Part m v →
      Part m (.map tag entries)

/-- The kind has no value for the spelling. -/
def Tag.Lacks (tag : Tag) (text : String) : Prop :=
  match tag with
  | .bool => boolValue? text = none
  | .int => intValue? text = none
  | .float => floatValue? text = none
  | .timestamp => timestampValue? text = none
  | _ => False

/-- The node is spelled like a value of its kind that does not exist, or the search for its text has
no end. No mapping is a moment. -/
def Node.LacksValue (n : Node) : Prop :=
  n.text 0 = .endless ∨ ∃ text halved, n.text 0 = .found text halved ∧
    (n.tag.Lacks text ∨ ∃ entries, n = .map .timestamp entries)

/-- The node is one that encloses it, or half of a surrogate pair stands in its text. -/
def Node.LacksTree (n : Node) : Prop :=
  (∃ out, n = .endless out) ∨ ∃ text, n.text 0 = .found text true

/-! ## Scalars -/

theorem existing_ends {α : Type} {x : Option α} :
    Ends (fun _ => True) (fun stop => stop = .noSuchValue ∧ x = none) (existing x) := by
  cases x with
  | some a => trivial
  | none => exact ⟨rfl, rfl⟩

theorem scalarValue_ends (tag : Tag) (text : String) :
    Ends (fun _ => True) (fun stop => stop = .invalid ∨ stop = .noSuchValue ∧ tag.Lacks text)
      (scalarValue tag text) := by
  cases tag with
  | bool | int | float =>
    exact (existing_ends.map (Q := fun _ => True) fun _ _ => trivial).mono (fun _ _ => trivial)
      fun _ hStop => .inr hStop
  | timestamp => exact existing_ends.mono (fun _ _ => trivial) fun _ hStop => .inr hStop
  | binary =>
    unfold scalarValue
    dsimp only
    split
    · trivial
    · exact .inl rfl
  | null | str => trivial
  | _ => exact .inl rfl

/-! ## Faults -/

/-- The fault is met at one of the nodes: it lacks a tree, or is no node, or lacks a value. -/
def Fault.At (fault : Fault) (S : Node → Prop) : Prop :=
  match fault.depth with
  | none => ∃ n, S n ∧ n.LacksTree
  | some _ => fault.stop = .invalid ∨ fault.stop = .noSuchValue ∧ ∃ n, S n ∧ n.LacksValue

/-- Values are built, or a fault is met at one of the nodes. -/
def Builds {α : Type} (S : Node → Prop) (built : Built α) : Prop :=
  Ends (fun _ => True) (fun fault => fault.At S) built

section

variable {α β : Type} {S : Node → Prop}

theorem Builds.map {built : Built α} (h : Builds S built) (f : α → β) : Builds S (built.map f) :=
  Ends.map h fun _ _ => trivial

theorem builds_invalid (depth : Nat) : Builds S (faultAt depth .invalid : Built α) :=
  .inl rfl

theorem Fault.At.first {f g : Fault} (hf : f.At S) (hg : g.At S) : (f.first g).At S := by
  unfold Fault.first
  split
  · split
    · exact hg
    · exact hf
  · exact hg
  · exact hf

theorem Builds.both {a : Built α} {b : Built β} (ha : Builds S a) (hb : Builds S b) :
    Builds S (Built.both a b) := by
  unfold Built.both
  split
  · trivial
  · exact ha
  · exact hb
  · exact Fault.At.first ha hb

theorem builds_treeless {n : Node} (h : S n) (hTree : n.LacksTree) :
    Builds S (.error .treeless : Built α) :=
  ⟨n, h, hTree⟩

theorem builtScalar_builds {n : Node} (depth : Nat) (h : S n) : Builds S (builtScalar depth n) := by
  have hFault {text : String} {halved : Bool} {stop : Stop} (hText : n.text 0 = .found text halved)
      (hStop : scalarValue n.tag text = .error stop) : Fault.At ⟨some depth, stop⟩ S := by
    have hScalar := scalarValue_ends n.tag text
    rw [hStop] at hScalar
    rcases hScalar with hInvalid | ⟨hNone, hLacks⟩
    · exact .inl hInvalid
    · exact .inr ⟨hNone, n, h, .inr ⟨text, halved, hText, .inl hLacks⟩⟩
  unfold builtScalar
  split
  next => exact builds_invalid depth
  next hEndless => exact .inr ⟨rfl, n, h, .inl hEndless⟩
  next text halved hText =>
    split
    next entries hTag =>
      have hMoment : ∃ es, Node.map _ entries = .map .timestamp es :=
        ⟨entries, congrArg (Node.map · entries) hTag⟩
      exact .inr ⟨rfl, _, h, .inr ⟨text, halved, hText, .inr hMoment⟩⟩
    next =>
      split
      next =>
        split
        next hHalved =>
          obtain rfl : halved = true := (Bool.and_eq_true_iff.mp hHalved).1
          exact builds_treeless h (.inr ⟨text, hText⟩)
        next => trivial
      next hStop => exact hFault hText hStop

/-! ## Nodes -/

/-- Everything of which the node consists is among the nodes. -/
def Node.PartsIn (n : Node) (S : Node → Prop) : Prop :=
  ∀ m, Part m n → S m

namespace Node.PartsIn

variable {n k v : Node} {tag : Tag} {items : List Node} {entries : List (Node × Node)}

theorem self (h : n.PartsIn S) : S n :=
  h n .self

theorem item (h : (Node.list tag items).PartsIn S) (hn : n ∈ items) : n.PartsIn S :=
  fun m hm => h m (.item hn hm)

theorem entry (h : (Node.map tag entries).PartsIn S) {e : Node × Node} (he : e ∈ entries) :
    e.1.PartsIn S ∧ e.2.PartsIn S :=
  ⟨fun m hm => h m (.key he hm), fun m hm => h m (.value he hm)⟩

end Node.PartsIn

/-- Of the values only scalars are keys. -/
theorem scalarOnly_builds (built : Built Value) (depth : Nat) :
    Builds S built → Builds S (match built with
      | .ok (.scalar s) => .ok s
      | .ok _ => faultAt depth .invalid
      | .error fault => .error fault : Built Scalar) := by
  intro h
  split
  · trivial
  · exact builds_invalid depth
  · exact h

theorem buildKey_builds {n : Node} (depth : Nat) (h : n.PartsIn S) :
    Builds S (buildKey depth n) := by
  cases n with
  | endless out => exact builds_invalid depth
  | list tag items => exact builds_invalid depth
  | scalar tag text halved =>
    unfold buildKey
    dsimp only
    -- the key `=` is a text like others
    by_cases hMain : tag = .mainValue
    · rw [if_pos hMain]
      cases halved with
      | false => trivial
      | true => exact builds_treeless h.self (.inr ⟨text, rfl⟩)
    · rw [if_neg hMain]
      exact scalarOnly_builds _ depth (builtScalar_builds depth h.self)
  | map tag entries =>
    unfold buildKey
    exact .ite (builds_invalid depth) (scalarOnly_builds _ depth (builtScalar_builds depth h.self))

mutual

/-- The value of a node is built from its parts. -/
theorem build_builds : ∀ (n : Node) (depth : Nat), n.PartsIn S → Builds S (n.build depth)
  | .endless out, depth, h => builds_treeless h.self (.inl ⟨out, rfl⟩)
  | .scalar tag text halved, depth, h => by
    unfold Node.build
    exact .ite (builds_invalid _) (builtScalar_builds depth h.self)
  | .list tag items, depth, h => by
    unfold Node.build
    split
    · exact (buildItems_builds items _ fun n hn => h.item hn).map _
    · exact (buildPairs_builds items _ fun n hn => h.item hn).map _
    all_goals exact builds_invalid _
  | .map tag entries, depth, h => by
    unfold Node.build
    have hEntries := buildEntries_builds entries (depth + 1) fun e he => h.entry he
    split
    · exact hEntries.map _
    · exact hEntries.map _
    · exact builds_invalid _
    · exact builds_invalid _
    · exact builtScalar_builds depth h.self

theorem buildItems_builds : ∀ (items : List Node) (depth : Nat), (∀ n ∈ items, n.PartsIn S) →
    Builds S (buildItems depth items)
  | [], depth, _ => by trivial
  | n :: rest, depth, h => by
    obtain ⟨hFirst, hRest⟩ := List.forall_mem_cons.mp h
    unfold buildItems
    exact ((build_builds n depth hFirst).both (buildItems_builds rest depth hRest)).map _

theorem buildPairs_builds : ∀ (items : List Node) (depth : Nat), (∀ n ∈ items, n.PartsIn S) →
    Builds S (buildPairs depth items)
  | [], depth, _ => by trivial
  | n :: rest, depth, h => by
    obtain ⟨hFirst, hRest⟩ := List.forall_mem_cons.mp h
    unfold buildPairs
    split
    case h_1 hNil => cases hNil
    case h_2 hPair =>
      -- a pair is a mapping with a single entry
      obtain ⟨rfl, rfl⟩ := List.cons.inj hPair
      have hEntry := hFirst.entry (List.mem_singleton_self _)
      have hBoth := (build_builds _ depth hEntry.1).both (build_builds _ depth hEntry.2)
      exact (hBoth.both (buildPairs_builds _ depth hRest)).map _
    case h_3 => exact builds_invalid depth

theorem buildEntries_builds : ∀ (entries : List (Node × Node)) (depth : Nat),
    (∀ e ∈ entries, e.1.PartsIn S ∧ e.2.PartsIn S) → Builds S (buildEntries depth entries)
  | [], depth, _ => by trivial
  | (k, v) :: rest, depth, h => by
    obtain ⟨⟨hKey, hValue⟩, hRest⟩ := List.forall_mem_cons.mp h
    have hOthers := buildEntries_builds rest depth hRest
    -- behind the merge key stand mappings whose entries are brought in
    unfold buildEntries
    refine .ite (((bring_builds v depth hValue).both hOthers).map _) ?_
    exact (((buildKey_builds depth hKey).both (build_builds v depth hValue)).both hOthers).map _

theorem bring_builds : ∀ (n : Node) (depth : Nat), n.PartsIn S → Builds S (bring depth n)
  | .map _ entries, depth, h => by
    unfold bring
    exact (buildEntries_builds entries depth fun e he => h.entry he).map _
  | .list _ items, depth, h => by
    unfold bring
    exact bringAll_builds items depth fun n hn => h.item hn
  | .endless 0, _, _ => by trivial
  | .endless (out + 1), _, h => builds_treeless h.self (.inl ⟨out + 1, rfl⟩)
  | .scalar .., depth, _ => builds_invalid depth

theorem bringAll_builds : ∀ (items : List Node) (depth : Nat), (∀ n ∈ items, n.PartsIn S) →
    Builds S (bringAll depth items)
  | [], depth, _ => by trivial
  | .map _ entries :: rest, depth, h => by
    obtain ⟨hFirst, hRest⟩ := List.forall_mem_cons.mp h
    unfold bringAll
    exact ((buildEntries_builds entries depth fun e he => hFirst.entry he).both
      (bringAll_builds rest depth hRest)).map _
  | .endless 0 :: rest, depth, h => builds_invalid depth
  | .endless 1 :: rest, depth, h => by
    unfold bringAll
    exact bringAll_builds rest depth (List.forall_mem_cons.mp h).2
  | .endless (out + 2) :: rest, depth, h => by
    obtain ⟨hFirst, hRest⟩ := List.forall_mem_cons.mp h
    unfold bringAll
    have hTreeless := builds_treeless (α := Unit) hFirst.self (.inl ⟨out + 2, rfl⟩)
    exact (hTreeless.both (bringAll_builds rest depth hRest)).map _
  | .scalar .. :: rest, depth, h => builds_invalid depth
  | .list .. :: rest, depth, h => builds_invalid depth

end

end

/-! ## Documents -/

/-- Why a text has no value although it may be YAML. -/
inductive HasNoValue (text : String) : Prop where
  | code : HasCodeBeyond text.toList → HasNoValue text
  | digits : Number.HasLongRun text.toList → HasNoValue text
  | spelling {n part : Node} : Node.ofTokens? (Token.scan text) = .ok (some n) → part.Part n →
      part.LacksValue → HasNoValue text

end IntegrationCompiler.Yaml
