import IntegrationCompiler.Proofs.Number.Numeral
import IntegrationCompiler.Proofs.Reference.Termination
import IntegrationCompiler.Proofs.Text.Replacement
import IntegrationCompiler.Proofs.Text.Cutting

/-!
# Pointers that lead back

A pointer that is written along a path through a document is followed along the same path. Its
segments are split at slashes, so a slash in a key is escaped, and so is the tilde that marks what
is escaped; reading takes the two back one after another, in an order that never takes a tilde of
the key for a mark.

Main definitions:

* `Pointer.Branch`, `Pointer.LeadsTo` — a path through a value, by keys and indexes;
* `Pointer.ofPath` — the pointer that is written along a path.

Main results:

* `Pointer.escape_eq_replaceAll` — escaping is two replacements, tildes first;
* `Pointer.unescape_escape` — every key is read back from its segment;
* `Pointer.segments?_ofPath` — and every path from its pointer;
* `Resolver.pointers_lead_back` — a pointer resolves to what its path leads to.
-/

namespace IntegrationCompiler

/-! ## Keys -/

/-- One character is replaced wherever it stands. -/
theorem Text.replaceAll_singleton (a : Char) (new cs : List Char) :
    replaceAll [a] new cs = cs.flatMap fun c => if c = a then new else [c] := by
  rw [replaceAll_eq_replaceEach]
  induction cs with
  | nil => simp
  | cons c rest ih =>
    rw [List.flatMap_cons, ← ih]
    by_cases hHere : c = a
    · subst hHere
      rw [if_pos rfl]
      exact replaceEach_append (List.cons_ne_nil c []) (by simp)
    · have hNone : ∀ pair ∈ [([a], new)], ¬ pair.1 <+: c :: rest := by
        simpa using Ne.symm hHere
      rw [if_neg hHere, replaceEach_cons hNone, List.singleton_append]

namespace Pointer

variable {a b one : Char}

/-- A key whose tildes are escaped, while its slashes still stand. -/
def escapeTildes (key : List Char) : List Char :=
  Text.replaceAll ['~'] ['~', '0'] key

/-- The tildes are escaped before the slashes, or else the marks of the slashes would be escaped as
well. -/
theorem escape_eq_replaceAll (key : List Char) :
    escape key = Text.replaceAll ['/'] ['~', '1'] (escapeTildes key) := by
  rw [escapeTildes, Text.replaceAll_singleton, Text.replaceAll_singleton, List.flatMap_assoc,
    escape]
  refine List.flatMap_congr fun c _ => ?_
  by_cases hTilde : c = '~'
  · subst hTilde
    decide
  · rw [if_neg hTilde, List.flatMap_singleton]
    by_cases hSlash : c = '/'
    · subst hSlash
      decide
    · rw [if_neg hSlash]
      -- every other character stands for itself
      unfold escapeChar
      split
      · exact absurd rfl hTilde
      · exact absurd rfl hSlash
      · rfl

theorem escapeTildes_cons (c : Char) (rest : List Char) : escapeTildes (c :: rest) =
    (if c = '~' then ['~', '0'] else [c]) ++ escapeTildes rest := by
  rw [escapeTildes, escapeTildes, Text.replaceAll_singleton, Text.replaceAll_singleton,
    List.flatMap_cons]

/-- A pair is not found where its first character does not stand. -/
theorem replacePair_cons_of_ne {c : Char} (h : c ≠ a) (rest : List Char) :
    replacePair a b one (c :: rest) = c :: replacePair a b one rest := by
  cases rest with
  | nil => rfl
  | cons d rest =>
    have hNot : ¬ (c = a ∧ d = b) := fun hPair => h hPair.1
    rw [replacePair]
    simp [hNot]

theorem replacePair_eq_self {cs : List Char} (h : a ∉ cs) : replacePair a b one cs = cs := by
  induction cs with
  | nil => rfl
  | cons c rest ih =>
    obtain ⟨hFirst, hRest⟩ := not_or.mp fun hMem => h (List.mem_cons.mpr hMem)
    rw [replacePair_cons_of_ne (Ne.symm hFirst), ih hRest]

/-- The first replacement takes the slashes back. No tilde of the key is taken for a mark, since it
is followed by a zero. -/
theorem replacePair_escape (key : List Char) :
    replacePair '~' '1' '/' (escape key) = escapeTildes key := by
  induction key with
  | nil => rfl
  | cons c rest ih =>
    have hCons : escape (c :: rest) = escapeChar c ++ escape rest := List.flatMap_cons ..
    rw [hCons, escapeTildes_cons, ← ih]
    unfold escapeChar
    split
    · -- a tilde: neither it nor its zero begins a slash
      show replacePair '~' '1' '/' ('~' :: '0' :: escape rest) = _
      rw [replacePair, if_neg (by decide), replacePair_cons_of_ne (by decide), if_pos rfl]
      rfl
    · -- a slash
      show replacePair '~' '1' '/' ('~' :: '1' :: escape rest) = _
      rw [replacePair, if_pos (by decide), if_neg (by decide), List.singleton_append]
    · next hTilde _ =>
      have hOther : c ≠ '~' := fun hSame => hTilde hSame
      rw [List.singleton_append, replacePair_cons_of_ne hOther, if_neg hOther,
        List.singleton_append]

/-- The second replacement takes the tildes back. -/
theorem replacePair_escapeTildes (key : List Char) :
    replacePair '~' '0' '~' (escapeTildes key) = key := by
  induction key with
  | nil => rfl
  | cons c rest ih =>
    rw [escapeTildes_cons]
    by_cases hTilde : c = '~'
    · subst hTilde
      show replacePair '~' '0' '~' ('~' :: '0' :: escapeTildes rest) = _
      rw [replacePair, if_pos (by decide), ih]
    · rw [if_neg hTilde, List.singleton_append, replacePair_cons_of_ne hTilde, ih]

/-- **Every key is read back from its segment**, whatever tildes, slashes and digits it holds. -/
theorem unescape_escape (key : List Char) : unescape (escape key) = key := by
  rw [unescape, replacePair_escape, replacePair_escapeTildes]

/-- A segment without tildes is read as it is. -/
theorem unescape_eq_self {segment : List Char} (h : '~' ∉ segment) : unescape segment = segment := by
  rw [unescape, replacePair_eq_self h, replacePair_eq_self h]

theorem slash_not_mem_escape (key : List Char) : '/' ∉ escape key := by
  intro hMem
  obtain ⟨c, -, hSlash⟩ := List.mem_flatMap.mp hMem
  unfold escapeChar at hSlash
  split at hSlash
  · exact absurd hSlash (by decide)
  · exact absurd hSlash (by decide)
  · next hOther => exact hOther (List.mem_singleton.mp hSlash).symm

/-! ## Paths -/

/-- One turn of a path: to what a mapping has under a key, or to an item of a list. -/
inductive Branch where
  | key (name : String)
  | index (i : Nat)
  deriving DecidableEq, Repr

/-- A path leads from one value to another. -/
inductive LeadsTo : Value → List Branch → Value → Prop where
  | nil (v : Value) : LeadsTo v [] v
  | key {entries : Entries} {name : String} {inner v : Value} {path : List Branch} :
    Entries.get? entries name = some inner → LeadsTo inner path v →
    LeadsTo (.map entries) (.key name :: path) v
  | index {items : List Value} {i : Nat} {inner v : Value} {path : List Branch} :
    items[i]? = some inner → LeadsTo inner path v → LeadsTo (.list items) (.index i :: path) v

namespace Branch

/-- A turn as a segment of a pointer: a key is escaped, an index is written in decimal. -/
def text : Branch → List Char
  | .key name => escape name.toList
  | .index i => Nat.toDigits 10 i

/-- What a segment is read as. -/
def segment : Branch → String
  | .key name => name
  | .index i => String.ofList (Nat.toDigits 10 i)

/-- Whether an index has no more digits than a numeral may have. No list is so long that the index
of an item has more. -/
def IsShort : Branch → Prop
  | .key _ => True
  | .index i => (Nat.toDigits 10 i).length ≤ Number.maxIntegerDigits

theorem not_mem_toDigits {c : Char} (h : Number.isAsciiDigit c = false) (i : Nat) :
    c ∉ Nat.toDigits 10 i := by
  intro hMem
  rw [Number.isAsciiDigit_of_mem_toDigits hMem] at h
  cases h

theorem slash_not_mem_text (branch : Branch) : '/' ∉ branch.text := by
  cases branch with
  | key name => exact slash_not_mem_escape name.toList
  | index i => exact not_mem_toDigits (by decide) i

theorem unescape_text (branch : Branch) : String.ofList (unescape branch.text) = branch.segment := by
  cases branch with
  | key name => rw [text, segment, unescape_escape, String.ofList_toList]
  | index i => rw [text, segment, unescape_eq_self (not_mem_toDigits (by decide) i)]

end Branch

/-- The pointer along a path. -/
def ofPath (path : List Branch) : String :=
  "#/" ++ "/".intercalate (path.map fun branch => String.ofList branch.text)

theorem ofPath_keys (keys : List String) : ofPath (keys.map .key) = toKeys keys := by
  rw [ofPath, List.map_map]
  rfl

theorem ofPath_toList (path : List Branch) :
    (ofPath path).toList = '#' :: '/' :: ['/'].intercalate (path.map Branch.text) := by
  have hTexts : (path.map fun branch => String.ofList branch.text).map String.toList =
      path.map Branch.text := by
    rw [List.map_map]
    exact List.map_congr_left fun branch _ => String.toList_ofList
  rw [ofPath, String.toList_append, String.toList_intercalate, hTexts]
  rfl

/-- **Every path is read back from its pointer.** -/
theorem segments?_ofPath {path : List Branch} (hSome : path ≠ []) :
    segments? (ofPath path) = some (path.map Branch.segment) := by
  have hSplit : Text.splitAt '/' (['/'].intercalate (path.map Branch.text)) =
      path.map Branch.text := by
    refine Text.splitAt_intercalate (by simpa using hSome) fun piece hPiece => ?_
    obtain ⟨branch, -, rfl⟩ := List.mem_map.mp hPiece
    exact branch.slash_not_mem_text
  rw [segments?, ofPath_toList]
  simp only [hSplit, List.map_map]
  exact congrArg some (List.map_congr_left fun branch _ => branch.unescape_text)

/-! ## Following a path -/

theorem isDigitLike_of_isAsciiDigit {c : Char} (h : Number.isAsciiDigit c = true) :
    Text.isDigitLike c = true := by
  obtain ⟨hLow, hHigh⟩ := Number.isAsciiDigit_iff.mp h
  have hFind : (Text.digitValue? c).isSome = true := by
    rw [Text.digitValue?, Text.zeroDigits, List.find?_cons_of_pos (by simp; omega)]
    rfl
  rw [Text.isDigitLike, hFind, Bool.true_or]

/-- An item of a list is found under its index. -/
theorem child_index {items : List Value} {i : Nat} {v : Value} (h : items[i]? = some v)
    (hShort : (Branch.index i).IsShort) :
    child (.list items) (Branch.index i).segment = .value v := by
  have hText : (Branch.index i).segment.toList = (intText (i : Int)).toList := by
    rw [intText_toList, if_neg (by omega)]
    exact String.toList_ofList
  have hDigits : (Nat.toDigits 10 i).all Text.isDigitLike = true :=
    List.all_eq_true.mpr fun c hc =>
      isDigitLike_of_isAsciiDigit (Number.isAsciiDigit_of_mem_toDigits hc)
  have hIndex : Number.integerOfNumeral? (Branch.index i).segment.toList = some (i : Int) := by
    rw [hText]
    exact Number.integerOfNumeral?_intText (Number.length_toDigits_le_iff.mp hShort)
  have hSegment : (Branch.index i).segment.toList = Nat.toDigits 10 i := String.toList_ofList
  have hEmpty : (Nat.toDigits 10 i).isEmpty = false :=
    List.isEmpty_eq_false_iff.mpr Nat.toDigits_ne_nil
  rw [child]
  simp only [hIndex]
  simp [hSegment, hDigits, hEmpty, h]

/-- The segments of a path lead where the path leads. -/
theorem LeadsTo.find {v w : Value} {path : List Branch} (h : LeadsTo v path w)
    (hShort : ∀ branch ∈ path, branch.IsShort) : find v (path.map Branch.segment) = .value w := by
  induction h with
  | nil => rfl
  | @key entries name inner v path hGet _ ih =>
    have hChild : child (.map entries) name = .value inner := by
      rw [child]
      simp only [hGet]
    rw [List.map_cons, Pointer.find, Branch.segment, hChild]
    exact ih fun branch hBranch => hShort branch (List.mem_cons_of_mem _ hBranch)
  | @index items i inner v path hItem _ ih =>
    obtain ⟨hFirst, hRest⟩ := List.forall_mem_cons.mp hShort
    rw [List.map_cons, Pointer.find, child_index hItem hFirst]
    exact ih hRest

end Pointer

namespace Resolver

open Pointer Resolving Value

/-- What is looked up is found at once, and nothing is remarked. -/
theorem lookup_ofPath {document v : Value} {path : List Branch} (hSome : path ≠ [])
    (h : LeadsTo document path v) (hShort : ∀ branch ∈ path, branch.IsShort) (s : Session) :
    (lookup document (ofPath path)).on s = (.ok v, s) := by
  rw [lookup, segments?_ofPath hSome]
  simp only [h.find hShort]
  rfl

/-- The path to a named schema. -/
def componentPath (name : String) : List Branch :=
  [.key "components", .key "schemas", .key name]

theorem componentPath_ne_nil (name : String) : componentPath name ≠ [] :=
  List.cons_ne_nil _ _

theorem ofPath_componentPath (name : String) : ofPath (componentPath name) = componentRef name :=
  ofPath_keys ["components", "schemas", name]

/-- Different schemas have different references. -/
theorem componentRef_injective : Function.Injective componentRef := by
  intro name other hSame
  have hSegments : segments? (componentRef name) = segments? (componentRef other) := by rw [hSame]
  rw [← ofPath_componentPath, ← ofPath_componentPath, segments?_ofPath (componentPath_ne_nil name),
    segments?_ofPath (componentPath_ne_nil other)] at hSegments
  simpa [componentPath, Branch.segment] using hSegments

section

variable {es components schemas : Entries}
  (hComponents : Entries.get? es "components" = some (.map components))
  (hSchemas : Entries.get? components "schemas" = some (.map schemas))

include hComponents hSchemas

/-- The named schemas are visited by their names, in the order of the document. -/
theorem componentNames_eq : componentNames es = pure (schemas.map fun e => .scalar e.1) := by
  rw [componentNames, hComponents]
  simp only [pure_bind, hSchemas]
  rfl

theorem leadsTo_componentPath {name : String} {schema : Value}
    (h : Entries.get? schemas name = some schema) :
    LeadsTo (.map es) (componentPath name) schema :=
  .key hComponents (.key hSchemas (.key h (.nil schema)))

/-- What is collected under a name was found by following the reference to that name. -/
theorem mem_collectSchemas {follow : String → Resolving (Option Entries)} {s : Session}
    {collected : Entries} (h : ((collectSchemas follow es).on s).1 = .ok collected) :
    ∀ e ∈ collected, ∃ name schema found s', Entries.get? schemas name = some schema ∧
      e = (.str name, .map found) ∧
      ((follow (componentRef name)).on s').1 = .ok (some found) := by
  have hRun : Ensures (fun _ => True) (fun collected : Entries => ∀ e ∈ collected,
      ∃ name schema found s', Entries.get? schemas name = some schema ∧
        e = (.str name, .map found) ∧
        ((follow (componentRef name)).on s').1 = .ok (some found)) (collectSchemas follow es) := by
    rw [collectSchemas, componentNames_eq hComponents hSchemas, pure_bind]
    refine Ensures.foldlM (by simp) fun acc hAcc name hName => ?_
    split
    · next text =>
      obtain ⟨⟨k, v⟩, hMem, hKey⟩ := List.mem_map.mp hName
      cases hKey
      obtain ⟨schema, hSchema⟩ : ∃ schema, Entries.get? schemas text = some schema := by
        refine Option.ne_none_iff_exists'.mp fun hNone => ?_
        exact Entries.get?_eq_none_iff.mp hNone v hMem
      have hFollow : Ensures (fun _ => True)
          (fun found => ∃ s', ((follow (componentRef text)).on s').1 = .ok found)
          (follow (componentRef text)) := fun s' _ => ⟨fun _ hFound => ⟨s', hFound⟩, trivial⟩
      refine hFollow.bind fun found hFound => ?_
      cases found with
      | none => exact .pure hAcc
      | some found =>
        obtain ⟨s', hFound⟩ := hFound
        refine .pure fun e he => ?_
        obtain ⟨k, w⟩ := e
        rcases Entries.mem_put he with ⟨rfl, hKey⟩ | hOld
        · have hText : k = .str text := hKey.elim id Scalar.same_str.mp
          exact ⟨text, schema, found, s', hSchema, by rw [hText], hFound⟩
        · exact hAcc _ hOld
    · exact .throw .malformed
  exact (hRun s trivial).1 collected h

end

/-- **Every pointer that is written along a path leads back to the value at its end.** The path may
go through keys of any characters and through items of lists, whose indexes are written in decimal.
In particular the named schemas of a document are visited name by name, what is looked up for a name
is the schema that stands under it, what is collected under a name was found by following the
reference to that name, and no two names have the same reference. -/
theorem pointers_lead_back (document : Value) :
    (∀ path v, path ≠ [] → LeadsTo document path v → (∀ branch ∈ path, branch.IsShort) →
      ∀ s, (lookup document (ofPath path)).on s = (.ok v, s)) ∧
    (∀ es components schemas, document = .map es →
      Entries.get? es "components" = some (.map components) →
      Entries.get? components "schemas" = some (.map schemas) →
      componentNames es = pure (schemas.map fun e => .scalar e.1) ∧
      (∀ name schema, Entries.get? schemas name = some schema →
        ∀ s, (lookup document (componentRef name)).on s = (.ok schema, s)) ∧
      ∀ s collected, ((componentSchemas es).on s).1 = .ok collected →
        ∀ e ∈ collected, ∃ name schema found s', Entries.get? schemas name = some schema ∧
          e = (.str name, .map found) ∧
          ((resolve document (ofRef (componentRef name))).on s').1 = .ok (some found)) ∧
    Function.Injective componentRef := by
  refine ⟨fun path v hSome h hShort => lookup_ofPath hSome h hShort, ?_, componentRef_injective⟩
  rintro es components schemas rfl hComponents hSchemas
  refine ⟨componentNames_eq hComponents hSchemas, fun name schema hSchema => ?_, ?_⟩
  · rw [← ofPath_componentPath]
    refine lookup_ofPath (componentPath_ne_nil name)
      (leadsTo_componentPath hComponents hSchemas hSchema) ?_
    -- the path has keys only
    simp [componentPath, Branch.IsShort]
  · intro s collected hCollected
    rw [componentSchemas_eq] at hCollected
    exact mem_collectSchemas hComponents hSchemas hCollected

/-- A document whose keys have the marks of escaping in them. -/
def trickyKeys : Entries := [
  (.str "~1", .object [("", .list [.null, .object [("a/~0", .str "end")]])]),
  (.str "components", .object [("schemas", .object [
    ("~1", .object [("type", .str "integer")]), ("/", .object [("type", .str "string")])])])]

/-- A tilde with a digit is told from an escaped slash, in paths and in names of schemas. -/
theorem pointers_lead_back_trickyKeys :
    (∀ s, (lookup (.map trickyKeys) "#/~01//1/a~1~00").on s = (.ok (.str "end"), s)) ∧
    (∀ s, (lookup (.map trickyKeys) "#/components/schemas/~01").on s =
      (.ok (.object [("type", .str "integer")]), s)) := by
  obtain ⟨hPaths, hNamed, -⟩ := pointers_lead_back (.map trickyKeys)
  constructor
  · have hPointer : ofPath [.key "~1", .key "", .index 1, .key "a/~0"] = "#/~01//1/a~1~00" := by
      decide +kernel
    rw [← hPointer]
    exact hPaths _ _ (List.cons_ne_nil _ _)
      (.key rfl (.key rfl (.index rfl (.key rfl (.nil _))))) (by simp [Branch.IsShort]; decide)
  · have hRef : componentRef "~1" = "#/components/schemas/~01" := by decide +kernel
    rw [← hRef]
    exact (hNamed _ _ _ rfl rfl rfl).2.1 "~1" _ rfl

end Resolver

end IntegrationCompiler
