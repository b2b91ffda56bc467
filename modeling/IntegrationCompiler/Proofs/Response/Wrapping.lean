import IntegrationCompiler.Operation.OfEndpoint
import IntegrationCompiler.Proofs.Diagnostics.Returns
import IntegrationCompiler.Proofs.Text.Case
import IntegrationCompiler.Response.Shaping

/-!
# Lists under a key

Where an endpoint answers with a list, its action puts the list under the plural of the noun. There
always is such a key: what is cut off an operation id may leave nothing of it, but then the noun
comes from the path, and the singular of a segment has a first character.

* `IsNoun` — a text that has a first character, which is a capital;
* `nounOf_isNoun` — the noun of every operation is one, also where nothing is left of its id;
* `exists_beforeLast` — the plural of a noun of several characters sees the one before the last;
* `ResponsePlan.ofEndpoint_list`, `ResponsePlan.shape_wrapping` — how a list is planned and wrapped;
* `lists_are_wrapped` puts this together.
-/

namespace IntegrationCompiler

open Text

/-! ## Nouns -/

/-- A text that had a first character, which was put in upper case. -/
def IsNoun (noun : List Char) : Prop :=
  ∃ text, text ≠ [] ∧ noun = upperFirst text

section

variable {cs noun : List Char}

theorem isNoun_upperFirst (h : cs ≠ []) : IsNoun (upperFirst cs) :=
  ⟨cs, h, rfl⟩

theorem isNoun_item : IsNoun ['I', 't', 'e', 'm'] :=
  ⟨['i', 't', 'e', 'm'], by decide, by decide⟩

theorem isNoun_user : IsNoun ['U', 's', 'e', 'r'] :=
  ⟨['u', 's', 'e', 'r'], by decide, by decide⟩

theorem IsNoun.ne_nil (h : IsNoun noun) : noun ≠ [] := by
  obtain ⟨text, hSome, rfl⟩ := h
  cases text with
  | nil => exact absurd rfl hSome
  | cons c rest =>
    rw [upperFirst]
    intro hNil
    exact upperChar_ne_nil c (List.append_eq_nil_iff.mp hNil).1

/-- The singular of a word is a word, also of one that is nothing but an ending. -/
theorem singularize_ne_nil (h : cs ≠ []) : singularize cs ≠ [] := by
  unfold singularize
  split
  · -- an `ies` becomes a `y`, whatever stands before it
    exact List.append_ne_nil_of_right_ne_nil _ (List.cons_ne_nil _ _)
  · split
    · next hPlural =>
      have hLong : 1 < cs.length := by simpa using (Bool.and_eq_true_iff.mp hPlural).2
      have hRest : 0 < cs.dropLast.length := by
        rw [List.length_dropLast]
        omega
      exact List.ne_nil_of_length_pos hRest
    · exact h

theorem nounOfPath_isNoun (path : List Char) : IsNoun (nounOfPath path) := by
  unfold nounOfPath
  dsimp only
  split
  · exact isNoun_item
  · next segment hLast =>
    split
    · exact isNoun_user
    · -- segments between two slashes are left out
      have hLiteral := (List.mem_filter.mp (List.mem_of_getLast? hLast)).2
      have hSome : segment ≠ [] := by
        rintro rfl
        cases hLiteral
      exact isNoun_upperFirst (singularize_ne_nil hSome)

theorem nounOfId?_isNoun {operationId : List Char} (h : nounOfId? operationId = some noun) :
    IsNoun noun := by
  unfold nounOfId? at h
  dsimp only at h
  generalize dropSuffix ['B', 'y', 'I', 'd'] (dropSuffix ['A', 'l', 'l'] (dropVerb operationId)) =
    body at h
  split at h
  · cases h
    exact isNoun_user
  · generalize (if ['A', 'l', 'l'].isPrefixOf (singularize body) &&
      3 < (singularize body).length then (singularize body).drop 3 else singularize body) =
        rest at h
    split at h
    · cases h
    · next hSome =>
      cases h
      exact isNoun_upperFirst fun hNil => hSome (List.isEmpty_iff.mpr hNil)

end

/-- **Every operation has a noun**, whatever its id and its path are. -/
theorem nounOf_isNoun (operationId : Option String) (path : String) :
    IsNoun (nounOf operationId path).toList := by
  have hPath := nounOfPath_isNoun path.toList
  unfold nounOf
  rw [String.toList_ofList]
  cases operationId with
  | none => exact hPath
  | some s =>
    dsimp only
    split
    · exact hPath
    · cases hId : nounOfId? s.toList with
      | none => exact hPath
      | some noun => exact nounOfId?_isNoun hId

/-! ## Plurals -/

section

variable {noun : String}

/-- Lower case takes nothing away, so that there is a character before the last one in lower case as
well. -/
theorem exists_beforeLast (h : 1 < noun.toList.length) :
    ∃ c, (lower noun.toList).dropLast.getLast? = some c := by
  have hLength := length_le_lower noun.toList
  have hRest : 0 < (lower noun.toList).dropLast.length := by
    rw [List.length_dropLast]
    omega
  have hSome : (lower noun.toList).dropLast ≠ [] := List.ne_nil_of_length_pos hRest
  exact ⟨_, List.getLast?_eq_some_getLast hSome⟩

theorem pluralize_ne_nil (h : noun.toList ≠ []) : (pluralize noun).toList ≠ [] := by
  unfold pluralize
  dsimp only
  split
  · exact h
  · split
    · rw [String.toList_ofList]
      exact List.append_ne_nil_of_right_ne_nil _ (List.cons_ne_nil _ _)
    · split
      · rw [String.toList_append]
        exact List.append_ne_nil_of_left_ne_nil h _
      · rw [String.toList_append]
        exact List.append_ne_nil_of_left_ne_nil h _

end

/-! ## Lists -/

/-- The key under which the action of an endpoint puts a list. -/
def Endpoint.listKey (e : Endpoint) : String :=
  String.ofList (lower (pluralize e.noun).toList)

theorem Endpoint.listKey_ne_empty (e : Endpoint) : e.listKey ≠ "" := by
  have hNoun : e.noun.toList ≠ [] := (nounOf_isNoun e.operationId e.path).ne_nil
  have hKey : e.listKey.toList ≠ [] := by
    rw [listKey, String.toList_ofList]
    exact lower_ne_nil (pluralize_ne_nil hNoun)
  rintro hEmpty
  rw [hEmpty] at hKey
  exact hKey rfl

namespace ResponsePlan

/-- The plan to put a list under a key. -/
def wrapping (key : String) : ResponsePlan where
  kind := .wrapArray
  key := some key

variable {e : Endpoint} {schema : Entries}

/-- An endpoint whose success has a schema has content, also where it has a response without. -/
theorem isNoContent_of_successSchema? (h : e.successSchema? = some schema) :
    e.isNoContent = false := by
  obtain ⟨response, hResponse, -⟩ := Option.bind_eq_some_iff.mp h
  rw [Endpoint.isNoContent, hResponse, Option.isNone_some, Bool.and_false]

theorem ofEndpoint_list (h : e.successSchema? = some schema)
    (hList : Schema.hasType (.map schema) "array" = true) (simplify : Option SimplifyConfig) :
    ofEndpoint e e.noun simplify = pure (wrapping e.listKey) := by
  rw [ofEndpoint, isNoContent_of_successSchema? h, if_neg Bool.false_ne_true, h]
  dsimp only
  rw [if_pos hList]
  rfl

theorem shape_wrapping {status : Value} (h : status.same (.int 204) = false) (key : String)
    (items : List Value) :
    (wrapping key).shape status (.list items) = .map [(.str key, .list items)] := by
  unfold shape
  rw [h]
  rfl

end ResponsePlan

/-- **An endpoint that answers with a list has its lists wrapped.** Every operation has a noun, which
is some text with a capital first character and not empty; where the plural looks at the character
before the last one, there is one. So the plan of an action whose success has a schema of type array
is to wrap, under a key that is not empty, whatever is configured and without a remark; and each list
that is answered becomes an object of this key alone, unless the status is 204. -/
theorem lists_are_wrapped :
    (∀ operationId path, nounOf operationId path ≠ "" ∧ IsNoun (nounOf operationId path).toList) ∧
    (∀ noun : String, 1 < noun.toList.length →
      ∃ c, (lower noun.toList).dropLast.getLast? = some c) ∧
    ∀ (e : Endpoint) (schema : Entries), e.successSchema? = some schema →
      Schema.hasType (.map schema) "array" = true →
      e.listKey ≠ "" ∧
      (∀ simplify log, (ResponsePlan.ofEndpoint e e.noun simplify).on log =
        (.ok (.wrapping e.listKey), log)) ∧
      ∀ status items, status.same (.int 204) = false →
        (ResponsePlan.wrapping e.listKey).shape status (.list items) =
          .map [(.str e.listKey, .list items)] := by
  refine ⟨fun operationId path => ?_, fun noun hLong => exists_beforeLast hLong,
    fun e schema hSchema hList => ⟨e.listKey_ne_empty, fun simplify log => ?_, ?_⟩⟩
  · have hNoun := nounOf_isNoun operationId path
    refine ⟨fun hEmpty => ?_, hNoun⟩
    rw [hEmpty] at hNoun
    exact hNoun.ne_nil rfl
  · rw [ResponsePlan.ofEndpoint_list hSchema hList]
    rfl
  · intro status items hStatus
    exact ResponsePlan.shape_wrapping hStatus e.listKey items

/-- Nothing is left of the operation id, and the path ends in a single letter that looks like the
ending of a plural. For a list there is content, also where there may be none. -/
def bareList : Endpoint where
  path := "/s/\x7bid\x7d"
  method := .get
  operationId := some "listAll"
  responses := [
    ("204", { statusCode := "204" }),
    ("200", { statusCode := "200", schema := some [(.str "type", .str "array")] })]

theorem lists_are_wrapped_bareList :
    bareList.noun = "S" ∧ bareList.listKey = "ses" ∧
      (∃ c, (lower "Day".toList).dropLast.getLast? = some c) ∧
      (ResponsePlan.ofEndpoint bareList "S" none).on [] = (.ok (.wrapping "ses"), []) ∧
      (ResponsePlan.wrapping "ses").shape (.int 200) (.list [.int 1]) =
        .map [(.str "ses", .list [.int 1])] := by
  have hNoun : bareList.noun = "S" := by decide
  have hKey : bareList.listKey = "ses" := by decide
  obtain ⟨-, hPlural, hLists⟩ := lists_are_wrapped
  obtain ⟨-, hPlan, hShape⟩ := hLists bareList [(.str "type", .str "array")] rfl rfl
  rw [hNoun, hKey] at hPlan
  rw [hKey] at hShape
  exact ⟨hNoun, hKey, hPlural "Day" (by decide), hPlan none [], hShape _ _ rfl⟩

end IntegrationCompiler
