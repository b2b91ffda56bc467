import IntegrationCompiler.Proofs.Request.Placeholders
import IntegrationCompiler.Proofs.Value.Tree

/-!
# Filled addresses

The parameters of an address are filled in one after another, so a text that is filled in is searched
for the parameters that follow.

Main definitions:

* `chainedTexts` — what each parameter gets in the end;
* `TextsApart` — the inputs whose texts hold no placeholder of a later parameter;
* `RequestPlan.filledAtOnce` — the address with each parameter replaced by its own text.

Main results: `foldl_fillPath`, from which `RequestPlan.build_url` says which requests have the
address that is filled in at once.
-/

namespace IntegrationCompiler

open Text

/-! ## Filling in one after another -/

/-- The text of a parameter, which is empty where the input is absent or null. -/
def pathText (inputs : Entries) (name : String) : List Char :=
  let text := match Entries.getOrNull inputs name with
    | .null => ""
    | v => v.text
  text.toList

theorem fillPath_eq (inputs : Entries) (cs : List Char) (name : String) :
    RequestPlan.fillPath inputs cs name = fillOne name (pathText inputs name) cs := by
  unfold RequestPlan.fillPath
  rw [replaceAll_eq_replaceEach]
  rfl

theorem fillPath_eq_self (inputs : Entries) {cs : List Char} {name : String}
    (h : ¬ braced name <:+: cs) : RequestPlan.fillPath inputs cs name = cs := by
  unfold RequestPlan.fillPath
  exact replaceAll_eq_self _ h

/-- The texts of the parameters where they are filled in one after another: in each text the names
that are listed after its own are filled in too. -/
def chainedTexts (inputs : Entries) : List String → List (String × List Char)
  | [] => []
  | name :: later =>
    (name, later.foldl (RequestPlan.fillPath inputs) (pathText inputs name)) ::
      chainedTexts inputs later

/-- A text closes its braces each time that one more name is filled in. -/
def StaysClosed (inputs : Entries) : List String → List Char → Prop
  | [], _ => True
  | name :: later, text =>
    ClosesBraces text ∧ StaysClosed inputs later (RequestPlan.fillPath inputs text name)

/-- The texts of all parameters do so. -/
def AllStayClosed (inputs : Entries) : List String → Prop
  | [] => True
  | name :: later => StaysClosed inputs later (pathText inputs name) ∧ AllStayClosed inputs later

/-- Filling in one name after another gives each name its chained text. -/
theorem foldl_fillPath {inputs : Entries} {names : List String}
    {texts : List (String × List Char)} {cs : List Char} (hTexts : BracelessNames texts)
    (hNames : ∀ name ∈ names, Braceless name.toList)
    (hClosed : ∀ entry ∈ texts, StaysClosed inputs names entry.2)
    (hAll : AllStayClosed inputs names) (hNests : ¬ NestsName (texts.map (·.1) ++ names) cs) :
    names.foldl (RequestPlan.fillPath inputs) (fillAll texts cs) =
      fillAll (texts.map (fun entry =>
        (entry.1, names.foldl (RequestPlan.fillPath inputs) entry.2)) ++
          chainedTexts inputs names) cs := by
  -- with each name the texts filled in so far are one more, and themselves have it filled in
  induction names generalizing texts with
  | nil => simp [chainedTexts]
  | cons name later ih =>
    obtain ⟨hName, hLater⟩ := List.forall_mem_cons.mp hNames
    obtain ⟨hFirst, hRest⟩ := hAll
    have hOneMore : ¬ NestsName (texts.map (·.1)) cs := by
      rintro ⟨rest, hRest, other, hOther, hPrefix⟩
      exact hNests ⟨rest, hRest, other, List.mem_append_left _ hOther, hPrefix⟩
    have hStep := fillOne_fillAll (pathText inputs name) hTexts hName
      (fun entry hEntry => (hClosed entry hEntry).1) hOneMore
    have hStays : ∀ entry ∈ withOne name (pathText inputs name) texts,
        StaysClosed inputs later entry.2 := by
      intro listed hListed
      rcases List.mem_append.mp hListed with hOld | hNew
      · obtain ⟨entry, hEntry, rfl⟩ := List.mem_map.mp hOld
        have hNext := (hClosed entry hEntry).2
        rwa [fillPath_eq] at hNext
      · obtain rfl := List.mem_singleton.mp hNew
        exact hFirst
    have hKeys : (withOne name (pathText inputs name) texts).map (·.1) ++ later =
        texts.map (·.1) ++ name :: later := by
      simp [withOne]
    rw [List.foldl_cons, fillPath_eq, hStep,
      ih (bracelessNames_withOne _ hTexts hName) hLater hStays hRest (by rwa [hKeys])]
    simp [withOne, chainedTexts, fillPath_eq, Function.comp_def]

theorem fillAll_empty (cs : List Char) : fillAll [] cs = cs := by
  induction cs with
  | nil => simp
  | cons c rest ih => rw [fillAll_cons (by simp), ih]

/-- So the parameters of an address get their chained texts. -/
theorem foldl_fillPath_address {inputs : Entries} {names : List String} {cs : List Char}
    (hNames : ∀ name ∈ names, Braceless name.toList) (hAll : AllStayClosed inputs names)
    (hNests : ¬ NestsName names cs) :
    names.foldl (RequestPlan.fillPath inputs) cs = fillAll (chainedTexts inputs names) cs := by
  have hNone : BracelessNames [] := by simp [BracelessNames]
  have hChain := foldl_fillPath hNone hNames (by simp) hAll hNests
  rw [fillAll_empty] at hChain
  exact hChain

/-- Filling in leaves a text alone that holds none of the names in braces. -/
theorem foldl_fillPath_eq_self {inputs : Entries} {names : List String} {cs : List Char}
    (h : ∀ name ∈ names, ¬ braced name <:+: cs) :
    names.foldl (RequestPlan.fillPath inputs) cs = cs := by
  induction names with
  | nil => rfl
  | cons name later ih =>
    obtain ⟨hName, hLater⟩ := List.forall_mem_cons.mp h
    rw [List.foldl_cons, fillPath_eq_self inputs hName, ih hLater]

/-- Each text closes its braces and holds none of the names in braces that are filled in later. -/
def TextsApart (inputs : Entries) (names : List String) : Prop :=
  names.Pairwise fun name later =>
    ClosesBraces (pathText inputs name) ∧ ¬ braced later <:+: pathText inputs name

instance (inputs : Entries) (names : List String) : Decidable (TextsApart inputs names) :=
  inferInstanceAs (Decidable (List.Pairwise _ _))

section

variable {inputs : Entries} {names : List String}

/-- What the last name does to a text does not matter, since no other one follows. -/
theorem staysClosed_of_apart {cs : List Char} (hCloses : names ≠ [] → ClosesBraces cs)
    (hApart : ∀ name ∈ names.dropLast, ¬ braced name <:+: cs) : StaysClosed inputs names cs := by
  induction names with
  | nil => trivial
  | cons name later ih =>
    refine ⟨hCloses (by simp), ?_⟩
    cases later with
    | nil => trivial
    | cons next others =>
      rw [List.dropLast_cons_cons] at hApart
      obtain ⟨hName, hLater⟩ := List.forall_mem_cons.mp hApart
      rw [fillPath_eq_self inputs hName]
      exact ih (fun _ => hCloses (by simp)) hLater

theorem TextsApart.allStayClosed (h : TextsApart inputs names) : AllStayClosed inputs names := by
  induction names with
  | nil => trivial
  | cons name later ih =>
    obtain ⟨hFirst, hLater⟩ := List.pairwise_cons.mp h
    refine ⟨staysClosed_of_apart ?_ ?_, ih hLater⟩
    · intro hSome
      obtain ⟨other, hOther⟩ := List.exists_mem_of_ne_nil later hSome
      exact (hFirst other hOther).1
    · intro other hOther
      exact (hFirst other (List.mem_of_mem_dropLast hOther)).2

theorem TextsApart.chainedTexts_eq (h : TextsApart inputs names) :
    chainedTexts inputs names = textsOf (pathText inputs) names := by
  induction names with
  | nil => rfl
  | cons name later ih =>
    obtain ⟨hFirst, hLater⟩ := List.pairwise_cons.mp h
    rw [chainedTexts, foldl_fillPath_eq_self fun other hOther => (hFirst other hOther).2, ih hLater]
    rfl

/-- Where the texts keep apart, filling in one name after another is filling them in at once. -/
theorem foldl_fillPath_of_apart {cs : List Char} (hNames : ∀ name ∈ names, Braceless name.toList)
    (hNests : ¬ NestsName names cs) (h : TextsApart inputs names) :
    names.foldl (RequestPlan.fillPath inputs) cs =
      fillAll (textsOf (pathText inputs) names) cs := by
  rw [foldl_fillPath_address hNames h.allStayClosed hNests, h.chainedTexts_eq]

/-- Where only the last name is braced in a text, nothing else is filled in. -/
theorem foldl_fillPath_of_last {cs : List Char} (hNames : ∀ name ∈ names, Braceless name.toList)
    (h : ∀ name ∈ names.dropLast, ¬ braced name <:+: cs) :
    names.foldl (RequestPlan.fillPath inputs) cs =
      fillAll (textsOf (pathText inputs) names) cs := by
  rcases List.eq_nil_or_concat names with rfl | ⟨init, last, rfl⟩
  · simp [textsOf, fillAll_empty]
  · rw [List.concat_eq_append] at hNames h ⊢
    rw [List.dropLast_concat] at h
    rw [List.foldl_append, foldl_fillPath_eq_self h, List.foldl_cons, List.foldl_nil, fillPath_eq]
    have hLast : Braceless last.toList := hNames last (by simp)
    refine fillAll_congr (by simpa [BracelessNames] using hLast) (bracelessNames_textsOf hNames) ?_
    intro name hBraced
    have hNot : name ∉ init := fun hName => h name hName hBraced
    rw [lookup_textsOf]
    by_cases hSame : name = last
    · subst hSame
      simp
    · have hElse : (name == last) = false := by simpa using hSame
      simp [List.lookup_cons, hElse, hSame, hNot]

end

/-! ## A text that holds a name -/

theorem closesBraces_braced (name : String) : ClosesBraces (braced name) := by
  simp [ClosesBraces, braced, isBrace, List.getLast?_cons]

theorem eq_of_infix_braced {name other : String} (hName : Braceless name.toList)
    (hOther : Braceless other.toList) (h : braced other <:+: braced name) : other = name := by
  rw [← List.append_nil (braced name)] at h
  rcases braced_infix_of_braced hName hOther h with hSame | hNone
  · exact hSame
  · simp [braced] at hNone

section

variable {inputs : Entries} {names : List String} {last : String}

/-- Another name is not braced within a braced name. -/
theorem not_infix_braced (hBraceless : Braceless last.toList)
    (hNames : ∀ name ∈ names, Braceless name.toList) (hOthers : last ∉ names) :
    ∀ name ∈ names, ¬ braced name <:+: braced last := by
  intro name hName hBraced
  exact hOthers (eq_of_infix_braced hBraceless (hNames name hName) hBraced ▸ hName)

/-- A last name without input, and in a text that holds nothing but that name. -/
theorem foldl_fillPath_braced (hLast : pathText inputs last = [])
    (hBraceless : Braceless last.toList) (hNames : ∀ name ∈ names, Braceless name.toList)
    (hOthers : last ∉ names) :
    (names ++ [last]).foldl (RequestPlan.fillPath inputs) (braced last) = [] := by
  have hStays : names.foldl (RequestPlan.fillPath inputs) (braced last) = braced last :=
    foldl_fillPath_eq_self (not_infix_braced hBraceless hNames hOthers)
  have hOneNames : BracelessNames [(last, ([] : List Char))] := by
    simpa [BracelessNames] using hBraceless
  have hGone : fillAll [(last, [])] (braced last ++ []) = [] ++ fillAll [(last, [])] [] :=
    fillAll_braced hOneNames (by simp)
  rw [List.append_nil] at hGone
  rw [List.foldl_append, hStays, List.foldl_cons, List.foldl_nil, fillPath_eq, hLast, fillOne, hGone]
  simp

theorem staysClosed_braced (hBraceless : Braceless last.toList)
    (hNames : ∀ name ∈ names, Braceless name.toList) (hOthers : last ∉ names) :
    StaysClosed inputs (names ++ [last]) (braced last) := by
  refine staysClosed_of_apart (fun _ => closesBraces_braced last) ?_
  rw [List.dropLast_concat]
  exact not_infix_braced hBraceless hNames hOthers

/-- Where the only text is the braced last name, it is filled in with nothing in the end. -/
theorem chainedTexts_braced
    (hTexts : ∀ name, pathText inputs name = [] ∨ pathText inputs name = braced last)
    (hLast : pathText inputs last = []) (hBraceless : Braceless last.toList)
    (hNames : ∀ name ∈ names, Braceless name.toList) (hOthers : last ∉ names) :
    AllStayClosed inputs (names ++ [last]) ∧
      chainedTexts inputs (names ++ [last]) = textsOf (fun _ => []) (names ++ [last]) := by
  induction names with
  | nil => simp [AllStayClosed, StaysClosed, chainedTexts, textsOf, hLast]
  | cons name later ih =>
    obtain ⟨hName, hLater⟩ := List.forall_mem_cons.mp hNames
    simp only [List.mem_cons, not_or] at hOthers
    obtain ⟨hAll, hChain⟩ := ih hLater hOthers.2
    have hFirst : StaysClosed inputs (later ++ [last]) (pathText inputs name) ∧
        (later ++ [last]).foldl (RequestPlan.fillPath inputs) (pathText inputs name) = [] := by
      rcases hTexts name with hNone | hBraced
      · rw [hNone]
        have hNothing : ∀ other ∈ later ++ [last], ¬ braced other <:+: [] := by
          intro other _
          simp [braced]
        refine ⟨staysClosed_of_apart (fun _ => by decide) ?_, foldl_fillPath_eq_self hNothing⟩
        exact fun other hOther => hNothing other (List.mem_of_mem_dropLast hOther)
      · rw [hBraced]
        exact ⟨staysClosed_braced hBraceless hLater hOthers.2,
          foldl_fillPath_braced hLast hBraceless hLater hOthers.2⟩
    refine ⟨⟨hFirst.1, hAll⟩, ?_⟩
    rw [List.cons_append, chainedTexts, hFirst.2, hChain]
    rfl

/-- With the braced last name for the input of another name that occurs in the text, filling in one
name after another loses that input. -/
theorem foldl_fillPath_ne {name : String} {cs : List Char} (hDistinct : (names ++ [last]).Nodup)
    (hNames : ∀ name ∈ names ++ [last], Braceless name.toList)
    (hNests : ¬ NestsName (names ++ [last]) cs) (hName : name ∈ names)
    (hBraced : braced name <:+: cs) :
    let inputs : Entries := [(.str name, .str (String.ofList (braced last)))]
    (names ++ [last]).foldl (RequestPlan.fillPath inputs) cs ≠
      fillAll (textsOf (pathText inputs) (names ++ [last])) cs := by
  intro inputs hSame
  have hOthers : last ∉ names :=
    fun hLast => (List.nodup_append.mp hDistinct).2.2 last hLast last (by simp) rfl
  have hNe : last ≠ name := fun hLast => hOthers (hLast ▸ hName)
  have hText : pathText inputs name = braced last := by
    simp [inputs, pathText, Entries.getOrNull, Entries.get?_cons, Value.str, Value.text, Scalar.text]
  have hNoText : ∀ other, other ≠ name → pathText inputs other = [] := by
    intro other hOther
    simp [inputs, pathText, Entries.getOrNull, Entries.get?_singleton_of_ne hOther]
  have hTexts : ∀ other, pathText inputs other = [] ∨ pathText inputs other = braced last := by
    intro other
    by_cases hOther : other = name
    · exact .inr (hOther ▸ hText)
    · exact .inl (hNoText other hOther)
  obtain ⟨hAll, hChain⟩ := chainedTexts_braced hTexts (hNoText last hNe) (hNames last (by simp))
    (fun other hOther => hNames other (List.mem_append_left _ hOther)) hOthers
  have hGone := foldl_fillPath_address hNames hAll hNests
  rw [hChain, hSame] at hGone
  have hLength := length_fillAll (f := fun _ => []) (g := pathText inputs) hNames (by simp) cs
  have hLonger := hLength.2 name (List.mem_append_left _ hName) (by simp [hText, braced]) hBraced
  exact absurd (congrArg List.length hGone) (by simpa using hLonger.ne')

end

/-! ## The address of a request -/

/-- The address with all parameters filled in at once. -/
def RequestPlan.filledAtOnce (plan : RequestPlan) (inputs : Entries) : String :=
  String.ofList (fillAll (textsOf (pathText inputs) plan.pathParams) plan.urlTemplate.toList)

/-- The order of the names does not matter to filling them in at once. -/
theorem fillAll_textsOf_perm {f : String → List Char} {names names' : List String} {cs : List Char}
    (hPerm : names'.Perm names) (hNames : ∀ name ∈ names, Braceless name.toList) :
    fillAll (textsOf f names') cs = fillAll (textsOf f names) cs := by
  refine fillAll_congr (bracelessNames_textsOf fun name hName => hNames name (hPerm.subset hName))
    (bracelessNames_textsOf hNames) fun name _ => ?_
  rw [lookup_textsOf, lookup_textsOf]
  simp only [hPerm.mem_iff]

/-- The parameters of an address are filled in at once, in whatever order they are listed, as long as
no text holds the placeholder of a later parameter or leaves a brace open. Every input is filled in
so exactly if the template holds no placeholder but that of the last parameter: the input of another
one can be the placeholder of the last one, and then is filled in once more. -/
theorem RequestPlan.build_url {plan : RequestPlan} (hDistinct : plan.pathParams.Nodup)
    (hNames : ∀ name ∈ plan.pathParams, Braceless name.toList)
    (hTemplate : ¬ NestsName plan.pathParams plan.urlTemplate.toList) :
    (∀ inputs auth params, params.Perm plan.pathParams → TextsApart inputs params →
        (RequestPlan.build { plan with pathParams := params } inputs auth).url =
          plan.filledAtOnce inputs) ∧
      ((∀ inputs auth, (plan.build inputs auth).url = plan.filledAtOnce inputs) ↔
        ∀ name ∈ plan.pathParams.dropLast, ¬ braced name <:+: plan.urlTemplate.toList) := by
  refine ⟨fun inputs auth params hPerm hApart => ?_, fun hAlways name hName hBraced => ?_,
    fun hLast inputs auth => ?_⟩
  · have hNests : ¬ NestsName params plan.urlTemplate.toList := by
      rintro ⟨rest, hRest, name, hName, hPrefix⟩
      exact hTemplate ⟨rest, hRest, name, hPerm.subset hName, hPrefix⟩
    have hOwn : ∀ name ∈ params, Braceless name.toList :=
      fun name hName => hNames name (hPerm.subset hName)
    have hFilled := foldl_fillPath_of_apart hOwn hNests hApart
    rw [fillAll_textsOf_perm hPerm hNames] at hFilled
    exact congrArg String.ofList hFilled
  · rcases List.eq_nil_or_concat plan.pathParams with hNil | ⟨init, last, hConcat⟩
    · simp [hNil] at hName
    · rw [List.concat_eq_append] at hConcat
      rw [hConcat, List.dropLast_concat] at hName
      rw [hConcat] at hDistinct hNames hTemplate
      refine foldl_fillPath_ne hDistinct hNames hTemplate hName hBraced ?_
      have hSame := hAlways [(.str name, .str (String.ofList (braced last)))] []
      simp only [RequestPlan.build, RequestPlan.filledAtOnce, hConcat] at hSame
      exact String.ofList_injective hSame
  · exact congrArg String.ofList (foldl_fillPath_of_last hNames hLast)

/-- A post of a user, which is found by two parameters. -/
def userPost : RequestPlan where
  method := .get
  urlTemplate := "/users/{id}/posts/{post}"
  pathParams := ["id", "post"]

theorem RequestPlan.build_url_userPost :
    (userPost.build [(.str "id", .str "{me}"), (.str "post", .str "{id}")] []).url =
        "/users/{me}/posts/{id}" ∧
      ¬ ∀ inputs auth, (userPost.build inputs auth).url = userPost.filledAtOnce inputs := by
  have hTemplate : ¬ NestsName userPost.pathParams userPost.urlTemplate.toList := by decide +kernel
  obtain ⟨hApart, hAlways⟩ := RequestPlan.build_url (by decide +kernel) (by decide +kernel) hTemplate
  constructor
  · refine (hApart _ [] ["id", "post"] (List.Perm.refl _) (by decide +kernel)).trans ?_
    decide +kernel
  · rw [hAlways]
    decide +kernel

/-- The input of the first parameter is the placeholder of the second one, and the order in which
the two are listed decides whether it stays. -/
theorem RequestPlan.build_url_depends_on_order :
    let inputs : Entries := [(.str "id", .str "{post}"), (.str "post", .str "7")]
    (userPost.build inputs []).url = "/users/7/posts/7" ∧
      (RequestPlan.build { userPost with pathParams := ["post", "id"] } inputs []).url =
        "/users/{post}/posts/7" ∧
      userPost.filledAtOnce inputs = "/users/{post}/posts/7" := by
  decide +kernel

end IntegrationCompiler
