import IntegrationCompiler.Proofs.Json.LineEnds
import IntegrationCompiler.Proofs.Source.Cache

/-!
# Loading again

The answer of a server is read in the format that it announces, and its text is kept. When the text
is taken from the cache, nothing announces a format: JSON is tried, and then YAML. That makes a
difference where YAML was announced and the text is JSON as well, since the two read some scalars
differently. A long text comes back with the ends of its lines changed, which makes none.

* `parseContent_withNewlines` — how the lines of a text end does not matter;
* `parseContent_none_iff` — when a text says the same without its format;
* `CacheStep.Spares` — a step that leaves the text of an address alone;
* `load_again` — what is loaded from the cache after a fetch has filled it;
* `load_again_exponent` — an answer in YAML that is not loaded again as it was.
-/

namespace IntegrationCompiler

/-! ## Ends of lines -/

/-- YAML reads a text line by line, however the lines end. -/
theorem Yaml.parse_withNewlines (text : String) :
    Yaml.parse (TextStore.withNewlines text) = Yaml.parse text := by
  have hTokens : Token.scan (TextStore.withNewlines text) = Token.scan text := by
    unfold Token.scan TextStore.withNewlines
    rw [String.toList_ofList, Text.unifyNewlines_unifyNewlines]
  unfold Yaml.parse
  rw [hTokens]

theorem RawDocument.ofJson_withNewlines (text : String) (v : Value) :
    RawDocument.ofJson (TextStore.withNewlines text) v = RawDocument.ofJson text v := by
  unfold RawDocument.ofJson TextStore.withNewlines
  rw [String.toList_ofList, Json.holdsHalf_unifyNewlines]

/-- What YAML reads does not depend on what was tried before. -/
theorem parseYamlContent_eq_ok {text : String} {tried : Option Json.ReadError} {d : RawDocument} :
    parseYamlContent text tried = .ok d ↔ parseYamlContent text none = .ok d := by
  unfold parseYamlContent
  cases Yaml.parse text with
  | ok v => rfl
  | error fault => cases fault <;> simp

/-- **How the lines of a text end does not matter to what it says.** -/
theorem parseContent_withNewlines {text : String} {d : RawDocument} :
    parseContent (TextStore.withNewlines text) none = .ok d ↔ parseContent text none = .ok d := by
  have hSame : Json.SameReading (Json.parse text) (Json.parse (TextStore.withNewlines text)) :=
    Json.parse_unifyNewlines text
  have hYaml {tried tried' : Option Json.ReadError} :
      parseYamlContent (TextStore.withNewlines text) tried = .ok d ↔
        parseYamlContent text tried' = .ok d := by
    have hUntried : parseYamlContent (TextStore.withNewlines text) none =
        parseYamlContent text none := by
      unfold parseYamlContent
      rw [Yaml.parse_withNewlines]
    rw [parseYamlContent_eq_ok, hUntried]
    exact parseYamlContent_eq_ok.symm
  unfold parseContent
  rw [if_neg (by decide), if_neg (by decide)]
  generalize Json.parse text = outcome at hSame ⊢
  generalize Json.parse (TextStore.withNewlines text) = outcome' at hSame ⊢
  cases hSame with
  | value v =>
    dsimp only
    rw [RawDocument.ofJson_withNewlines]
  | fault => exact hYaml
  | tooLong digits => exact Iff.rfl

/-- So it makes none what a store gives back of a text. -/
theorem parseContent_reread {D : TextStore} (hStore : D.Lawful) {text : String} {d : RawDocument} :
    parseContent (D.reread text) none = .ok d ↔ parseContent text none = .ok d := by
  rcases hStore.reread_eq text with hSame | ⟨-, hSame⟩
  · rw [hSame]
  · rw [hSame]
    exact parseContent_withNewlines

/-! ## Formats -/

/-- A text is the same document without its format if the format was not YAML, or if JSON reads it as
the same document, or not at all. -/
theorem parseContent_none_iff {text : String} {format : Option Format} {d : RawDocument}
    (h : parseContent text format = .ok d) : parseContent text none = .ok d ↔
      format ≠ some .yaml ∨ (∃ v, Json.parse text = .ok v ∧ RawDocument.ofJson text v = .ok d) ∨
        ∃ f, Json.parse text = .error f ∧ ∀ digits, f ≠ .integerTooLong digits := by
  unfold parseContent at h ⊢
  rw [if_neg (by decide)]
  by_cases hYaml : format = some .yaml
  · -- JSON, which was not tried, decides
    rw [if_pos hYaml] at h
    cases hJson : Json.parse text with
    | ok v => simp [hYaml]
    | error f =>
      cases f with
      | integerTooLong digits => simp [hYaml]
      | «at» fault position line column => simp [hYaml, parseYamlContent_eq_ok, h]
  · -- JSON was tried before, and YAML only where no format was announced
    rw [if_neg hYaml] at h
    refine ⟨fun _ => .inl hYaml, fun _ => ?_⟩
    cases hJson : Json.parse text with
    | ok v =>
      rw [hJson] at h
      exact h
    | error f =>
      rw [hJson] at h
      cases f with
      | integerTooLong digits => cases h
      | «at» fault position line column =>
        by_cases hFormat : format = some .json
        · simp [hFormat] at h
        · simpa [hFormat] using h

/-! ## Steps that leave a text alone -/

/-- The step neither stores nor removes a text under the key of the address, which has one. A load
that may ask the cache finds it there. -/
def CacheStep.Spares (url : String) : CacheStep → Prop
  | .load _ source use => Address.isWeb source = true → use = .refresh →
    TextCache.key source ≠ TextCache.key url
  | .get _ => True
  | .set other _ | .invalidate other => TextCache.key other ≠ TextCache.key url
  | .clear => False

section

variable {D : TextStore} {c : TextCache D} {url text : String}

/-- Under the same key the cache has the same. -/
theorem TextCache.get?_of_key {other : String} (h : key other = key url) :
    c.get? other = c.get? url :=
  congrArg (D.get? c.entries) h

theorem get?_run (hStore : D.Lawful) {step : CacheStep} (h : step.Spares url)
    (hHeld : c.get? url = some text) : (step.run c).2.get? url = some text := by
  cases step with
  | load origins source use =>
    show (load origins source c use).cache.get? url = some text
    have hPath := load_path origins source c use
    generalize load origins source c use = loaded at hPath
    cases hPath with
    | elsewhere _ | held _ _ _ | refused _ _ => exact hHeld
    | @answered r _ _ hWeb hMissing _ _ _ =>
      cases use with
      | off => exact hHeld
      | refresh =>
        show (c.set source r.text).get? url = some text
        rw [TextCache.get?_set hStore, if_neg fun hKey => h hWeb rfl hKey.symm]
        exact hHeld
      | on =>
        show (c.set source r.text).get? url = some text
        have hOther : TextCache.key url ≠ TextCache.key source := by
          intro hKey
          -- under the same key the cache has the text, so nobody was asked
          rw [TextCache.get?_of_key hKey, hMissing rfl] at hHeld
          cases hHeld
        rw [TextCache.get?_set hStore, if_neg hOther]
        exact hHeld
  | get other => exact hHeld
  | set other stored =>
    show (c.set other stored).get? url = some text
    rw [TextCache.get?_set hStore, if_neg fun hKey => h hKey.symm]
    exact hHeld
  | invalidate other =>
    show (c.invalidate other).get? url = some text
    rw [TextCache.get?_invalidate hStore, if_neg fun hKey => h hKey.symm]
    exact hHeld
  | clear => exact h.elim

theorem get?_runAll (hStore : D.Lawful) {steps : List CacheStep}
    (h : ∀ step ∈ steps, step.Spares url) (hHeld : c.get? url = some text) :
    (CacheStep.runAll c steps).2.get? url = some text := by
  induction steps generalizing c with
  | nil => exact hHeld
  | cons step rest ih =>
    obtain ⟨hFirst, hRest⟩ := List.forall_mem_cons.mp h
    show (CacheStep.runAll (step.run c).2 rest).2.get? url = some text
    exact ih hRest (get?_run hStore hFirst hHeld)

/-! ## Loading again -/

/-- A load that asked the server and gave a document has kept the text of the answer. -/
theorem fetched_document {origins : Origins} {use : CacheUse} {d : RawDocument} {loaded : Loaded D}
    (hPath : LoadPath origins url c use loaded) (hFetched : loaded.fetched ≠ [])
    (hUse : use ≠ .off) (hDocument : loaded.document = .ok d) :
    Address.isWeb url = true ∧ ∃ r, fetch origins.server url = .reply r ∧
      parseContent r.text (Format.ofMarker? r.contentType) = .ok d ∧
      loaded.cache = c.set url r.text := by
  cases hPath with
  | elsewhere _ | held _ _ _ => exact absurd rfl hFetched
  | refused _ _ => cases hDocument
  | @answered r entries log hWeb _ hReply _ hParse =>
    cases hDocument
    exact ⟨hWeb, r, hReply, hParse, if_neg hUse⟩

/-- A load of what the cache holds asks nobody, and reads the text without a format. -/
theorem load_held (origins : Origins) (hWeb : Address.isWeb url = true)
    (hHeld : c.get? url = some text) :
    (load origins url c .on).fetched = [] ∧ (load origins url c .on).cache = c ∧
      (load origins url c .on).document = parseContent text none := by
  have hPath := load_path origins url c .on
  generalize load origins url c .on = loaded at hPath
  cases hPath with
  | elsewhere hElsewhere =>
    rw [hWeb] at hElsewhere
    cases hElsewhere
  | held _ _ hOther =>
    rw [hHeld] at hOther
    cases hOther
    exact ⟨rfl, rfl, rfl⟩
  | refused _ hMissing | answered _ hMissing _ _ _ =>
    rw [hMissing rfl] at hHeld
    cases hHeld

/-- **What was fetched is loaded again from the cache**, whatever lawful store is below it, and
whatever is done in between that leaves its text alone: the server is not asked, the cache stays as
it is, and the document is the same exactly if the server did not announce YAML, or JSON reads its
answer as the same document, or not at all. Of documents for which no tree stands it is told only
that they are such. -/
theorem load_again (hStore : D.Lawful) {origins : Origins} {use : CacheUse} {d : RawDocument}
    {between : List CacheStep} (origins' : Origins)
    (hFetched : (load origins url c use).fetched ≠ []) (hUse : use ≠ .off)
    (hDocument : (load origins url c use).document = .ok d)
    (hSpares : ∀ step ∈ between, step.Spares url) :
    let later := (CacheStep.runAll (load origins url c use).cache between).2
    ∃ r, fetch origins.server url = .reply r ∧ (load origins' url later .on).fetched = [] ∧
      (load origins' url later .on).cache = later ∧
      ((load origins' url later .on).document = .ok d ↔
        Format.ofMarker? r.contentType ≠ some .yaml ∨
          (∃ v, Json.parse r.text = .ok v ∧ RawDocument.ofJson r.text v = .ok d) ∨
          ∃ f, Json.parse r.text = .error f ∧ ∀ digits, f ≠ .integerTooLong digits) := by
  intro later
  obtain ⟨hWeb, r, hReply, hParse, hCache⟩ :=
    fetched_document (load_path origins url c use) hFetched hUse hDocument
  have hKept : (load origins url c use).cache.get? url = some (D.reread r.text) := by
    rw [hCache, TextCache.get?_set hStore, if_pos rfl]
  have hHeld : later.get? url = some (D.reread r.text) := get?_runAll hStore hSpares hKept
  obtain ⟨hSilent, hSame, hAgain⟩ := load_held origins' hWeb hHeld
  refine ⟨r, hReply, hSilent, hSame, ?_⟩
  rw [hAgain, parseContent_reread hStore]
  exact parseContent_none_iff hParse

end

/-- The limit that a document sets. -/
def limit? (document : Except Failure RawDocument) : Option Scalar :=
  match document with
  | .ok (.entries es) =>
    match es.get? "limit" with
    | some (.scalar s) => some s
    | _ => none
  | _ => none

theorem exists_of_limit? {document : Except Failure RawDocument} {s : Scalar}
    (h : limit? document = some s) : ∃ d, document = .ok d := by
  cases document with
  | ok d => exact ⟨d, rfl⟩
  | error f => cases h

/-- A text that is not JSON is read as YAML time and again, whatever the server answers by now. -/
theorem load_again_lines :
    let first := load (answering "limit: 1e3\n") specUrl (.empty : SchemaCache) .on
    let between : List CacheStep :=
      [.load (answering "limit: 2\n") specUrl .on, .set draftUrl "limit: 3\n"]
    let later := (CacheStep.runAll first.cache between).2
    ∃ d, first.document = .ok d ∧ (load (answering "limit: 4\n") specUrl later .on).fetched = [] ∧
      (load (answering "limit: 4\n") specUrl later .on).document = .ok d := by
  intro first between later
  have hLimit : limit? first.document = some (.str "1e3") := by with_unfolding_all decide +kernel
  obtain ⟨d, hDocument⟩ := exists_of_limit? hLimit
  have hFetched : first.fetched = [specUrl] := by with_unfolding_all decide +kernel
  have hAsked : first.fetched ≠ [] := by
    rw [hFetched]
    exact List.cons_ne_nil _ _
  have hSpares : ∀ step ∈ between, step.Spares specUrl := by
    refine List.forall_mem_cons.mpr ⟨?_, List.forall_mem_singleton.mpr key_specUrl_ne.symm⟩
    intro _ hRefresh
    cases hRefresh
  obtain ⟨r, hReply, hSilent, -, hSame⟩ :=
    load_again TextStore.onDisk_lawful (answering "limit: 4\n") hAsked (by decide) hDocument hSpares
  have hFault : Json.parse "limit: 1e3\n" = .error (.at .expectingValue 0 1 1) := rfl
  cases hReply
  exact ⟨d, hDocument, hSilent, hSame.mpr (.inr (.inr ⟨_, hFault, nofun⟩))⟩

/-- A text in YAML that is JSON as well: a limit that was no number becomes one. -/
theorem load_again_exponent :
    let origins := answering "\x7b\"openapi\": \"3.0.3\", \"limit\": 1e3\x7d"
    let first := load origins specUrl (.empty : SchemaCache) .on
    let again := load origins specUrl first.cache .on
    first.fetched = [specUrl] ∧ limit? first.document = some (.str "1e3") ∧
      again.fetched = [] ∧ limit? again.document = some (.float (.ofInt 1000)) ∧
      again.document ≠ first.document := by
  intro origins first again
  have hFirst : limit? first.document = some (.str "1e3") := by with_unfolding_all decide +kernel
  have hAgain : limit? again.document = some (.float (.ofInt 1000)) := by
    with_unfolding_all decide +kernel
  refine ⟨by with_unfolding_all decide +kernel, hFirst, by with_unfolding_all decide +kernel, hAgain,
    fun hSame => ?_⟩
  rw [hSame, hFirst] at hAgain
  cases hAgain

end IntegrationCompiler
