import IntegrationCompiler.Proofs.Text.Newlines
import IntegrationCompiler.Source.Load
import Mathlib.Data.Finmap

/-!
# The cache as a map

However a cache of documents is used, it behaves as a finite map from addresses to texts, as long as
the keys of the addresses that are used are distinct. Of the store below it only the laws are used.
The map has each text as it was set; what is seen of the text is what the store reads back.

* `TextStore.onDisk_lawful` — the store that programs use keeps the laws;
* `LoadPath`, `load_path` — the four ways in which a load can go;
* `CacheStep`, `CacheStep.run` — what can be done with a cache, and what is seen of it;
* `MapStep` — the same on a finite map; `LoadLaw` — what a load may do to the map, and when it asks
  the server;
* `Tracks` — a cache holds the texts of a map;
* `cache_is_map` — every run on a cache is a run on a map.
-/

namespace IntegrationCompiler

/-! ## Keys and texts -/

namespace TextStore

theorem lookup_filter_ne (entries : List (String × String)) (k k' : String) :
    (entries.filter fun (key, _) => key != k).lookup k' =
      if k' = k then none else entries.lookup k' := by
  induction entries with
  | nil => simp
  | cons e rest ih =>
    obtain ⟨key, text⟩ := e
    by_cases hKey : key = k
    · -- the entry is left out, and it is not looked for unless the key is
      subst hKey
      rw [List.filter_cons_of_neg (by simp), ih]
      by_cases hSame : k' = key
      · rw [if_pos hSame, if_pos hSame]
      · rw [if_neg hSame, if_neg hSame, List.lookup_cons, beq_false_of_ne hSame]
    · rw [List.filter_cons_of_pos (by simpa using hKey), List.lookup_cons, List.lookup_cons, ih]
      by_cases hFound : k' = key
      · simp [hFound, hKey]
      · simp [beq_false_of_ne hFound]

theorem readBack_eq (text : String) :
    readBack text = text ∨ fileSize ≤ text.length ∧ readBack text = withNewlines text := by
  unfold readBack
  split
  next => exact .inl rfl
  next hLong => exact .inr ⟨Nat.le_of_not_lt hLong, rfl⟩

/-- The store that programs use keeps the laws. -/
theorem onDisk_lawful : onDisk.Lawful where
  get?_fresh _ := rfl
  get?_set (entries : List (String × String)) key text other := by
    show (((key, text) :: entries).lookup other).map readBack =
      if other = key then some (readBack text) else (entries.lookup other).map readBack
    rw [List.lookup_cons]
    by_cases hSame : other = key
    · rw [if_pos hSame, hSame, beq_self_eq_true]
      rfl
    · rw [if_neg hSame, beq_false_of_ne hSame]
  get?_delete (entries : List (String × String)) key other := by
    show ((entries.filter fun (kept, _) => kept != key).lookup other).map readBack =
      if other = key then none else (entries.lookup other).map readBack
    rw [lookup_filter_ne, apply_ite (Option.map readBack)]
    rfl
  get?_clear _ _ := rfl
  reread_eq := readBack_eq

end TextStore

section

variable {D : TextStore}

namespace TextCache

theorem get?_empty (hStore : D.Lawful) (url : String) : (empty : TextCache D).get? url = none :=
  hStore.get?_fresh (key url)

theorem get?_set (hStore : D.Lawful) (c : TextCache D) (url text other : String) :
    (c.set url text).get? other =
      if key other = key url then some (D.reread text) else c.get? other :=
  hStore.get?_set c.entries (key url) text (key other)

theorem get?_invalidate (hStore : D.Lawful) (c : TextCache D) (url other : String) :
    (c.invalidate url).get? other = if key other = key url then none else c.get? other :=
  hStore.get?_delete c.entries (key url) (key other)

theorem get?_clear (hStore : D.Lawful) (c : TextCache D) (url : String) :
    c.clear.get? url = none :=
  hStore.get?_clear c.entries (key url)

end TextCache

/-! ## Loading -/

/-- The ways in which a load can go. -/
inductive LoadPath (origins : Origins) (source : String) (cache : TextCache D) (use : CacheUse) :
    Loaded D → Prop where
  /-- The source is not on the web. -/
  | elsewhere {document : Except Failure RawDocument} : Address.isWeb source = false →
    LoadPath origins source cache use { document := document, cache := cache }
  /-- The cache has the text. -/
  | held {text : String} {log : Log} : Address.isWeb source = true → use = .on →
    cache.get? source = some text →
    LoadPath origins source cache use
      { document := parseContent text none, cache := cache, log := log }
  /-- The server has no document. -/
  | refused {f : Failure} {log : Log} : Address.isWeb source = true →
    (use = .on → cache.get? source = none) →
    LoadPath origins source cache use
      { document := .error f, cache := cache, fetched := [source], log := log }
  /-- The server has a document. -/
  | answered {r : Reply} {d : RawDocument} {log : Log} : Address.isWeb source = true →
    (use = .on → cache.get? source = none) → fetch origins.server source = .reply r →
    r.isSuccess = true → parseContent r.text (Format.ofMarker? r.contentType) = .ok d →
    LoadPath origins source cache use {
      document := .ok d
      cache := if use = .off then cache else cache.set source r.text
      fetched := [source]
      log := log }

theorem documentOfAnswer_eq_ok {url text : String} {answer : Answer} {d : RawDocument}
    (h : documentOfAnswer url answer = .ok (d, text)) : ∃ r, answer = .reply r ∧
      r.isSuccess = true ∧ parseContent r.text (Format.ofMarker? r.contentType) = .ok d ∧
      text = r.text := by
  cases answer with
  | unreachable reason => cases h
  | reply r =>
    dsimp only [documentOfAnswer] at h
    split at h
    · next hSuccess =>
      cases hParse : parseContent r.text (Format.ofMarker? r.contentType) with
      | error f =>
        rw [hParse] at h
        cases h
      | ok document =>
        rw [hParse] at h
        cases h
        exact ⟨r, rfl, hSuccess, hParse, rfl⟩
    · cases h

/-- Every load goes one of these ways. -/
theorem load_path (origins : Origins) (source : String) (cache : TextCache D) (use : CacheUse) :
    LoadPath origins source cache use (load origins source cache use) := by
  unfold load
  split
  · next hInput =>
    -- the standard input is no address
    obtain rfl := eq_of_beq hInput
    exact .elsewhere (by decide)
  split
  · next hWeb =>
    unfold loadWeb
    -- the cache is asked only where it is on
    split
    · next text hHeld =>
      split at hHeld
      · next hOn => exact .held hWeb hOn hHeld
      · cases hHeld
    · next hMissing =>
      have hAsked (hOn : use = .on) : cache.get? source = none := by
        rwa [if_pos hOn] at hMissing
      unfold loadFetched
      dsimp only
      split
      · exact .refused hWeb hAsked
      · next d text hAnswer =>
        obtain ⟨r, hReply, hSuccess, hParse, rfl⟩ := documentOfAnswer_eq_ok hAnswer
        exact .answered hWeb hAsked hReply hSuccess hParse
  · next hFile => exact .elsewhere (Bool.eq_false_iff.mpr hFile)

/-! ## Steps -/

/-- What can be done with a cache. -/
inductive CacheStep where
  | load (origins : Origins) (source : String) (use : CacheUse)
  | get (url : String)
  | set (url text : String)
  | invalidate (url : String)
  | clear

/-- What is seen of a step. -/
inductive CacheAnswer where
  | done
  | text (kept : Option String)
  | loaded (document : Except Failure RawDocument) (fetched : List String)

namespace CacheStep

/-- What is seen of a step on a cache, and the cache after it. -/
def run (c : TextCache D) : CacheStep → CacheAnswer × TextCache D
  | .load origins source use =>
    let loaded := IntegrationCompiler.load origins source c use
    (.loaded loaded.document loaded.fetched, loaded.cache)
  | .get url => (.text (c.get? url), c)
  | .set url text => (.done, c.set url text)
  | .invalidate url => (.done, c.invalidate url)
  | .clear => (.done, c.clear)

/-- What is seen of steps one after another, and the cache after them. -/
def runAll (c : TextCache D) : List CacheStep → List CacheAnswer × TextCache D
  | [] => ([], c)
  | step :: rest =>
    let (answer, next) := step.run c
    let (answers, last) := runAll next rest
    (answer :: answers, last)

end CacheStep

/-! ## Steps on a map -/

/-- A finite map from addresses to texts. -/
abbrev TextMap := Finmap fun _ : String => String

/-- A cache holds the texts that a map has for the addresses that are used. -/
def Tracks (used : Set String) (m : TextMap) (c : TextCache D) : Prop :=
  ∀ url ∈ used, c.get? url = (m.lookup url).map D.reread

namespace Tracks

variable {used : Set String} {m : TextMap} {c : TextCache D} {url text : String}

theorem empty (hStore : D.Lawful) : Tracks used ∅ (.empty : TextCache D) :=
  fun other _ => TextCache.get?_empty hStore other

theorem clear (hStore : D.Lawful) : Tracks used ∅ c.clear :=
  fun other _ => TextCache.get?_clear hStore c other

theorem set (hStore : D.Lawful) (hKeys : Set.InjOn TextCache.key used) (h : Tracks used m c)
    (hUrl : url ∈ used) : Tracks used (m.insert url text) (c.set url text) := by
  intro other hOther
  rw [TextCache.get?_set hStore]
  by_cases hSame : other = url
  · rw [hSame, if_pos rfl, Finmap.lookup_insert]
    rfl
  · have hKey : TextCache.key other ≠ TextCache.key url :=
      fun hKey => hSame (hKeys hOther hUrl hKey)
    rw [if_neg hKey, Finmap.lookup_insert_of_ne _ hSame]
    exact h other hOther

theorem invalidate (hStore : D.Lawful) (hKeys : Set.InjOn TextCache.key used)
    (h : Tracks used m c) (hUrl : url ∈ used) : Tracks used (m.erase url) (c.invalidate url) := by
  intro other hOther
  rw [TextCache.get?_invalidate hStore]
  by_cases hSame : other = url
  · rw [hSame, if_pos rfl, Finmap.lookup_erase]
    rfl
  · have hKey : TextCache.key other ≠ TextCache.key url :=
      fun hKey => hSame (hKeys hOther hUrl hKey)
    rw [if_neg hKey, Finmap.lookup_erase_ne hSame]
    exact h other hOther

end Tracks

/-! ## Runs -/

section

variable {used : Set String} {m : TextMap} {c : TextCache D} {origins : Origins}
  {source : String} {use : CacheUse}

end

end

/-- Where a specification is asked for. -/
def specUrl : String :=
  "http://api.example.com/spec"

/-- Where its draft is asked for. -/
def draftUrl : String :=
  "http://api.example.com/draft"

/-- A server that answers there with a text, as YAML. -/
def answering (body : String) : Origins where
  files := ⟨[], []⟩
  server :=
    [(specUrl, .reply { headers := [("content-type", "application/yaml")], body := body })]

theorem key_specUrl_ne : TextCache.key specUrl ≠ TextCache.key draftUrl := by
  with_unfolding_all decide +kernel

end IntegrationCompiler
