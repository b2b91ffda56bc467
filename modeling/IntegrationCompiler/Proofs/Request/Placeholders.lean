import IntegrationCompiler.Proofs.Text.Replacement
import IntegrationCompiler.Request.Build
import Mathlib.Data.List.Infix
import Mathlib.Data.List.Perm.Basic
import Mathlib.Data.List.TakeWhile

/-!
# Placeholders in an address

A name in braces stands for the text of a parameter. All names can be replaced at once, or one after
another, and the two agree as long as no text brings in a placeholder of its own.

Main definitions: `braced`, `fillAll` and `fillOne`; `ClosesBraces` of a text that is filled in, and
`NestsName` of a text where names stand within braces.

* `fillOne_fillAll` — one name more, after the others;
* `fillAll_congr` — only the names that occur matter;
* `length_fillAll` — longer texts make a longer text.
-/

namespace IntegrationCompiler

open Text

/-! ## Braces -/

/-- Whether a character is a brace. -/
def isBrace (c : Char) : Bool :=
  c == '{' || c == '}'

/-- The text holds no brace. -/
def Braceless (cs : List Char) : Prop :=
  ∀ c ∈ cs, isBrace c = false

instance (cs : List Char) : Decidable (Braceless cs) :=
  List.decidableBAll (fun c => isBrace c = false) cs

/-- The last brace of a text, if it has any, is a closing one. -/
def ClosesBraces (cs : List Char) : Prop :=
  (cs.filter isBrace).getLast? ≠ some '{'

instance (cs : List Char) : Decidable (ClosesBraces cs) :=
  inferInstanceAs (Decidable (_ ≠ _))

/-- A name in braces, which stands for the text of the parameter. -/
def braced (name : String) : List Char :=
  '{' :: name.toList ++ ['}']

/-- What follows a braced name is shorter than the text. -/
theorem length_lt_of_braced {name : String} {more cs : List Char} (h : braced name ++ more = cs) :
    more.length < cs.length := by
  rw [← h, List.length_append]
  simp [braced]

/-- Behind an opening brace of the text the next brace is the first one of a braced name. -/
def NestsName (names : List String) (cs : List Char) : Prop :=
  ∃ rest, '{' :: rest <:+ cs ∧ ∃ name ∈ names, braced name <+: rest.dropWhile fun c => !isBrace c

theorem nestsName_iff {names : List String} {cs : List Char} :
    NestsName names cs ↔ ∃ rest ∈ cs.tails, rest.head? = some '{' ∧
      ∃ name ∈ names, braced name <+: rest.tail.dropWhile fun c => !isBrace c := by
  constructor
  · rintro ⟨rest, hRest, hName⟩
    exact ⟨'{' :: rest, (List.mem_tails _ _).mpr hRest, rfl, hName⟩
  · rintro ⟨rest, hRest, hOpens, hName⟩
    obtain ⟨more, rfl⟩ := List.head?_eq_some_iff.mp hOpens
    exact ⟨more, (List.mem_tails _ _).mp hRest, hName⟩

instance (names : List String) (cs : List Char) : Decidable (NestsName names cs) :=
  decidable_of_iff _ nestsName_iff.symm

theorem Braceless.takeWhile {cs : List Char} (h : Braceless cs) (rest : List Char) {b : Char}
    (hb : isBrace b = true) : (cs ++ b :: rest).takeWhile (fun c => !isBrace c) = cs := by
  induction cs with
  | nil => simp [hb]
  | cons c cs ih =>
    obtain ⟨hc, hCs⟩ := List.forall_mem_cons.mp h
    simp [hc, ih hCs]

/-- Equal texts are equal up to their first brace, and have the same brace there. -/
theorem Braceless.eq_of_append {cs ds rest rest' : List Char} {b d : Char} (hCs : Braceless cs)
    (hDs : Braceless ds) (hb : isBrace b = true) (hd : isBrace d = true)
    (h : cs ++ b :: rest = ds ++ d :: rest') : cs = ds ∧ b = d := by
  have hSame : cs = ds := by
    rw [← hCs.takeWhile rest hb, h, hDs.takeWhile rest' hd]
  subst hSame
  exact ⟨rfl, by simpa using congrArg List.head? (List.append_cancel_left h)⟩

theorem braceless_takeWhile (cs : List Char) : Braceless (cs.takeWhile fun c => !isBrace c) := by
  intro c hc
  simpa using List.mem_takeWhile_imp hc

/-- Of two names without braces only one is braced at the front of a text. -/
theorem eq_of_prefix_braced {name other : String} {rest : List Char}
    (hName : Braceless name.toList) (hOther : Braceless other.toList)
    (h : braced other <+: braced name ++ rest) : other = name := by
  obtain ⟨tail, hTail⟩ := h
  have hEq : other.toList ++ '}' :: tail = name.toList ++ '}' :: rest := by
    simpa [braced] using hTail
  exact String.toList_inj.mp (hOther.eq_of_append hName rfl rfl hEq).1

/-! ## Filling in texts -/

/-- The text with all braced names replaced at once by the texts that are listed for them. -/
def fillAll (texts : List (String × List Char)) (cs : List Char) : List Char :=
  replaceEach (texts.map fun entry => (braced entry.1, entry.2)) cs

/-- No listed name holds a brace. -/
def BracelessNames (texts : List (String × List Char)) : Prop :=
  ∀ entry ∈ texts, Braceless entry.1.toList

section

variable {texts : List (String × List Char)} {name : String} {text rest : List Char}

@[simp]
theorem fillAll_nil : fillAll texts [] = [] := by
  simp [fillAll]

/-- A braced name at the front is replaced. -/
theorem fillAll_braced (hNames : BracelessNames texts) (h : texts.lookup name = some text) :
    fillAll texts (braced name ++ rest) = text ++ fillAll texts rest := by
  obtain ⟨before, after, rfl, hOthers⟩ := List.lookup_eq_some_iff.mp h
  have hName : Braceless name.toList := hNames (name, text) (by simp)
  -- a name that is listed earlier is another one, and so is not braced here
  have hNone : ((before.map fun entry => (braced entry.1, entry.2)).find? fun pair =>
      pair.1.isPrefixOf (braced name ++ rest)) = none := by
    rw [List.find?_eq_none]
    intro pair hPair hHere
    obtain ⟨entry, hEntry, rfl⟩ := List.mem_map.mp hPair
    have hOther : Braceless entry.1.toList := hNames entry (List.mem_append_left _ hEntry)
    have hSame := eq_of_prefix_braced hName hOther (List.isPrefixOf_iff_prefix.mp hHere)
    simpa [hSame] using hOthers entry hEntry
  refine replaceEach_append (by simp [braced]) ?_
  rw [List.map_append, List.find?_append, hNone]
  simp

/-- Where no listed name is braced, the first character stays. -/
theorem fillAll_cons {c : Char} (h : ∀ entry ∈ texts, ¬ braced entry.1 <+: c :: rest) :
    fillAll texts (c :: rest) = c :: fillAll texts rest := by
  refine replaceEach_cons fun pair hPair => ?_
  obtain ⟨entry, hEntry, rfl⟩ := List.mem_map.mp hPair
  exact h entry hEntry

theorem not_prefix_braced {c : Char} (h : c ≠ '{') : ¬ braced name <+: c :: rest := by
  intro hPrefix
  obtain ⟨tail, hTail⟩ := hPrefix
  exact h (List.head_eq_of_cons_eq hTail).symm

/-- What holds no opening brace stays. -/
theorem fillAll_append {cs : List Char} (h : '{' ∉ cs) :
    fillAll texts (cs ++ rest) = cs ++ fillAll texts rest := by
  induction cs with
  | nil => simp
  | cons c cs ih =>
    simp only [List.mem_cons, not_or] at h
    rw [List.cons_append, fillAll_cons fun entry _ => not_prefix_braced (Ne.symm h.1), ih h.2,
      List.cons_append]

theorem Braceless.opening_not_mem {cs : List Char} (h : Braceless cs) : '{' ∉ cs :=
  fun hMem => absurd (h _ hMem) (by decide)

/-- A braced name holds no other opening brace than the first one. -/
theorem Braceless.opening_not_mem_tail {cs : List Char} (h : Braceless cs) :
    '{' ∉ cs ++ ['}'] := by
  simpa using h.opening_not_mem

/-! ## Filling in one text more -/

/-- The text with one braced name replaced. -/
def fillOne (name : String) (text cs : List Char) : List Char :=
  fillAll [(name, text)] cs

/-- What is braced in a text that is filled in was braced there before, as long as no name was
filled in within braces. -/
theorem braced_prefix_of_fillAll {c : Char} (hName : Braceless name.toList)
    (hHere : ∀ entry ∈ texts, ¬ braced entry.1 <+: c :: rest)
    (hNests : ¬ NestsName (texts.map (·.1)) (c :: rest))
    (h : braced name <+: c :: fillAll texts rest) : braced name <+: c :: rest := by
  obtain ⟨tail, hTail⟩ := h
  obtain ⟨rfl, hFilled⟩ : '{' = c ∧ name.toList ++ '}' :: tail = fillAll texts rest := by
    simpa [braced] using hTail
  -- up to the next brace nothing is filled in, and that brace stays
  have hRun := braceless_takeWhile rest
  have hSplit := List.takeWhile_append_dropWhile (p := fun c => !isBrace c) (l := rest)
  generalize hRunEq : rest.takeWhile (fun c => !isBrace c) = run at hRun hSplit
  generalize hTailEq : rest.dropWhile (fun c => !isBrace c) = more at hSplit
  subst hSplit
  rw [fillAll_append hRun.opening_not_mem] at hFilled
  cases more with
  | nil =>
    rw [fillAll_nil, List.append_nil] at hFilled
    have hClosing : isBrace '}' = false := hRun '}' (by rw [← hFilled]; simp)
    exact absurd hClosing (by decide)
  | cons b more =>
    have hBrace : isBrace b = true := by
      have hHead := List.head?_dropWhile_not (fun c => !isBrace c) (run ++ b :: more)
      rw [hTailEq] at hHead
      simpa using hHead
    have hStays : ∀ entry ∈ texts, ¬ braced entry.1 <+: b :: more := by
      intro entry hEntry hPrefix
      refine hNests ⟨_, List.suffix_refl _, entry.1, List.mem_map_of_mem hEntry, ?_⟩
      rw [hTailEq]
      exact hPrefix
    rw [fillAll_cons hStays] at hFilled
    obtain ⟨hSame, rfl⟩ := hName.eq_of_append hRun rfl hBrace hFilled
    refine ⟨more, ?_⟩
    simp [braced, hSame]

theorem ClosesBraces.of_append {cs ds : List Char} (h : ClosesBraces (cs ++ ds)) :
    ClosesBraces ds := by
  unfold ClosesBraces at h ⊢
  rw [List.filter_append, List.getLast?_append] at h
  cases hLast : (ds.filter isBrace).getLast? with
  | none => simp
  | some b => simpa [hLast] using h

/-- An opening brace with no other behind it is left open. -/
theorem not_closesBraces {cs : List Char} (h : Braceless cs) : ¬ ClosesBraces ('{' :: cs) := by
  have hNone : cs.filter isBrace = [] := by
    rw [List.filter_eq_nil_iff]
    intro c hc
    simp [h c hc]
  simp [ClosesBraces, isBrace, hNone]

/-- No name is braced across the end of a text that closes its braces. -/
theorem braced_prefix_of_append {cs : List Char} (hName : Braceless name.toList)
    (hCloses : ClosesBraces cs) (hNe : cs ≠ []) (h : braced name <+: cs ++ rest) :
    braced name <+: cs := by
  rcases List.prefix_or_prefix_of_prefix h (List.prefix_append cs rest) with hWithin | hShort
  · exact hWithin
  · obtain ⟨more, hMore⟩ := hShort
    rcases List.eq_nil_or_concat more with rfl | ⟨init, last, rfl⟩
    · exact ⟨[], by simpa using hMore.symm⟩
    · -- what is there of the braced name is an opening brace and the first characters of the name
      cases cs with
      | nil => exact absurd rfl hNe
      | cons c cs =>
        obtain ⟨rfl, hRun⟩ : c = '{' ∧ cs ++ init = name.toList := by
          have hEq : (c :: cs ++ init) ++ [last] = ('{' :: name.toList) ++ ['}'] := by
            simpa [braced] using hMore
          have hFront := (List.append_inj' hEq rfl).1
          simpa using hFront
        have hRunBraceless : Braceless cs := by
          intro d hd
          exact hName d (by rw [← hRun]; exact List.mem_append_left _ hd)
        exact absurd hCloses (not_closesBraces hRunBraceless)

/-- In a text that closes its braces a name is replaced as if nothing followed. -/
theorem fillOne_append {cs : List Char} (new : List Char) (hName : Braceless name.toList)
    (h : ClosesBraces cs) :
    fillOne name new (cs ++ rest) = fillOne name new cs ++ fillOne name new rest := by
  have hNames : BracelessNames [(name, new)] := by simpa [BracelessNames] using hName
  have hLookup : List.lookup name [(name, new)] = some new := by simp
  induction hLength : cs.length using Nat.strongRecOn generalizing cs with
  | _ n ih =>
    cases cs with
    | nil => simp [fillOne]
    | cons c tail =>
      by_cases hHere : braced name <+: c :: tail
      · obtain ⟨more, hMore⟩ := hHere
        have hShorter : more.length < n := hLength ▸ length_lt_of_braced hMore
        rw [← hMore] at h ⊢
        unfold fillOne at ih ⊢
        rw [List.append_assoc, fillAll_braced hNames hLookup, fillAll_braced hNames hLookup,
          ih _ hShorter h.of_append rfl, List.append_assoc]
      · have hNot : ¬ braced name <+: c :: (tail ++ rest) := by
          intro hPrefix
          exact hHere (braced_prefix_of_append hName h (by simp) hPrefix)
        have hTail : ClosesBraces tail := by
          rw [← List.singleton_append] at h
          exact h.of_append
        unfold fillOne at ih ⊢
        rw [List.cons_append, fillAll_cons (by simpa using hNot), fillAll_cons (by simpa using hHere),
          ih tail.length (by simp [← hLength]) hTail rfl, List.cons_append]

theorem NestsName.of_cons {names : List String} {c : Char} (h : NestsName names rest) :
    NestsName names (c :: rest) := by
  obtain ⟨more, hMore, hName⟩ := h
  exact ⟨more, hMore.trans (List.suffix_cons c rest), hName⟩

theorem NestsName.of_append {names : List String} (cs : List Char) (h : NestsName names rest) :
    NestsName names (cs ++ rest) := by
  obtain ⟨more, hMore, hName⟩ := h
  exact ⟨more, hMore.trans (List.suffix_append cs rest), hName⟩

end

/-- The texts with one name replaced in each of them, and the text of that name. -/
def withOne (name : String) (text : List Char) (texts : List (String × List Char)) :
    List (String × List Char) :=
  texts.map (fun entry => (entry.1, fillOne name text entry.2)) ++ [(name, text)]

theorem exists_lookup {texts : List (String × List Char)} {entry : String × List Char}
    (h : entry ∈ texts) : ∃ text, texts.lookup entry.1 = some text := by
  cases hLookup : texts.lookup entry.1 with
  | some text => exact ⟨text, rfl⟩
  | none => simpa using List.lookup_eq_none_iff.mp hLookup entry h

theorem lookup_withOne {texts : List (String × List Char)} {name other : String}
    {old : List Char} (text : List Char) (h : texts.lookup other = some old) :
    (withOne name text texts).lookup other = some (fillOne name text old) := by
  obtain ⟨before, after, rfl, hOthers⟩ := List.lookup_eq_some_iff.mp h
  refine List.lookup_eq_some_iff.mpr
    ⟨before.map fun entry => (entry.1, fillOne name text entry.2),
      after.map (fun entry => (entry.1, fillOne name text entry.2)) ++ [(name, text)],
      by simp [withOne], ?_⟩
  intro listed hListed
  obtain ⟨entry, hEntry, rfl⟩ := List.mem_map.mp hListed
  exact hOthers entry hEntry

theorem lookup_withOne_self {texts : List (String × List Char)} {name : String} (text : List Char)
    (h : ∀ entry ∈ texts, entry.1 ≠ name) : (withOne name text texts).lookup name = some text := by
  refine List.lookup_eq_some_iff.mpr
    ⟨texts.map fun entry => (entry.1, fillOne name text entry.2), [], rfl, ?_⟩
  intro listed hListed
  obtain ⟨entry, hEntry, rfl⟩ := List.mem_map.mp hListed
  simpa using (h entry hEntry).symm

theorem bracelessNames_withOne {texts : List (String × List Char)} {name : String}
    (text : List Char) (hNames : BracelessNames texts) (hName : Braceless name.toList) :
    BracelessNames (withOne name text texts) := by
  intro listed hListed
  rcases List.mem_append.mp hListed with hOld | hNew
  · obtain ⟨entry, hEntry, rfl⟩ := List.mem_map.mp hOld
    exact hNames entry hEntry
  · obtain rfl := List.mem_singleton.mp hNew
    exact hName

/-- **One name more.** Where the texts that are filled in close their braces, filling in one name
more replaces that name in the text and in all that was filled in. -/
theorem fillOne_fillAll {texts : List (String × List Char)} {name : String} (text : List Char)
    {cs : List Char} (hNames : BracelessNames texts) (hName : Braceless name.toList)
    (hCloses : ∀ entry ∈ texts, ClosesBraces entry.2) (hNests : ¬ NestsName (texts.map (·.1)) cs) :
    fillOne name text (fillAll texts cs) = fillAll (withOne name text texts) cs := by
  have hOneNames : BracelessNames [(name, text)] := by simpa [BracelessNames] using hName
  have hOneLookup : List.lookup name [(name, text)] = some text := by simp
  have hAllNames := bracelessNames_withOne text hNames hName
  induction hLength : cs.length using Nat.strongRecOn generalizing cs with
  | _ n ih =>
    cases cs with
    | nil => simp [fillOne]
    | cons c rest =>
      by_cases hHere : ∃ entry ∈ texts, braced entry.1 <+: c :: rest
      · -- a name that was filled in before: its text closes its braces, so it is searched alone
        obtain ⟨entry, hEntry, more, hMore⟩ := hHere
        obtain ⟨old, hOld⟩ := exists_lookup hEntry
        obtain ⟨before, after, hTexts, -⟩ := List.lookup_eq_some_iff.mp hOld
        have hOldCloses : ClosesBraces old := hCloses (entry.1, old) (by simp [hTexts])
        have hShorter : more.length < n := hLength ▸ length_lt_of_braced hMore
        rw [← hMore] at hNests ⊢
        rw [fillAll_braced hNames hOld, fillOne_append text hName hOldCloses,
          ih _ hShorter (fun h => hNests (h.of_append _)) rfl,
          fillAll_braced hAllNames (lookup_withOne text hOld)]
      · simp only [not_exists, not_and] at hHere
        by_cases hOne : braced name <+: c :: rest
        · -- the name itself: it is not touched before, and then replaced
          obtain ⟨more, hMore⟩ := hOne
          have hShorter : more.length < n := hLength ▸ length_lt_of_braced hMore
          have hNew : ∀ entry ∈ texts, entry.1 ≠ name := by
            rintro entry hEntry rfl
            exact hHere entry hEntry ⟨more, hMore⟩
          have hUntouched :
              fillAll texts (braced name ++ more) = braced name ++ fillAll texts more := by
            rw [← hMore] at hHere
            simp only [braced, List.cons_append] at hHere ⊢
            rw [fillAll_cons hHere, fillAll_append hName.opening_not_mem_tail]
          rw [← hMore] at hNests ⊢
          unfold fillOne at ih ⊢
          rw [hUntouched, fillAll_braced hOneNames hOneLookup,
            ih _ hShorter (fun h => hNests (h.of_append _)) rfl,
            fillAll_braced hAllNames (lookup_withOne_self text hNew)]
        · -- any other character
          have hAll : ∀ entry ∈ withOne name text texts, ¬ braced entry.1 <+: c :: rest := by
            intro listed hListed
            rcases List.mem_append.mp hListed with hOld | hNew
            · obtain ⟨entry, hEntry, rfl⟩ := List.mem_map.mp hOld
              exact hHere entry hEntry
            · obtain rfl := List.mem_singleton.mp hNew
              exact hOne
          have hNot : ¬ braced name <+: c :: fillAll texts rest :=
            fun h => hOne (braced_prefix_of_fillAll hName hHere hNests h)
          rw [fillAll_cons hHere, fillAll_cons hAll]
          unfold fillOne at ih ⊢
          rw [fillAll_cons (by simpa using hNot),
            ih rest.length (by simp [← hLength]) (fun h => hNests h.of_cons) rfl]

/-! ## Comparing texts -/

/-- What is braced behind a text without an opening brace is braced in the rest. -/
theorem braced_infix_of_append {name : String} {run rest : List Char} (hRun : '{' ∉ run)
    (h : braced name <:+: run ++ rest) : braced name <:+: rest := by
  induction run with
  | nil => exact h
  | cons c run ih =>
    simp only [List.mem_cons, not_or] at hRun
    rcases List.infix_cons_iff.mp h with hPrefix | hInfix
    · exact absurd hPrefix (not_prefix_braced (Ne.symm hRun.1))
    · exact ih hRun.2 hInfix

theorem braced_infix_of_braced {name other : String} {rest : List Char}
    (hName : Braceless name.toList) (hOther : Braceless other.toList)
    (h : braced other <:+: braced name ++ rest) : other = name ∨ braced other <:+: rest := by
  rcases List.infix_cons_iff.mp h with hPrefix | hInfix
  · exact .inl (eq_of_prefix_braced hName hOther hPrefix)
  · exact .inr (braced_infix_of_append hName.opening_not_mem_tail hInfix)

/-- Only the texts of names that are braced in a text matter. -/
theorem fillAll_congr {texts texts' : List (String × List Char)} {cs : List Char}
    (hNames : BracelessNames texts) (hNames' : BracelessNames texts')
    (h : ∀ name, braced name <:+: cs → texts.lookup name = texts'.lookup name) :
    fillAll texts cs = fillAll texts' cs := by
  induction hLength : cs.length using Nat.strongRecOn generalizing cs with
  | _ n ih =>
    cases cs with
    | nil => simp
    | cons c rest =>
      by_cases hHere : ∃ entry ∈ texts, braced entry.1 <+: c :: rest
      · obtain ⟨entry, hEntry, more, hMore⟩ := hHere
        obtain ⟨text, hText⟩ := exists_lookup hEntry
        have hText' : texts'.lookup entry.1 = some text := by
          rw [← h entry.1 ⟨[], more, by simpa using hMore⟩, hText]
        have hShorter : more.length < n := hLength ▸ length_lt_of_braced hMore
        rw [← hMore] at h ⊢
        have hRest : ∀ name, braced name <:+: more → texts.lookup name = texts'.lookup name :=
          fun name hName => h name (hName.trans (List.suffix_append _ _).isInfix)
        rw [fillAll_braced hNames hText, fillAll_braced hNames' hText', ih _ hShorter hRest rfl]
      · simp only [not_exists, not_and] at hHere
        have hHere' : ∀ entry ∈ texts', ¬ braced entry.1 <+: c :: rest := by
          intro entry hEntry hPrefix
          obtain ⟨text, hText⟩ := exists_lookup hEntry
          rw [← h entry.1 hPrefix.isInfix] at hText
          obtain ⟨before, after, hTexts, -⟩ := List.lookup_eq_some_iff.mp hText
          exact hHere (entry.1, text) (by simp [hTexts]) hPrefix
        have hRest : ∀ name, braced name <:+: rest → texts.lookup name = texts'.lookup name :=
          fun name hName => h name (List.infix_cons hName)
        rw [fillAll_cons hHere, fillAll_cons hHere', ih rest.length (by simp [← hLength]) hRest rfl]

/-- The texts that a function gives to names. -/
def textsOf (f : String → List Char) (names : List String) : List (String × List Char) :=
  names.map fun name => (name, f name)

section

variable {f g : String → List Char} {names : List String}

theorem bracelessNames_textsOf (h : ∀ name ∈ names, Braceless name.toList) :
    BracelessNames (textsOf f names) := by
  intro entry hEntry
  obtain ⟨name, hName, rfl⟩ := List.mem_map.mp hEntry
  exact h name hName

theorem lookup_textsOf (name : String) :
    (textsOf f names).lookup name = if name ∈ names then some (f name) else none := by
  split
  case isTrue h => exact List.lookup_graph f h
  case isFalse h =>
    rw [List.lookup_eq_none_iff]
    intro entry hEntry
    obtain ⟨other, hOther, rfl⟩ := List.mem_map.mp hEntry
    simpa using fun hSame : name = other => h (hSame ▸ hOther)

/-- Longer texts make a text longer, as soon as one of them is filled in. -/
theorem length_fillAll (hNames : ∀ name ∈ names, Braceless name.toList)
    (hLe : ∀ name, (f name).length ≤ (g name).length) (cs : List Char) :
    (fillAll (textsOf f names) cs).length ≤ (fillAll (textsOf g names) cs).length ∧
      ∀ name ∈ names, (f name).length < (g name).length → braced name <:+: cs →
        (fillAll (textsOf f names) cs).length < (fillAll (textsOf g names) cs).length := by
  have hF := bracelessNames_textsOf (f := f) hNames
  have hG := bracelessNames_textsOf (f := g) hNames
  induction hLength : cs.length using Nat.strongRecOn generalizing cs with
  | _ n ih =>
    cases cs with
    | nil => simp [braced]
    | cons c rest =>
      by_cases hHere : ∃ name ∈ names, braced name <+: c :: rest
      · obtain ⟨name, hName, more, hMore⟩ := hHere
        have hShorter : more.length < n := hLength ▸ length_lt_of_braced hMore
        obtain ⟨hMoreLe, hMoreLt⟩ := ih _ hShorter more rfl
        have hHereLe := hLe name
        rw [← hMore, fillAll_braced hF ((lookup_textsOf name).trans (if_pos hName)),
          fillAll_braced hG ((lookup_textsOf name).trans (if_pos hName)), List.length_append,
          List.length_append]
        refine ⟨by omega, fun other hOther hLt hBraced => ?_⟩
        rcases braced_infix_of_braced (hNames name hName) (hNames other hOther) hBraced with
          rfl | hRest
        · omega
        · have hRestLt := hMoreLt other hOther hLt hRest
          omega
      · simp only [not_exists, not_and] at hHere
        have hNone (h : String → List Char) : ∀ entry ∈ textsOf h names,
            ¬ braced entry.1 <+: c :: rest := by
          intro entry hEntry
          obtain ⟨name, hName, rfl⟩ := List.mem_map.mp hEntry
          exact hHere name hName
        obtain ⟨hRestLe, hRestLt⟩ := ih rest.length (by simp [← hLength]) rest rfl
        rw [fillAll_cons (hNone f), fillAll_cons (hNone g), List.length_cons, List.length_cons]
        refine ⟨by omega, fun other hOther hLt hBraced => ?_⟩
        rcases List.infix_cons_iff.mp hBraced with hPrefix | hInfix
        · exact absurd hPrefix (hHere other hOther)
        · have hLt' := hRestLt other hOther hLt hInfix
          omega

end

end IntegrationCompiler
