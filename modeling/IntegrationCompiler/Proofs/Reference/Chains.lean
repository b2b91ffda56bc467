import IntegrationCompiler.Proofs.Reference.Termination

/-!
# Chains of references

What is no schema is not expanded: an object that is a reference stands for what the reference names,
and if this is a reference again, for what that one names. Such a chain may be long, and it may run
into a cycle at any of its members.

* `Resolver.Chain` — some references lead, one after the other, from a value to another;
* `Resolver.Stop` — where a chain goes on no longer, and what is found there;
* `Resolver.Chain.splits`, `Resolver.Chain.circles` — of two chains from one value, one goes on where
  the other ends; and a chain on which a reference comes twice never leaves its cycle;
* `Resolver.deref_stops` — what a chain comes to is what is found where it stops. In particular it is
  never a reference, and no chain is followed further than there are references.
-/

namespace IntegrationCompiler

open Resolving Value

/-- What an object holds under the key of references. -/
def Value.refEntry? : Value → Option Value
  | .map entries => Entries.get? entries "$ref"
  | _ => none

theorem Value.ref?_eq_some_iff {v : Value} {ref : String} :
    v.ref? = some ref ↔ v.refEntry? = some (.str ref) := by
  cases v with
  | map entries =>
    unfold ref? refEntry?
    dsimp only
    constructor
    · intro h
      split at h
      · next hEntry =>
        cases h
        exact hEntry
      · cases h
    · intro h
      rw [h]
  | _ => simp [ref?, refEntry?]

namespace Resolver

/-! ## What a reference comes to -/

/-- The reference names a value of the document. -/
def Names (document : Value) (ref : String) (v : Value) : Prop :=
  ∃ segments, Pointer.segments? ref = some segments ∧ Pointer.find document segments = .value v

/-- The reference is one to another document, or to a place that the document does not have. -/
def NamesNothing (document : Value) (ref : String) : Prop :=
  Pointer.segments? ref = none ∨
    ∃ segments missing, Pointer.segments? ref = some segments ∧
      Pointer.find document segments = .missing missing

/-- The reference asks a list for an item by characters that are called digits and spell no index:
superscripts, say, or more digits than can be read. -/
def Illegible (document : Value) (ref : String) : Prop :=
  ∃ segments, Pointer.segments? ref = some segments ∧ Pointer.find document segments = .noIndex

section

variable {document v w : Value} {ref : String}

theorem Names.referent (h : Names document ref v) : referent document ref = .ok v := by
  obtain ⟨segments, hSegments, hFind⟩ := h
  rw [Resolver.referent, hSegments]
  dsimp only
  rw [hFind]

theorem NamesNothing.referent (h : NamesNothing document ref) :
    referent document ref = .ok .null := by
  rcases h with hSegments | ⟨segments, missing, hSegments, hFind⟩
  · rw [Resolver.referent, hSegments]
  · rw [Resolver.referent, hSegments]
    dsimp only
    rw [hFind]

theorem Illegible.referent (h : Illegible document ref) :
    referent document ref = .error .malformed := by
  obtain ⟨segments, hSegments, hFind⟩ := h
  rw [Resolver.referent, hSegments]
  dsimp only
  rw [hFind]

/-- A reference names a value, names nothing, or cannot be read. -/
theorem names_cases (document : Value) (ref : String) :
    (∃ v, Names document ref v) ∨ NamesNothing document ref ∨ Illegible document ref := by
  cases hSegments : Pointer.segments? ref with
  | none => exact .inr (.inl (.inl hSegments))
  | some segments =>
    cases hFind : Pointer.find document segments with
    | value v => exact .inl ⟨v, segments, hSegments, hFind⟩
    | missing missing => exact .inr (.inl (.inr ⟨segments, missing, hSegments, hFind⟩))
    | noIndex => exact .inr (.inr ⟨segments, hSegments, hFind⟩)

theorem Names.unique (h : Names document ref v) (h' : Names document ref w) : v = w := by
  have hSame : Except.ok v = Except.ok w := h.referent.symm.trans h'.referent
  exact Except.ok.inj hSame

theorem Names.not_namesNothing (h : Names document ref v) : ¬ NamesNothing document ref := by
  obtain ⟨segments, hSegments, hFind⟩ := h
  rintro (hNone | ⟨others, missing, hOthers, hMissing⟩)
  · rw [hSegments] at hNone
    cases hNone
  · rw [hSegments] at hOthers
    cases hOthers
    rw [hFind] at hMissing
    cases hMissing

theorem Names.not_illegible (h : Names document ref v) : ¬ Illegible document ref := by
  intro hIllegible
  have hSame := h.referent.symm.trans hIllegible.referent
  cases hSame

theorem NamesNothing.not_illegible (h : NamesNothing document ref) :
    ¬ Illegible document ref := by
  intro hIllegible
  have hSame := h.referent.symm.trans hIllegible.referent
  cases hSame

end

/-! ## Chains -/

/-- Some references, in their order, lead from the first value to the last: the first value is the
first of them, and what it names is the second, and so on. -/
inductive Chain (document : Value) : Value → List String → Value → Prop where
  | here (v : Value) : Chain document v [] v
  | follow {v next w : Value} {ref : String} {refs : List String} :
    v.ref? = some ref → Names document ref next → Chain document next refs w →
    Chain document v (ref :: refs) w

/-- At the end of a chain: what is found there, when the references in `seen` have been followed. -/
inductive Stop (document : Value) (seen : List String) (w : Value) : Except Failure Value → Prop where
  | value : w.refEntry? = none → Stop document seen w (.ok w)
  | nothing {ref : String} : w.ref? = some ref → NamesNothing document ref →
    Stop document seen w (.ok .null)
  | visited {ref : String} : w.ref? = some ref → ref ∈ seen → Stop document seen w (.ok .null)
  | illegible {ref : String} : w.ref? = some ref → Illegible document ref →
    Stop document seen w (.error .malformed)

/-- The references that a chain comes to are texts. -/
def TextRefs (document v : Value) : Prop :=
  ∀ refs w, Chain document v refs w → ∀ entry, w.refEntry? = some entry → ∃ ref, entry = .str ref

section

variable {document v w : Value} {refs : List String}

/-- What is kept from each object of a chain to the next, holds of its end. -/
theorem Chain.of_closed {P : Value → Prop} (h : Chain document v refs w) (hStart : P v)
    (hStep : ∀ u next ref, P u → u.ref? = some ref → Names document ref next → P next) : P w := by
  induction h with
  | here => exact hStart
  | follow hRef hNames _ ih => exact ih (hStep _ _ _ hStart hRef hNames)

/-- What has been followed has led somewhere. -/
theorem Chain.names_of_mem (h : Chain document v refs w) {ref : String} (hMem : ref ∈ refs) :
    ∃ next, Names document ref next := by
  induction h with
  | here => cases hMem
  | follow _ hNames _ ih =>
    rcases List.mem_cons.mp hMem with rfl | hMem
    · exact ⟨_, hNames⟩
    · exact ih hMem

/-- The references of a chain are written in the document, or in the object that it starts at. -/
theorem Chain.subset (h : Chain document v refs w) : refs ⊆ document.refs ++ v.refs := by
  induction h with
  | here => exact List.nil_subset _
  | follow hRef hNames _ ih =>
    have hWritten : _ ⊆ document.refs := refs_subset_of_referent hNames.referent
    have hFirst := List.mem_append_right document.refs (mem_refs_of_ref? hRef)
    refine List.cons_subset.mpr ⟨hFirst, ?_⟩
    intro ref hMem
    -- after the first step, all that is written is written in the document
    rcases List.mem_append.mp (ih hMem) with hDocument | hNext
    · exact List.mem_append_left _ hDocument
    · exact List.mem_append_left _ (hWritten hNext)

/-- **Chains do not branch.** Of two chains from one value, the longer one goes on from the end of
the other. -/
theorem Chain.splits {refs' : List String} {w' : Value} (h : Chain document v refs w)
    (h' : Chain document v refs' w') (hLength : refs.length ≤ refs'.length) :
    ∃ more, refs' = refs ++ more ∧ Chain document w more w' := by
  induction h generalizing refs' with
  | here => exact ⟨refs', rfl, h'⟩
  | follow hRef hNames _ ih =>
    cases h' with
    | here => simp at hLength
    | follow hRef' hNames' hRest =>
      -- both chains start with the reference that the value is, and so with what it names
      have hSameRef := Option.some.inj (hRef.symm.trans hRef')
      subst hSameRef
      have hSameNext := hNames.unique hNames'
      subst hSameNext
      have hShorter := Nat.le_of_succ_le_succ hLength
      obtain ⟨more, hMore, hOn⟩ := ih hRest hShorter
      exact ⟨more, by rw [hMore, List.cons_append], hOn⟩

/-- Before a reference of a chain stands an object that is this reference. -/
theorem Chain.before {front back : List String} {ref : String}
    (h : Chain document v (front ++ ref :: back) w) :
    ∃ next, Names document ref next ∧ Chain document next back w := by
  induction front generalizing v with
  | nil =>
    cases h with
    | follow _ hNames hRest => exact ⟨_, hNames, hRest⟩
  | cons first rest ih =>
    cases h with
    | follow _ _ hRest => exact ih hRest

/-- **A cycle is never left.** Where a reference comes twice on a chain, the end of the chain is one
of its references once more. -/
theorem Chain.circles (h : Chain document v refs w) (hTwice : ¬ refs.Nodup) :
    ∃ ref ∈ refs, w.ref? = some ref := by
  induction h with
  | here => exact absurd List.nodup_nil hTwice
  | @follow v next w ref refs hRef hNames hRest ih =>
    by_cases hNodup : refs.Nodup
    · -- the first reference comes again, and what it names with it
      have hAgain : ref ∈ refs := by
        by_contra hNew
        exact hTwice (List.nodup_cons.mpr ⟨hNew, hNodup⟩)
      obtain ⟨front, back, rfl⟩ := List.append_of_mem hAgain
      obtain ⟨next', hNames', hBack⟩ := hRest.before
      have hSame := hNames.unique hNames'
      subst hSame
      -- so the chain from there to the end is shorter than the one it is the rest of
      have hShorter : back.length ≤ (front ++ ref :: back).length := by
        simp only [List.length_append, List.length_cons]
        omega
      obtain ⟨more, hMore, hOn⟩ := hBack.splits hRest hShorter
      cases hOn with
      | here =>
        have hLength := congrArg List.length hMore
        simp only [List.length_append, List.length_cons, List.length_nil] at hLength
        omega
      | @follow _ _ _ last others hLast _ _ =>
        refine ⟨last, List.mem_cons_of_mem _ ?_, hLast⟩
        rw [hMore]
        exact List.mem_append_right _ List.mem_cons_self
    · obtain ⟨last, hMem, hLast⟩ := ih hNodup
      exact ⟨last, List.mem_cons_of_mem _ hMem, hLast⟩

theorem TextRefs.next {next : Value} {ref : String} (h : TextRefs document v)
    (hRef : v.ref? = some ref) (hNames : Names document ref next) : TextRefs document next :=
  fun refs w hChain => h (ref :: refs) w (.follow hRef hNames hChain)

/-- An object of the chain is no reference, or one that can be followed. -/
theorem TextRefs.cases (h : TextRefs document v) : v.refEntry? = none ∨ ∃ ref, v.ref? = some ref := by
  cases hEntry : v.refEntry? with
  | none => exact .inl rfl
  | some entry =>
    obtain ⟨ref, rfl⟩ := h [] v (.here v) entry hEntry
    exact .inr ⟨ref, ref?_eq_some_iff.mpr hEntry⟩

end

/-! ## Where chains stop -/

section

variable {document v w : Value} {seen refs : List String} {out : Except Failure Value}

theorem Stop.mono {seen' : List String} (h : Stop document seen w out) (hSeen : seen ⊆ seen') :
    Stop document seen' w out := by
  cases h with
  | value hEntry => exact .value hEntry
  | nothing hRef hNothing => exact .nothing hRef hNothing
  | visited hRef hMem => exact .visited hRef (hSeen hMem)
  | illegible hRef hIllegible => exact .illegible hRef hIllegible

/-- What is found is no reference. -/
theorem Stop.refEntry? {found : Value} (h : Stop document seen w (.ok found)) :
    found.refEntry? = none := by
  cases h with
  | value hEntry => exact hEntry
  | nothing => rfl
  | visited => rfl

/-- Without a reference at its end, a chain comes to the value there. -/
theorem Stop.eq_value (h : Stop document seen w out) (hEntry : w.refEntry? = none) : out = .ok w := by
  have hNone : ∀ ref, w.ref? ≠ some ref := by
    intro ref hRef
    have hSome := ref?_eq_some_iff.mp hRef
    rw [hEntry] at hSome
    cases hSome
  cases h with
  | value => rfl
  | nothing hRef => exact absurd hRef (hNone _)
  | visited hRef => exact absurd hRef (hNone _)
  | illegible hRef => exact absurd hRef (hNone _)

/-- Why a chain stops at a reference, and what is found. -/
theorem Stop.cases_of_ref (h : Stop document seen w out) {ref : String} (hRef : w.ref? = some ref) :
    (NamesNothing document ref ∨ ref ∈ seen) ∧ out = .ok .null ∨
      Illegible document ref ∧ out = .error .malformed := by
  have hSame {other : String} (hOther : w.ref? = some other) : other = ref :=
    Option.some.inj (hOther.symm.trans hRef)
  cases h with
  | value hEntry =>
    have hSome := ref?_eq_some_iff.mp hRef
    rw [hEntry] at hSome
    cases hSome
  | nothing hOther hNothing => exact .inl ⟨.inl (hSame hOther ▸ hNothing), rfl⟩
  | visited hOther hMem => exact .inl ⟨.inr (hSame hOther ▸ hMem), rfl⟩
  | illegible hOther hIllegible => exact .inr ⟨hSame hOther ▸ hIllegible, rfl⟩

/-- Where a chain that stops could be followed, it has come to a visited reference. -/
theorem Stop.visited_of_names (h : Stop document seen w out) {ref : String} {next : Value}
    (hRef : w.ref? = some ref) (hNames : Names document ref next) : ref ∈ seen ∧ out = .ok .null := by
  rcases h.cases_of_ref hRef with ⟨hNothing | hSeen, hOut⟩ | ⟨hIllegible, -⟩
  · exact absurd hNothing hNames.not_namesNothing
  · exact ⟨hSeen, hOut⟩
  · exact absurd hIllegible hNames.not_illegible

/-- At one end, one thing is found. -/
theorem Stop.unique_here {out' : Except Failure Value} (hChain : Chain document v refs w)
    (h : Stop document refs w out) (h' : Stop document refs w out') : out = out' := by
  cases hRef : w.ref? with
  | none =>
    -- only a value without a reference can be the end of both
    cases h with
    | value hEntry => exact (h'.eq_value hEntry).symm
    | nothing hSome => simp [hRef] at hSome
    | visited hSome => simp [hRef] at hSome
    | illegible hSome => simp [hRef] at hSome
  | some ref =>
    -- what has been visited can be read
    have hRead : Illegible document ref → ref ∉ refs := by
      intro hIllegible hMem
      obtain ⟨next, hNext⟩ := hChain.names_of_mem hMem
      exact hNext.not_illegible hIllegible
    rcases h.cases_of_ref hRef with ⟨hWhy, rfl⟩ | ⟨hIllegible, rfl⟩
    · rcases h'.cases_of_ref hRef with ⟨-, hOut'⟩ | ⟨hIllegible, -⟩
      · exact hOut'.symm
      · rcases hWhy with hNothing | hMem
        · exact absurd hIllegible hNothing.not_illegible
        · exact absurd hMem (hRead hIllegible)
    · rcases h'.cases_of_ref hRef with ⟨hNothing | hMem, -⟩ | ⟨-, hOut'⟩
      · exact absurd hIllegible hNothing.not_illegible
      · exact absurd hMem (hRead hIllegible)
      · exact hOut'.symm

/-- A chain that goes on where another one stops is on a cycle, and comes to nothing as well. -/
theorem Stop.unique_later {more : List String} {w' : Value} {out' : Except Failure Value}
    (hChain : Chain document v (refs ++ more) w') (hOn : Chain document w more w')
    (h : Stop document refs w out) (h' : Stop document (refs ++ more) w' out') : out = out' := by
  cases hOn with
  | here => exact h.unique_here (by simpa using hChain) (by simpa using h')
  | @follow _ _ _ ref rest hRef hNames _ =>
    obtain ⟨hSeen, hOut⟩ := h.visited_of_names hRef hNames
    have hTwice : ¬ (refs ++ ref :: rest).Nodup := by
      intro hNodup
      have hDisjoint := List.disjoint_of_nodup_append hNodup
      exact hDisjoint hSeen List.mem_cons_self
    -- the end of the longer chain is a reference that can be followed, too
    obtain ⟨last, hMem, hLast⟩ := hChain.circles hTwice
    obtain ⟨next, hNext⟩ := hChain.names_of_mem hMem
    obtain ⟨-, hOut'⟩ := h'.visited_of_names hLast hNext
    rw [hOut, hOut']

/-- **A chain comes to one thing**, wherever it is said to stop. -/
theorem Stop.unique {refs' : List String} {w' : Value} {out' : Except Failure Value}
    (hChain : Chain document v refs w) (h : Stop document refs w out)
    (hChain' : Chain document v refs' w') (h' : Stop document refs' w' out') : out = out' := by
  rcases Nat.le_total refs.length refs'.length with hLe | hLe
  · obtain ⟨more, rfl, hOn⟩ := hChain.splits hChain' hLe
    exact h.unique_later hChain' hOn h'
  · obtain ⟨more, rfl, hOn⟩ := hChain'.splits hChain hLe
    exact (h'.unique_later hChain hOn h).symm

end

/-! ## Following chains -/

section

variable {document v : Value}

theorem derefTo_of_value (hEntry : v.refEntry? = none) (budget : Nat) (seen : List String) :
    derefTo document (budget + 1) seen v = pure v := by
  cases v with
  | map entries =>
    have hGet : Entries.get? entries "$ref" = none := hEntry
    unfold derefTo
    dsimp only
    rw [hGet]
  | _ => rfl

theorem derefTo_of_visited {ref : String} (hRef : v.ref? = some ref) (budget : Nat)
    {seen : List String} (hMem : ref ∈ seen) (s : Session) :
    ((derefTo document (budget + 1) seen v).on s).1 = .ok .null := by
  cases v with
  | map entries =>
    unfold derefTo
    dsimp only
    rw [get?_of_ref?_eq_some hRef]
    dsimp only
    rw [if_pos (List.contains_iff_mem.mpr hMem)]
    rfl
  | _ => cases hRef

theorem derefTo_of_new {ref : String} (hRef : v.ref? = some ref) (budget : Nat)
    {seen : List String} (hNew : ref ∉ seen) :
    derefTo document (budget + 1) seen v =
      lookup document ref >>= derefTo document budget (ref :: seen) := by
  cases v with
  | map entries =>
    rw [derefTo, get?_of_ref?_eq_some hRef]
    exact if_neg (mt List.contains_iff_mem.mp hNew)
  | _ => cases hRef

/-- Following the rest of a chain, with the references in `seen` behind it, comes to what is found
where the chain stops. The references that are new get fewer with each step, and so the budget is
never used up. -/
theorem derefTo_stops (hTexts : TextRefs document v) {budget : Nat} {seen : List String}
    (hBudget : Call.idle document ⟨seen, v⟩ < budget) (s : Session) :
    ∃ refs w, Chain document v refs w ∧
      Stop document (seen ++ refs) w ((derefTo document budget seen v).on s).1 := by
  induction budget generalizing seen v s with
  | zero => omega
  | succ budget ih =>
    rcases hTexts.cases with hEntry | ⟨ref, hRef⟩
    · rw [derefTo_of_value hEntry]
      exact ⟨[], v, .here v, .value hEntry⟩
    · by_cases hMem : ref ∈ seen
      · rw [derefTo_of_visited hRef budget hMem]
        exact ⟨[], v, .here v, .visited hRef (List.mem_append_left _ hMem)⟩
      · -- a lookup leaves remarks, and its outcome is what the reference comes to
        obtain ⟨log, hLookup⟩ := lookup_on document ref s
        rw [derefTo_of_new hRef budget hMem, on_bind, hLookup]
        rcases names_cases document ref with ⟨next, hNames⟩ | hNothing | hIllegible
        · have hLess := Call.idle_target_lt hRef hMem hNames.referent
          have hRest : Call.idle document ⟨ref :: seen, next⟩ < budget := by omega
          rw [hNames.referent]
          obtain ⟨refs, w, hChain, hStop⟩ :=
            ih (hTexts.next hRef hNames) hRest { s with log := log }
          refine ⟨ref :: refs, w, .follow hRef hNames hChain, hStop.mono ?_⟩
          intro other hOther
          simpa [or_left_comm] using hOther
        · -- null is no reference, and the budget is enough to see that
          have hLess := Call.idle_target_lt hRef hMem hNothing.referent
          rw [hNothing.referent]
          cases budget with
          | zero => omega
          | succ rest => exact ⟨[], v, .here v, .nothing hRef hNothing⟩
        · rw [hIllegible.referent]
          exact ⟨[], v, .here v, .illegible hRef hIllegible⟩

end

/-- **What a chain of references comes to is what is found where it stops**: the value at its end,
null if it comes to a reference that names nothing or that has been followed before, or a failure if
it comes to one that cannot be read. This is never a reference; and since only references that are
written in the document or in the first object are followed, and each of them once, following ends. -/
theorem deref_stops {document v : Value} (hTexts : TextRefs document v) (s : Session) :
    (∀ out, ((deref document v).on s).1 = out ↔
      ∃ refs w, Chain document v refs w ∧ Stop document refs w out) ∧
    (∀ found, ((deref document v).on s).1 = .ok found → found.refEntry? = none) ∧
    ∀ refs w, Chain document v refs w → refs.Nodup →
      refs.length ≤ (document.refs ++ v.refs).length := by
  have hBudget : Call.idle document ⟨[], v⟩ < budget document v := by
    have hIdle := Call.idle_le document v []
    rw [budget]
    omega
  obtain ⟨refs, w, hChain, hStop⟩ := derefTo_stops hTexts hBudget s
  rw [List.nil_append] at hStop
  refine ⟨fun out => ⟨?_, ?_⟩, fun found hFound => ?_, fun refs w hChain hNodup => ?_⟩
  · rintro rfl
    exact ⟨refs, w, hChain, hStop⟩
  · rintro ⟨refs', w', hChain', hStop'⟩
    exact hStop.unique hChain hChain' hStop'
  · rw [deref] at hFound
    rw [hFound] at hStop
    exact hStop.refEntry?
  · exact (hNodup.subperm hChain.subset).length_le

/-- Parameters that are references; the last leads back to the second. -/
def roundabout : Entries :=
  [(.str "components", .object [("parameters", .object [
    ("Limit", ofRef "#/components/parameters/Page"),
    ("Page", ofRef "#/components/parameters/Size"),
    ("Size", ofRef "#/components/parameters/Page")])])]

theorem names_roundabout {ref : String} {next : Value}
    (hRef : ref ∈ ["#/components/parameters/Limit", "#/components/parameters/Page",
      "#/components/parameters/Size"]) (hNames : Names (.map roundabout) ref next) :
    next = ofRef "#/components/parameters/Page" ∨ next = ofRef "#/components/parameters/Size" := by
  simp only [List.mem_cons, List.not_mem_nil, or_false] at hRef
  rcases hRef with rfl | rfl | rfl
  · exact .inl (hNames.unique ⟨_, rfl, rfl⟩)
  · exact .inr (hNames.unique ⟨_, rfl, rfl⟩)
  · exact .inl (hNames.unique ⟨_, rfl, rfl⟩)

theorem textRefs_roundabout :
    TextRefs (.map roundabout) (ofRef "#/components/parameters/Limit") := by
  intro refs w hChain
  have hMember : ∃ ref ∈ ["#/components/parameters/Limit", "#/components/parameters/Page",
      "#/components/parameters/Size"], w = ofRef ref := by
    refine hChain.of_closed (P := fun w => ∃ ref ∈ _, w = ofRef ref) ⟨_, by simp, rfl⟩ ?_
    rintro _ next other ⟨ref, hMem, rfl⟩ hRef hNames
    cases hRef
    rcases names_roundabout hMem hNames with rfl | rfl
    · exact ⟨_, by simp, rfl⟩
    · exact ⟨_, by simp, rfl⟩
  obtain ⟨ref, -, rfl⟩ := hMember
  intro entry hEntry
  cases hEntry
  exact ⟨ref, rfl⟩

/-- The cycle is entered at the second parameter, and left there for nothing. -/
theorem deref_stops_roundabout :
    ((deref (.map roundabout) (ofRef "#/components/parameters/Limit")).on {}).1 = .ok .null := by
  refine ((deref_stops textRefs_roundabout {}).1 _).mpr ?_
  refine ⟨["#/components/parameters/Limit", "#/components/parameters/Page",
    "#/components/parameters/Size"], ofRef "#/components/parameters/Page", ?_,
    .visited rfl (by simp)⟩
  exact .follow rfl ⟨_, rfl, rfl⟩ (.follow rfl ⟨_, rfl, rfl⟩ (.follow rfl ⟨_, rfl, rfl⟩ (.here _)))

/-- A document in which a list stands. -/
def sharedParameters : Entries :=
  [(.str "parameters", .list [.object [("name", .str "page"), ("in", .str "query")]])]

/-- A digit that is no index names nothing, and yet the chain does not come to null. -/
theorem deref_not_null :
    ((deref (.map sharedParameters) (ofRef "#/parameters/²")).on {}).1 ≠ .ok .null := by
  intro h
  have hFails : ((deref (.map sharedParameters) (ofRef "#/parameters/²")).on {}).1.isOk = false := by
    decide +kernel
  rw [h] at hFails
  cases hFails

end Resolver

end IntegrationCompiler
