import IntegrationCompiler.Text.Blank
import IntegrationCompiler.Text.Case
import Mathlib.Data.List.Basic

/-!
# Letter case

Changing the case of a text never takes a character away; some have an image of several. In texts of
the ASCII range every image is a single character, so that case is changed letter by letter.

* `Text.of_ascii` — what holds of each of the ASCII characters, one by one;
* `Text.lower_of_ascii`, `Text.capitalize_of_ascii` — letter by letter;
* `Text.lower_capitalize`, `Text.capitalize_lower` — changing the case twice;
* `Text.length_le_lower`, `Text.upperChar_ne_nil` — nothing is taken away, in any script.
-/

namespace IntegrationCompiler.Text

/-! ## Texts of the ASCII range -/

/-- All characters of the text are in the ASCII range. -/
def IsAscii (cs : List Char) : Prop :=
  ∀ c ∈ cs, c.toNat < 0x80

instance (cs : List Char) : Decidable (IsAscii cs) :=
  decidable_of_iff (cs.all (·.toNat < 0x80) = true) (by simp [IsAscii])

/-- There are few enough ASCII characters to look at each of them. -/
theorem of_ascii {P : Char → Prop} (hEach : ∀ n < 0x80, P (Char.ofNat n)) {c : Char}
    (h : c.toNat < 0x80) : P c := by
  have hChar := hEach c.toNat h
  rwa [Char.ofNat_toNat] at hChar

section

variable {c : Char} {cs : List Char}

theorem lowerChar_of_ascii (h : c.toNat < 0x80) : lowerChar c = [c.toLower] :=
  of_ascii (P := fun c => lowerChar c = [c.toLower]) (by decide) h

theorem upperChar_of_ascii (h : c.toNat < 0x80) : upperChar c = [c.toUpper] :=
  of_ascii (P := fun c => upperChar c = [c.toUpper]) (by decide) h

theorem toNat_toLower_lt (h : c.toNat < 0x80) : c.toLower.toNat < 0x80 :=
  of_ascii (P := fun c => c.toLower.toNat < 0x80) (by decide) h

theorem toNat_toUpper_lt (h : c.toNat < 0x80) : c.toUpper.toNat < 0x80 :=
  of_ascii (P := fun c => c.toUpper.toNat < 0x80) (by decide) h

theorem toLower_toLower (h : c.toNat < 0x80) : c.toLower.toLower = c.toLower :=
  of_ascii (P := fun c => c.toLower.toLower = c.toLower) (by decide) h

theorem toLower_toUpper (h : c.toNat < 0x80) : c.toUpper.toLower = c.toLower :=
  of_ascii (P := fun c => c.toUpper.toLower = c.toLower) (by decide) h

theorem toUpper_toLower (h : c.toNat < 0x80) : c.toLower.toUpper = c.toUpper :=
  of_ascii (P := fun c => c.toLower.toUpper = c.toUpper) (by decide) h

theorem isBlank_toLower (h : c.toNat < 0x80) : isBlank c.toLower = isBlank c :=
  of_ascii (P := fun c => isBlank c.toLower = isBlank c) (by decide) h

theorem IsAscii.of_subset {cs' : List Char} (h : IsAscii cs) (hSubset : cs' ⊆ cs) : IsAscii cs' :=
  fun c hc => h c (hSubset hc)

theorem isAscii_append {front back : List Char} :
    IsAscii (front ++ back) ↔ IsAscii front ∧ IsAscii back :=
  List.forall_mem_append

theorem lower_of_ascii (h : IsAscii cs) : lower cs = cs.map Char.toLower := by
  -- what stands before matters for a final sigma only, which is no ASCII character
  have hFrom : ∀ before, lowerFrom before cs = cs.map Char.toLower := by
    induction cs with
    | nil => exact fun _ => rfl
    | cons c rest ih =>
      intro before
      have hc : c.toNat < 0x80 := h c List.mem_cons_self
      have hRest : IsAscii rest := h.of_subset (List.subset_cons_self c rest)
      have hSigma : c ≠ 'Σ' := by
        rintro rfl
        revert hc
        decide
      rw [lowerFrom, if_neg hSigma, lowerChar_of_ascii hc, ih hRest]
      rfl
  exact hFrom []

theorem capitalize_of_ascii {rest : List Char} (h : IsAscii (c :: rest)) :
    capitalize (c :: rest) = c.toUpper :: rest.map Char.toLower := by
  have hc : c.toNat < 0x80 := h c List.mem_cons_self
  have hRest : IsAscii rest := h.of_subset (List.subset_cons_self c rest)
  rw [capitalize, upperChar_of_ascii hc, lower_of_ascii hRest]
  rfl

theorem lower_append {front back : List Char} (hFront : IsAscii front) (hBack : IsAscii back) :
    lower (front ++ back) = lower front ++ lower back := by
  rw [lower_of_ascii (isAscii_append.mpr ⟨hFront, hBack⟩), lower_of_ascii hFront,
    lower_of_ascii hBack, List.map_append]

theorem isAscii_lower (h : IsAscii cs) : IsAscii (lower cs) := by
  rw [lower_of_ascii h]
  intro c hc
  obtain ⟨d, hd, rfl⟩ := List.mem_map.mp hc
  exact toNat_toLower_lt (h d hd)

theorem isAscii_capitalize (h : IsAscii cs) : IsAscii (capitalize cs) := by
  cases cs with
  | nil => exact h
  | cons c rest =>
    have hSmall := isAscii_lower h
    rw [lower_of_ascii h] at hSmall
    rw [capitalize_of_ascii h]
    intro d hd
    rcases List.mem_cons.mp hd with rfl | hd
    · exact toNat_toUpper_lt (h c List.mem_cons_self)
    · exact hSmall d (List.mem_cons_of_mem _ hd)

theorem map_toLower_map_toLower (h : IsAscii cs) :
    (cs.map Char.toLower).map Char.toLower = cs.map Char.toLower := by
  rw [List.map_map]
  refine List.map_congr_left fun c hc => ?_
  exact toLower_toLower (h c hc)

theorem lower_lower (h : IsAscii cs) : lower (lower cs) = lower cs := by
  rw [lower_of_ascii (isAscii_lower h), lower_of_ascii h, map_toLower_map_toLower h]

/-- A capital makes no difference to the text in lower case. -/
theorem lower_capitalize (h : IsAscii cs) : lower (capitalize cs) = lower cs := by
  rw [lower_of_ascii (isAscii_capitalize h), lower_of_ascii h]
  cases cs with
  | nil => rfl
  | cons c rest =>
    have hRest : IsAscii rest := h.of_subset (List.subset_cons_self c rest)
    rw [capitalize_of_ascii h, List.map_cons, List.map_cons, map_toLower_map_toLower hRest,
      toLower_toUpper (h c List.mem_cons_self)]

/-- A capital comes out the same for a text in lower case. -/
theorem capitalize_lower (h : IsAscii cs) : capitalize (lower cs) = capitalize cs := by
  cases cs with
  | nil => rfl
  | cons c rest =>
    have hRest : IsAscii rest := h.of_subset (List.subset_cons_self c rest)
    have hSmall := isAscii_lower h
    rw [lower_of_ascii h, List.map_cons] at hSmall ⊢
    rw [capitalize_of_ascii hSmall, capitalize_of_ascii h, map_toLower_map_toLower hRest,
      toUpper_toLower (h c List.mem_cons_self)]

end

/-! ## Texts of any script -/

section

variable (c : Char) (cs : List Char)

theorem lowerChar_ne_nil : lowerChar c ≠ [] := by
  unfold lowerChar
  split
  · exact List.cons_ne_nil _ _
  · split
    · exact List.cons_ne_nil _ _
    · exact List.cons_ne_nil _ _

theorem upperChar_ne_nil : upperChar c ≠ [] := by
  unfold upperChar
  split
  · exact List.cons_ne_nil _ _
  · split
    · next codes hLookup =>
      have hTable : ∀ e ∈ upperExpansions, e.2 ≠ [] := by decide
      obtain ⟨before, after, hSplit, -⟩ := List.lookup_eq_some_iff.mp hLookup
      have hCodes : codes ≠ [] := hTable (c.toNat, codes) (by rw [hSplit]; simp)
      simpa using hCodes
    · exact List.cons_ne_nil _ _

/-- A text does not get shorter in lower case. -/
theorem length_le_lower : cs.length ≤ (lower cs).length := by
  have hFrom : ∀ before, cs.length ≤ (lowerFrom before cs).length := by
    induction cs with
    | nil => exact fun _ => Nat.le_refl 0
    | cons c rest ih =>
      intro before
      have hRest := ih (c :: before)
      rw [lowerFrom, List.length_append, List.length_cons]
      split
      · rw [List.length_singleton]
        omega
      · have hImage : 0 < (lowerChar c).length :=
          List.length_pos_iff.mpr (lowerChar_ne_nil c)
        omega
  exact hFrom []

variable {cs} in
theorem lower_ne_nil (h : cs ≠ []) : lower cs ≠ [] := by
  have hPos : 0 < cs.length := List.length_pos_iff.mpr h
  exact List.ne_nil_of_length_pos (Nat.lt_of_lt_of_le hPos (length_le_lower cs))

end

end IntegrationCompiler.Text
