import IntegrationCompiler.Files.Path
import IntegrationCompiler.Proofs.Text.Cutting

/-!
# Names in paths

A text without a slash is one name, and what follows the last slash of a text is the last name of
its path.

Main results:

* `Path.ofText_of_name` — the path of a name;
* `Path.ofText_parts_of_slash`, `Path.exists_join_parts` — the last name of a path.
-/

namespace IntegrationCompiler

namespace Path

/-- The last slash of a text, with what stands around it. -/
theorem exists_last_slash {cs : List Char} (h : '/' ∈ cs) :
    ∃ front back, cs = front ++ '/' :: back ∧ '/' ∉ back := by
  obtain ⟨back, front, hSplit, hBack⟩ := List.eq_append_cons_of_mem (List.mem_reverse.mpr h)
  refine ⟨front.reverse, back.reverse, ?_, fun hMem => hBack (List.mem_reverse.mp hMem)⟩
  rw [← List.reverse_reverse cs, hSplit]
  simp

variable {s : String}

theorem filter_name (hEmpty : s ≠ "") (hPoint : s ≠ ".") :
    [s].filter (fun name => name != "" && name != ".") = [s] :=
  List.filter_cons_of_pos (by simp [hEmpty, hPoint])

/-- A text is a name of its own if it has no slash and is neither empty nor a point. -/
theorem ofText_of_name (hSlash : '/' ∉ s.toList) (hEmpty : s ≠ "") (hPoint : s ≠ ".") :
    ofText s = { parts := [s] } := by
  have hRoot : rootOf s.toList = "" := by
    cases hChars : s.toList with
    | nil => rfl
    | cons c rest =>
      have hNe : (c == '/') = false := by
        rw [hChars] at hSlash
        exact beq_eq_false_iff_ne.mpr fun hEq => hSlash (hEq ▸ List.mem_cons_self)
      rw [rootOf, List.takeWhile_cons, hNe]
      rfl
  rw [ofText, hRoot, Text.splitAt_of_not_mem hSlash, List.map_singleton, String.ofList_toList,
    filter_name hEmpty hPoint]

/-- What follows the last slash of a text is its last name. -/
theorem ofText_parts_of_slash {front : List Char} {name : String}
    (hText : s.toList = front ++ '/' :: name.toList) (hSlash : '/' ∉ name.toList)
    (hEmpty : name ≠ "") (hPoint : name ≠ ".") : ∃ before, (ofText s).parts = before ++ [name] := by
  refine ⟨((Text.splitAt '/' front).map String.ofList).filter (fun name => name != "" && name != "."),
    ?_⟩
  rw [ofText, hText, Text.splitAt_append, Text.splitAt_of_not_mem hSlash, List.map_append,
    List.filter_append, List.map_singleton, String.ofList_toList, filter_name hEmpty hPoint]

/-- The last name of a path is still its last one where the path is seen from a directory. -/
theorem exists_join_parts {inner : Path} {before : List String} {name : String} (outer : Path)
    (h : inner.parts = before ++ [name]) :
    ∃ before', (outer.join inner).parts = before' ++ [name] := by
  unfold join
  split
  · exact ⟨before, h⟩
  · exact ⟨outer.parts ++ before, by rw [h, List.append_assoc]⟩

end Path

end IntegrationCompiler
