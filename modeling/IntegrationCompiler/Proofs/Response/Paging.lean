import IntegrationCompiler.Proofs.Value.Tree
import IntegrationCompiler.Response.Paging
import Mathlib.Data.List.Basic

/-!
# Paging through a list

A server that hands out a list page by page is read to its end: every item is fetched once, and the
items stand in their order. The server has to say that there is more wherever there is; at the end
it may say anything, since a page that is not full ends the loop as well.

* `PaginationPlan.queries` — the queries of fetches in a row;
* `PaginationPlan.Serves` — a server that pages through a list;
* `items_of_isPage`, `not_isLast_of_more`, `full_of_not_isLast` — what one page brings, and where the
  last one is;
* `collectFrom_served` — the items from an offset on;
* `collect_served` — the whole list, with at most one fetch more than there are full pages.
-/

namespace IntegrationCompiler.PaginationPlan

/-- The queries of fetches in a row, each a page further than the one before. -/
def queries (plan : PaginationPlan) (size offset fetches : Nat) : List Entries :=
  (List.range fetches).map fun i => plan.query size (offset + i * size : Nat)

/-- An answer that holds the page of a list at an offset. It says that there is more wherever there
is more; otherwise nothing is known of what it says. -/
structure IsPage (plan : PaginationPlan) (name : String) (items : List Value) (size offset : Nat)
    (answer : Entries) : Prop where
  listed : Entries.get? answer name = some (.list ((items.drop offset).take size))
  more : offset + size < items.length →
    Entries.get? answer plan.hasMoreProperty = some (.bool true)

/-- A server that pages through a list. No query is made twice, so it does not matter whether the
server would answer in the same way again. -/
def Serves (plan : PaginationPlan) (name : String) (items : List Value) (size : Nat)
    (server : Entries → Value) : Prop :=
  ∀ offset : Nat, ∃ answer, server (plan.query size offset) = .map answer ∧
    plan.IsPage name items size offset answer

section

variable {plan : PaginationPlan} {name : String} {items : List Value} {size offset : Nat}

theorem queries_zero : plan.queries size offset 0 = [] := rfl

theorem queries_succ (fetches : Nat) : plan.queries size offset (fetches + 1) =
    plan.query size offset :: plan.queries size (offset + size) fetches := by
  unfold queries
  rw [List.range_succ_eq_map, List.map_cons, List.map_map]
  congr 1
  · simp
  · refine List.map_congr_left fun i _ => ?_
    have hPlace : offset + (i + 1) * size = offset + size + i * size := by
      rw [Nat.add_one_mul]
      omega
    simp only [Function.comp_apply, Nat.succ_eq_add_one, hPlace]

/-! ## One page -/

section

variable {answer : Entries} (hProperty : plan.extraction = ⟨.property, some name⟩)
  (hPage : plan.IsPage name items size offset answer)

include hProperty hPage

theorem items_of_isPage : plan.extraction.items (.map answer) = (items.drop offset).take size := by
  have hFound : Entries.find? (.str name) answer = some (.list ((items.drop offset).take size)) :=
    hPage.listed
  rw [hProperty]
  simp only [ArrayExtraction.items, keyOf, hFound, itemsOf]

/-- A page is not the last one as long as there is more: it is full, and the server says so. -/
theorem not_isLast_of_more (hMore : offset + size < items.length) :
    plan.isLast size (.map answer) = false := by
  have hSays : plan.hasMore (.map answer) = true := by
    simp only [hasMore, Entries.getOrNull, hPage.more hMore, Option.getD_some]
  have hFull : ((items.drop offset).take size).length = size := by
    rw [List.length_take, List.length_drop]
    omega
  simp [isLast, hSays, items_of_isPage hProperty hPage, hFull]

/-- A page that is not the last one is full. -/
theorem full_of_not_isLast (hSize : 0 < size) (hGoesOn : plan.isLast size (.map answer) = false) :
    offset + size ≤ items.length := by
  simp only [isLast, items_of_isPage hProperty hPage, Bool.or_eq_false_iff, bne_eq_false_iff_eq,
    List.length_take, List.length_drop] at hGoesOn
  omega

end

/-! ## All pages -/

variable {server : Entries → Value} (hProperty : plan.extraction = ⟨.property, some name⟩)
  (hSize : 0 < size) (hServes : plan.Serves name items size server)

include hProperty hSize hServes

/-- The loop reads the list from an offset on. It ends by itself: answers that are kept ready beyond
the fetches it needs are not looked at. -/
theorem collectFrom_served (offset : Nat) :
    ∃ fetches ≤ (items.length - offset) / size + 1, ∀ n ≥ fetches,
      plan.collectFrom size offset ((plan.queries size offset n).map server) =
        (plan.queries size offset fetches, items.drop offset) := by
  -- by induction on how many items are left
  induction hLeft : items.length - offset using Nat.strongRecOn generalizing offset with
  | ind left ih =>
    obtain ⟨answer, hAnswer, hPage⟩ := hServes offset
    have hItems := items_of_isPage hProperty hPage
    cases hLast : plan.isLast size (.map answer) with
    | true =>
      -- nothing is left behind the last page
      have hRest : (items.drop offset).take size = items.drop offset := by
        refine List.take_of_length_le ?_
        by_contra hMore
        rw [List.length_drop] at hMore
        rw [not_isLast_of_more hProperty hPage (by omega)] at hLast
        cases hLast
      refine ⟨1, Nat.le_add_left 1 _, fun n hn => ?_⟩
      obtain ⟨more, rfl⟩ : ∃ more, n = more + 1 := ⟨n - 1, by omega⟩
      rw [queries_succ, queries_succ, queries_zero, List.map_cons, hAnswer, collectFrom]
      simp only [hLast, if_true, hItems, hRest]
    | false =>
      have hFull := full_of_not_isLast hProperty hPage hSize hLast
      obtain ⟨fetches, hFetches, hRest⟩ := ih (items.length - (offset + size)) (by omega)
        (offset + size) rfl
      have hCount : left / size = (items.length - (offset + size)) / size + 1 := by
        rw [← Nat.add_div_right _ hSize]
        congr 1
        omega
      refine ⟨fetches + 1, by omega, fun n hn => ?_⟩
      obtain ⟨more, rfl⟩ : ∃ more, n = more + 1 := ⟨n - 1, by omega⟩
      have hNext := hRest more (by omega)
      rw [Int.natCast_add] at hNext
      rw [queries_succ, queries_succ, List.map_cons, hAnswer, collectFrom]
      simp only [hLast, hNext, hItems, Bool.false_eq_true, if_false]
      rw [← List.drop_drop, List.take_append_drop]

/-- **Paging loses nothing and repeats nothing.** A list that a server pages through is read as it
is, with at most one fetch more than it has full pages. The fetches ask for one page after another,
and however many answers the server has ready, the loop ends after the same one. -/
theorem collect_served {limit : Option Int} (hLimit : plan.sizeFor limit = size) :
    ∃ fetches ≤ items.length / size + 1, ∀ n ≥ fetches,
      plan.collect ((plan.queries size 0 n).map server) limit =
        (plan.queries size 0 fetches, items) := by
  have hAll := collectFrom_served hProperty hSize hServes 0
  unfold collect
  rw [hLimit]
  rwa [Nat.sub_zero, List.drop_zero] at hAll

end

/-- A server with four tasks that always says that there are more. -/
def taskServer (query : Entries) : Value :=
  match Entries.getOrNull query "offset" with
  | .int offset => .object [
      ("tasks", .list (([.int 1, .int 2, .int 3, .int 4].drop offset.toNat).take 2)),
      ("has_more", .bool true)]
  | _ => .null

/-- Two tasks are asked for at a time. The page after the last task is empty and ends the loop. -/
theorem collect_served_taskServer :
    let plan : PaginationPlan := { extraction := ⟨.property, some "tasks"⟩ }
    let tasks : List Value := [.int 1, .int 2, .int 3, .int 4]
    plan.Serves "tasks" tasks 2 taskServer ∧
    (∃ fetches ≤ tasks.length / 2 + 1, ∀ n ≥ fetches,
      plan.collect ((plan.queries 2 0 n).map taskServer) (some 2) =
        (plan.queries 2 0 fetches, tasks)) ∧
    plan.collect ((plan.queries 2 0 5).map taskServer) (some 2) = (plan.queries 2 0 3, tasks) := by
  intro plan tasks
  have hServes : plan.Serves "tasks" tasks 2 taskServer :=
    fun offset => ⟨_, rfl, rfl, fun _ => rfl⟩
  have hLimit : plan.sizeFor (some 2) = (2 : Nat) := rfl
  have hAll := collect_served rfl (by decide) hServes hLimit
  exact ⟨hServes, hAll, rfl⟩

end IntegrationCompiler.PaginationPlan
