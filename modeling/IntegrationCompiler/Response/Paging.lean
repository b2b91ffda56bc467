import IntegrationCompiler.Response.Shaping

/-!
# Paging

Fetching page after page. A page that is not full, or does not say that there is more, is the last
one.

Main definitions:

* `PaginationPlan.isLast` — whether a page is the last one;
* `PaginationPlan.collect` — the query of each fetch, and the items of all pages.
-/

namespace IntegrationCompiler.PaginationPlan

/-- The query of a fetch. -/
def query (plan : PaginationPlan) (size offset : Int) : Entries :=
  Entries.update [] [(.str plan.limitParam, .int size), (.str plan.offsetParam, .int offset)]

/-- Whether a page says that there is more. -/
def hasMore (plan : PaginationPlan) (payload : Value) : Bool :=
  match payload with
  | .map es => match Entries.getOrNull es plan.hasMoreProperty with
    | .bool b => b
    | _ => false
  | _ => false

/-- Whether a page is the last one. -/
def isLast (plan : PaginationPlan) (size : Int) (payload : Value) : Bool :=
  !plan.hasMore payload || ((plan.extraction.items payload).length : Int) != size

/-- The queries of the fetches from an offset on, and the items that they bring. After the given
pages there are only empty answers. -/
def collectFrom (plan : PaginationPlan) (size : Int) : Int → List Value → List Entries × List Value
  | offset, [] => ([plan.query size offset], plan.extraction.items .null)
  | offset, payload :: rest =>
    let items := plan.extraction.items payload
    if plan.isLast size payload then ([plan.query size offset], items)
    else
      let (queries, more) := collectFrom plan size (offset + size) rest
      (plan.query size offset :: queries, items ++ more)

/-- The size of a page: the one asked for, unless it is zero, or that of the plan. -/
def sizeFor (plan : PaginationPlan) (limit : Option Int) : Int :=
  match limit with
  | some n => if n = 0 then plan.pageSize else n
  | none => plan.pageSize

/-- The queries of all fetches, and the items of all pages. -/
def collect (plan : PaginationPlan) (pages : List Value) (limit : Option Int) :
    List Entries × List Value :=
  plan.collectFrom (plan.sizeFor limit) 0 pages

end IntegrationCompiler.PaginationPlan
