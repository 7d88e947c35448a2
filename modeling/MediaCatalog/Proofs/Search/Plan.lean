import MediaCatalog.Proofs.Query.Grammar
import MediaCatalog.Search.Execute

/-!
Queries that always run. Whatever a database settles for itself, it answers a
query of which every pattern is short enough, both with what the query finds
and with its tags.
-/

namespace MediaCatalog

open Text Query

namespace Query

section Patterns

variable {pattern : String}

/-- No pattern that a test binds is too long to compare with. -/
def Test.Comparable (test : Test) : Prop :=
  ∀ pattern, Bound.text pattern ∈ test.bounds → Like.tooComplex pattern = false

theorem comparable_likeBounds (hshort : Like.tooComplex pattern = false) :
    ∀ other, Bound.text other ∈ likeBounds pattern → Like.tooComplex other = false := by
  intro other hother
  simp only [likeBounds, List.mem_pair, Bound.text.injEq] at hother
  rcases hother with rfl | rfl
  · exact hshort
  · decide

theorem Test.comparable_pathLike (hshort : Like.tooComplex pattern = false) :
    (Test.pathLike pattern).Comparable :=
  comparable_likeBounds hshort

theorem Test.comparable_tagLike (hshort : Like.tooComplex pattern = false) :
    (Test.tagLike pattern).Comparable :=
  comparable_likeBounds hshort

theorem Test.comparable_tagsBelow (n : Int) : (Test.tagsBelow n).Comparable := by
  simp [Test.Comparable, Test.bounds]

theorem Test.comparable_tagsAbove (n : Int) : (Test.tagsAbove n).Comparable := by
  simp [Test.Comparable, Test.bounds]

end Patterns

namespace Compiled

variable {query : Compiled}

theorem comparable_iff :
    query.Comparable ↔ ∀ condition ∈ conditionsOf query.clauses, condition.test.Comparable := by
  simp only [Comparable, Test.Comparable, predicate, predicateOf, boundsOf_eq, List.mem_flatMap,
    Condition.bounds]
  constructor
  · intro hquery condition hasked pattern hpattern
    exact hquery pattern ⟨condition, hasked, hpattern⟩
  · rintro htests pattern ⟨condition, hasked, hpattern⟩
    exact htests condition hasked pattern hpattern

theorem comparable_nil (hclauses : query.clauses = []) : query.Comparable := by
  rw [comparable_iff, hclauses]
  exact fun _ hnone => absurd hnone List.not_mem_nil

theorem comparable_single {condition : Condition}
    (hclauses : query.clauses = [.test .and condition]) (hshort : condition.test.Comparable) :
    query.Comparable := by
  rw [comparable_iff, hclauses]
  intro asked hasked
  obtain rfl := List.mem_singleton.mp hasked
  exact hshort

end Compiled

end Query

namespace Catalog

variable {catalog : Catalog} {plan : Plan} {query : Compiled} {orders : List SortOrder}
  {page : Page}

/-- When something is answered that is not compared for a page of no length. -/
theorem answered_iff {α : Type} {fails : Bool} {result value : α} :
    (if page.given? != some 0 && fails then .error .tooComplex else .ok result :
      Except SearchFault α) = .ok value ↔
        (page.given? = some 0 ∨ fails = false) ∧ value = result := by
  have hsame : (.ok result : Except SearchFault α) = .ok value ↔ value = result := by
    rw [Except.ok.injEq]
    exact eq_comm
  by_cases hnone : page.given? = some 0
  · simp [hnone, hsame]
  · cases fails <;> simp [hnone, hsame]

theorem search_eq_ok {ids : List MediaId} :
    catalog.search plan query orders page = .ok ids ↔
      (page.given? = some 0 ∨ plan.searchFails catalog query orders = false) ∧
        ids = page.cut (catalog.found plan query orders) :=
  answered_iff

theorem tagFrequencies_eq_ok {entries : List TagFrequency} :
    catalog.tagFrequencies plan query page = .ok entries ↔
      (page.given? = some 0 ∨ plan.countFails catalog query = false) ∧
        entries = page.cut (TagFrequency.ofRows (plan.tags catalog query)) :=
  answered_iff

theorem search_of_comparable (hquery : query.Comparable) (page : Page) :
    catalog.search plan query orders page = .ok (page.cut (catalog.found plan query orders)) := by
  refine search_eq_ok.mpr ⟨.inr ?_, rfl⟩
  rw [← Bool.not_eq_true]
  exact fun hfails => plan.searchFails_long catalog query orders hfails hquery

theorem tagFrequencies_of_comparable (hquery : query.Comparable) (page : Page) :
    catalog.tagFrequencies plan query page =
      .ok (page.cut (TagFrequency.ofRows (plan.tags catalog query))) := by
  refine tagFrequencies_eq_ok.mpr ⟨.inr ?_, rfl⟩
  rw [← Bool.not_eq_true]
  exact fun hfails => plan.countFails_long catalog query hfails hquery

end Catalog

end MediaCatalog
