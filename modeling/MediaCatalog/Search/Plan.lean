import MediaCatalog.Query.Compiled
import MediaCatalog.Search.Meaning

/-!
What a database settles for itself. It promises neither in which order it comes
upon files and tags nor how many comparisons it makes, and its answers show
both: an identifier stands where the first of its files does, a tag is spelled
as it was met first, and a query with a pattern too long to compare with fails
only if it comes to that comparison.
-/

namespace MediaCatalog

open Text Query

namespace Query

def Bound.isLong : Bound → Bool
  | .text s => Like.tooComplex s
  | .integer _ => false

/-- No pattern that a query binds is too long to compare with. -/
def Compiled.Comparable (query : Compiled) : Prop :=
  ∀ pattern, Bound.text pattern ∈ query.predicate.bounds → Like.tooComplex pattern = false

instance (query : Compiled) : Decidable query.Comparable :=
  decidable_of_iff (∀ bound ∈ query.predicate.bounds, bound.isLong = false)
    ⟨fun hshort _ hbound => hshort _ hbound, fun hshort bound hbound =>
      match bound with
      | .text pattern => hshort pattern hbound
      | .integer _ => rfl⟩

end Query

/-- How a database goes about its statements. It meets what is asked for, each
row once, and fails only where a pattern is too long. -/
structure Plan where
  hits : Catalog → Compiled → List SortOrder → List Catalog.Hit
  hits_perm : ∀ catalog query orders,
    (hits catalog query orders).Perm (catalog.matching query.clauses)
  tags : Catalog → Compiled → List TagRow
  tags_perm : ∀ catalog query, (tags catalog query).Perm (catalog.tagsMatching query.clauses)
  searchFails : Catalog → Compiled → List SortOrder → Bool
  searchFails_long : ∀ catalog query orders,
    searchFails catalog query orders = true → ¬ query.Comparable
  countFails : Catalog → Compiled → Bool
  countFails_long : ∀ catalog query, countFails catalog query = true → ¬ query.Comparable

/-- Goes through the tables from the first row to the last, and comes to every
comparison as soon as there is a file. -/
def Plan.inTurn : Plan where
  hits catalog query _ := catalog.matching query.clauses
  hits_perm _ _ _ := .refl _
  tags catalog query := catalog.tagsMatching query.clauses
  tags_perm _ _ := .refl _
  searchFails catalog query _ := !catalog.live.isEmpty && !decide query.Comparable
  searchFails_long := by simp
  countFails catalog query := !catalog.live.isEmpty && !decide query.Comparable
  countFails_long := by simp

end MediaCatalog
