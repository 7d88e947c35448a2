import MediaCatalog.Proofs.Search.Join
import MediaCatalog.Proofs.Text.Caseless

/-!
The order of what a search finds. The orders of a query compare records, and an
identifier may be found by several of them, so that it may stand in several
places. A listing is any sequence that the orders allow: each identifier stands
where one of its records belongs. The list that a search answers is one of
them, and it is the only one where the orders tell all identifiers apart,
whichever records they are found by.
-/

namespace MediaCatalog

open Std Text Query

section Sorting

variable {α β : Type} (cmp : α → α → Ordering) [TransCmp cmp]

/-- Values are compared by what they are mapped to. -/
theorem transCmp_on (key : β → α) : TransCmp fun a b => cmp (key a) (key b) where
  eq_swap := OrientedCmp.eq_swap
  isLE_trans := TransCmp.isLE_trans

/-- The other direction compares the other way round. -/
theorem transCmp_swap : TransCmp fun a b => (cmp a b).swap := by
  have hopposite : (fun a b => (cmp a b).swap) = fun a b => cmp b a := by
    funext a b
    exact OrientedCmp.eq_swap.symm
  rw [hopposite]
  exact TransCmp.opposite

theorem bne_gt_eq_isLE (order : Ordering) : (order != .gt) = order.isLE := by
  cases order <;> rfl

theorem pairwise_mergeSort_isLE (items : List α) :
    (items.mergeSort fun a b => cmp a b != .gt).Pairwise fun a b => (cmp a b).isLE := by
  simp only [bne_gt_eq_isLE]
  apply List.pairwise_mergeSort
  · intro a b c
    exact TransCmp.isLE_trans
  · intro a b
    have hswap : cmp a b = (cmp b a).swap := OrientedCmp.eq_swap
    rw [hswap]
    cases cmp b a <;> rfl

end Sorting

section Orders

instance (order : SortOrder) : TransCmp order.compare := by
  obtain ⟨column, direction⟩ := order
  have hascending : TransCmp (SortOrder.compare ⟨column, .ascending⟩) := by
    cases column with
    | file => exact transCmp_on compareCaseless FileRecord.path
    | fileSize => exact transCmp_on Ord.compare FileRecord.storedSize
    | modified => exact transCmp_on Ord.compare FileRecord.modified
  cases direction with
  | ascending => exact hascending
  | descending => exact transCmp_swap (SortOrder.compare ⟨column, .ascending⟩)

instance (orders : List SortOrder) : TransCmp (compareBy orders) := by
  induction orders with
  | nil => exact { eq_swap := rfl, isLE_trans := fun _ _ => rfl }
  | cons order rest ih =>
      exact inferInstanceAs (TransCmp (compareLex order.compare (compareBy rest)))

theorem compareBy_swap (orders : List SortOrder) (a b : FileRecord) :
    compareBy orders a b = (compareBy orders b a).swap :=
  OrientedCmp.eq_swap

end Orders

namespace Catalog

variable {catalog : Catalog} {plan : Plan} {query : Compiled} {orders : List SortOrder}
  {ids : List MediaId}

/-- A sequence of all identifiers found that the orders allow. Each stands for
one of the records that it is found by. -/
structure Listing (catalog : Catalog) (query : Compiled) (orders : List SortOrder)
    (ids : List MediaId) : Prop where
  nodup : ids.Nodup
  mem_iff : ∀ id, id ∈ ids ↔ ∃ file, (file, id) ∈ catalog.matching query.clauses
  sorted : ∃ picked : List Hit, picked.map Prod.snd = ids ∧
    picked ⊆ catalog.matching query.clauses ∧
    picked.Pairwise fun a b => (compareBy (effectiveOrders orders) a.1 b.1).isLE

/-- The orders tell any two identifiers found apart, and in the same way
whichever records they are found by. -/
def Decides (catalog : Catalog) (query : Compiled) (orders : List SortOrder) : Prop :=
  ∀ a ∈ catalog.matching query.clauses, ∀ b ∈ catalog.matching query.clauses, a.2 ≠ b.2 →
    compareBy (effectiveOrders orders) a.1 b.1 ≠ .eq ∧
    ∀ other ∈ catalog.matching query.clauses, other.2 = a.2 →
      compareBy (effectiveOrders orders) other.1 b.1 =
        compareBy (effectiveOrders orders) a.1 b.1

section Unique

variable {a b a' b' : Hit}

theorem Decides.compare_eq (hdecides : catalog.Decides query orders)
    (ha : a ∈ catalog.matching query.clauses) (hb : b ∈ catalog.matching query.clauses)
    (ha' : a' ∈ catalog.matching query.clauses) (hb' : b' ∈ catalog.matching query.clauses)
    (hsame : a'.2 = a.2) (hsame' : b'.2 = b.2) (hne : a.2 ≠ b.2) :
    compareBy (effectiveOrders orders) a'.1 b'.1 = compareBy (effectiveOrders orders) a.1 b.1 := by
  have hfirst := (hdecides a ha b hb hne).2 a' ha' hsame
  have hother := (hdecides b hb a' ha' (by rw [hsame]; exact hne.symm)).2 b' hb' hsame'
  rw [← hfirst, compareBy_swap, hother, ← compareBy_swap]

/-- The first of two identifiers has a record that comes before one of the
second. -/
def Before (catalog : Catalog) (query : Compiled) (orders : List SortOrder)
    (id other : MediaId) : Prop :=
  ∃ a ∈ catalog.matching query.clauses, ∃ b ∈ catalog.matching query.clauses,
    a.2 = id ∧ b.2 = other ∧ compareBy (effectiveOrders orders) a.1 b.1 = .lt

theorem Listing.pairwise_before (hlisting : catalog.Listing query orders ids)
    (hdecides : catalog.Decides query orders) : ids.Pairwise (catalog.Before query orders) := by
  obtain ⟨picked, rfl, hpicked, hsorted⟩ := hlisting.sorted
  have hdistinct := List.pairwise_map.mp hlisting.nodup
  refine List.pairwise_map.mpr ((hsorted.and hdistinct).imp_of_mem ?_)
  rintro a b ha hb ⟨hle, hne⟩
  refine ⟨a, hpicked ha, b, hpicked hb, rfl, rfl, ?_⟩
  have hdecided := (hdecides a (hpicked ha) b (hpicked hb) hne).1
  exact (Ordering.isLE_iff_eq_lt_or_eq_eq.mp hle).resolve_right hdecided

theorem Before.asymm (hdecides : catalog.Decides query orders) {id other : MediaId}
    (hbefore : catalog.Before query orders id other)
    (hbehind : catalog.Before query orders other id) : id = other := by
  obtain ⟨a, ha, b, hb, rfl, rfl, hless⟩ := hbefore
  obtain ⟨b', hb', a', ha', hsame', hsame, hless'⟩ := hbehind
  by_contra hne
  have hmore : compareBy (effectiveOrders orders) b'.1 a'.1 = .gt := by
    rw [compareBy_swap, hdecides.compare_eq ha hb ha' hb' hsame hsame' hne, hless]
    rfl
  rw [hless'] at hmore
  cases hmore

/-- Where the orders decide, there is one listing only. -/
theorem Listing.unique {others : List MediaId} (hlisting : catalog.Listing query orders ids)
    (hothers : catalog.Listing query orders others) (hdecides : catalog.Decides query orders) :
    others = ids := by
  have hmem (id : MediaId) : id ∈ others ↔ id ∈ ids := by
    rw [hothers.mem_iff, hlisting.mem_iff]
  exact List.Perm.eq_of_pairwise
    (fun _ _ _ _ hbefore hbehind => hbefore.asymm hdecides hbehind)
    (hothers.pairwise_before hdecides) (hlisting.pairwise_before hdecides)
    ((List.perm_ext_iff_of_nodup hothers.nodup hlisting.nodup).mpr hmem)

end Unique

section Found

/-- What a search answers is a listing. -/
theorem listing_found : catalog.Listing query orders (catalog.found plan query orders) where
  nodup := nodup_found
  mem_iff := fun _ => mem_found
  sorted := by
    have hcompare : TransCmp fun a b : Hit => compareBy (effectiveOrders orders) a.1 b.1 :=
      transCmp_on (compareBy _) Prod.fst
    let met := (plan.hits catalog query orders).eraseDupsBy fun a b => a.2 == b.2
    refine ⟨met.mergeSort fun a b => compareBy (effectiveOrders orders) a.1 b.1 != .gt, rfl, ?_, ?_⟩
    · intro hit hhit
      have hmet : hit ∈ met := (List.mergeSort_perm _ _).subset hhit
      exact (plan.hits_perm catalog query orders).subset ((eraseDupsBy_sublist _ _).subset hmet)
    · exact pairwise_mergeSort_isLE _ _

end Found

end Catalog

end MediaCatalog
