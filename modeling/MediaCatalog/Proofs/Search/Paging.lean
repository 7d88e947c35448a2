import MediaCatalog.Proofs.Search.Frequencies

/-!
Pages of results. A page is cut from the whole result: so many results are
passed over, and no more than the limit are given. The numbers are taken with a
sign. A limit beyond the largest signed number is none, which no result is long
enough to tell; an offset beyond it passes over nothing, and the page begins
with the first result again.
-/

namespace MediaCatalog

open Text Query

variable {α : Type} {results : List α}

namespace Page

/-- The results behind the offset, and no more of them than the limit. -/
def slice (page : Page) (results : List α) : List α :=
  let rest := results.drop page.offset.toNat
  match page.limit with
  | none => rest
  | some n => rest.take n.toNat

theorem toInt_toInt64 (n : UInt64) :
    n.toInt64.toInt = if n.toNat < 2 ^ 63 then (n.toNat : Int) else (n.toNat : Int) - 2 ^ 64 := by
  have hsigned : n.toInt64.toInt = n.toBitVec.toInt := rfl
  have hnat : n.toNat = n.toBitVec.toNat := rfl
  rw [hsigned, hnat, BitVec.toInt_eq_toNat_cond]
  split <;> split <;> omega

theorem passed_eq (page : Page) :
    page.passed = if page.offset.toNat < 2 ^ 63 then page.offset.toNat else 0 := by
  have hbound := page.offset.toNat_lt
  rw [passed, toInt_toInt64]
  split <;> omega

theorem cut_of_limit (page : Page) (hlength : results.length ≤ 2 ^ 63) :
    page.cut results =
      match page.limit with
      | none => results.drop page.passed
      | some n => (results.drop page.passed).take n.toNat := by
  obtain ⟨limit, offset⟩ := page
  cases limit with
  | none => rfl
  | some n =>
      have hbound := n.toNat_lt
      have hsigned := toInt_toInt64 n
      simp only [cut, given?]
      split at hsigned
      · rw [hsigned, if_neg (by omega)]
        rfl
      · have hwhole : (results.drop (passed ⟨some n, offset⟩)).length ≤ n.toNat := by
          rw [List.length_drop]
          omega
        rw [if_pos (by omega), List.take_of_length_le hwhole]

/-- What is read as a number that can be passed over cuts a slice. -/
theorem cut_eq_slice (page : Page) (hlength : results.length ≤ 2 ^ 63)
    (hoffset : page.offset.toNat < 2 ^ 63) : page.cut results = page.slice results := by
  rw [cut_of_limit page hlength, passed_eq, if_pos hoffset, slice]

theorem cut_of_wrapped (page : Page) (hlength : results.length ≤ 2 ^ 63)
    (hoffset : 2 ^ 63 ≤ page.offset.toNat) :
    page.cut results = slice { page with offset := 0 } results := by
  rw [cut_of_limit page hlength, passed_eq, if_neg (Nat.not_lt.mpr hoffset)]
  rfl

/-- The page of so many results that stands behind `k` others. -/
def numbered (size : UInt64) (k : Nat) : Page :=
  ⟨some size, .ofNat (k * size.toNat)⟩

theorem offset_numbered {size : UInt64} {k : Nat} (hbound : k * size.toNat < 2 ^ 63) :
    (numbered size k).offset.toNat = k * size.toNat := by
  rw [numbered, UInt64.toNat_ofNat']
  exact Nat.mod_eq_of_lt (hbound.trans (by decide))

theorem slice_numbered {size : UInt64} {k : Nat} (hbound : k * size.toNat < 2 ^ 63) :
    (numbered size k).slice results =
      (results.drop (k * size.toNat)).take size.toNat := by
  rw [slice, offset_numbered hbound]
  rfl

/-- Pages behind one another neither repeat nor leave out a result. -/
theorem flatMap_numbered (results : List α) (size : Nat) (count : Nat) :
    (List.range count).flatMap (fun k => (results.drop (k * size)).take size) =
      results.take (count * size) := by
  induction count with
  | zero => simp
  | succ count ih =>
      rw [List.range_succ, List.flatMap_append, ih, List.flatMap_singleton, Nat.succ_mul,
        List.take_add]

theorem length_bounds_le (page : Page) : page.bounds.length ≤ 2 := by
  unfold bounds
  split <;> simp

end Page

namespace Workspace

variable {ws after : Workspace} {store : Store} {query : Compiled} {orders : List SortOrder}

/-- What a deed answers for the pages of a result. -/
structure Paged (ws : Workspace) (deed : Page → Deed (List α)) (results : List α)
    (after : Workspace) : Prop where
  slice : ∀ page : Page, page.offset.toNat < 2 ^ 63 →
    ws.perform (deed page) = (.ok (page.slice results), after)
  /-- Pages behind one another make up the result, as far as they reach. -/
  consecutive : ∀ (size : UInt64) (count : Nat), count * size.toNat ≤ 2 ^ 63 →
    ∃ pages : Nat → List α,
      (∀ k < count, ws.perform (deed (.numbered size k)) = (.ok (pages k), after)) ∧
      (List.range count).flatMap pages = results.take (count * size.toNat)
  wrapped : ∀ page : Page, 2 ^ 63 ≤ page.offset.toNat →
    ws.perform (deed page) = (.ok (Page.slice { page with offset := 0 } results), after)

theorem paged_of_cut {deed : Page → Deed (List α)} (hlength : results.length ≤ 2 ^ 63)
    (hcut : ∀ page, ws.perform (deed page) = (.ok (page.cut results), after)) :
    ws.Paged deed results after where
  slice := by
    intro page hoffset
    rw [hcut, page.cut_eq_slice hlength hoffset]
  consecutive := by
    intro size count hreach
    refine ⟨fun k => (results.drop (k * size.toNat)).take size.toNat, ?_,
      Page.flatMap_numbered results size.toNat count⟩
    intro k hk
    have hnext : (k + 1) * size.toNat ≤ count * size.toNat := Nat.mul_le_mul_right _ hk
    have hbound : k * size.toNat < 2 ^ 63 := by
      rw [Nat.succ_mul] at hnext
      rcases Nat.eq_zero_or_pos size.toNat with hnone | hsome
      · rw [hnone, Nat.mul_zero]
        exact Nat.two_pow_pos 63
      · omega
    rw [hcut, Page.cut_eq_slice _ hlength, Page.slice_numbered hbound]
    exact (Page.offset_numbered hbound).trans_lt hbound
  wrapped := by
    intro page hoffset
    rw [hcut, page.cut_of_wrapped hlength hoffset]

theorem admitBounds_page (hbounds : query.predicate.bounds.length + 2 ≤ Statement.mostBounds)
    (page : Page) : Statement.admitBounds query page = .ok ⟨⟩ := by
  have hpage := page.length_bounds_le
  exact Statement.admitBounds_eq_ok.mpr (by omega)

theorem search_page {ids : List MediaId}
    (hbounds : query.predicate.bounds.length + 2 ≤ Statement.mostBounds)
    (hwhole : ws.perform (store.search query orders {}) = (.ok ids, after)) (page : Page) :
    ws.perform (store.search query orders page) = (.ok (page.cut ids), after) := by
  obtain ⟨hwritten, hknown, catalog, hread, hfound⟩ := perform_search_eq_ok.mp hwhole
  have hdepth := (Statement.admitSearch_eq_ok.mp hwritten).1
  obtain ⟨hruns, hids⟩ := Catalog.search_eq_ok.mp hfound
  rw [Catalog.cut_whole] at hids
  rw [hids]
  exact perform_search_eq_ok.mpr
    ⟨Statement.admitSearch_eq_ok.mpr ⟨hdepth, admitBounds_page hbounds page⟩, hknown, catalog,
      hread, Catalog.search_eq_ok.mpr ⟨.inr (hruns.resolve_left nofun), rfl⟩⟩

theorem tagFrequencies_page {entries : List TagFrequency}
    (hbounds : query.predicate.bounds.length + 2 ≤ Statement.mostBounds)
    (hwhole : ws.perform (store.tagFrequencies query {}) = (.ok entries, after)) (page : Page) :
    ws.perform (store.tagFrequencies query page) = (.ok (page.cut entries), after) := by
  obtain ⟨hwritten, hknown, catalog, hread, hcounted⟩ := perform_tagFrequencies_eq_ok.mp hwhole
  have hdepth := (Statement.admitTags_eq_ok.mp hwritten).1
  obtain ⟨hruns, hentries⟩ := Catalog.tagFrequencies_eq_ok.mp hcounted
  rw [Catalog.cut_whole] at hentries
  rw [hentries]
  exact perform_tagFrequencies_eq_ok.mpr
    ⟨Statement.admitTags_eq_ok.mpr ⟨hdepth, admitBounds_page hbounds page⟩, hknown, catalog,
      hread, Catalog.tagFrequencies_eq_ok.mpr ⟨.inr (hruns.resolve_left nofun), rfl⟩⟩

/-- A page is a slice of the whole result, which is the one listing that the
orders allow if they decide, and pages behind one another make up the result.
An offset of 2 ^ 63 or more is read as none. A page binds two values more than
the whole result does. -/
theorem pages_are_slices (ws : Workspace) (store : Store) (query : Compiled)
    (orders : List SortOrder)
    (hbounds : query.predicate.bounds.length + 2 ≤ Statement.mostBounds) :
    (∀ ids after, ws.perform (store.search query orders {}) = (.ok ids, after) →
      ids.length ≤ 2 ^ 63 →
        ws.Paged (store.search query orders) ids after ∧
        ∃ catalog, ws.tables? store = some catalog ∧ catalog.Listing query orders ids ∧
          (catalog.Decides query orders →
            ∀ others, catalog.Listing query orders others → others = ids)) ∧
    ∀ entries after, ws.perform (store.tagFrequencies query {}) = (.ok entries, after) →
      entries.length ≤ 2 ^ 63 →
        ws.Paged (store.tagFrequencies query) entries after ∧
        entries.Pairwise fun a b => sameCaseless a.tag b.tag = false := by
  constructor
  · intro ids after hwhole hlength
    obtain ⟨-, -, catalog, hread, hfound⟩ := perform_search_eq_ok.mp hwhole
    have hids : ids = catalog.found ws.plan query orders := (Catalog.search_eq_ok.mp hfound).2
    have hlisting : catalog.Listing query orders ids := hids ▸ Catalog.listing_found
    refine ⟨paged_of_cut hlength (search_page hbounds hwhole), catalog,
      Store.tables?_of_read (by rw [hread]), hlisting, ?_⟩
    intro hdecides others hothers
    exact hlisting.unique hothers hdecides
  · intro entries after hwhole hlength
    obtain ⟨-, -, catalog, -, hcounted⟩ := perform_tagFrequencies_eq_ok.mp hwhole
    refine ⟨paged_of_cut hlength (tagFrequencies_page hbounds hwhole), ?_⟩
    rw [(Catalog.tagFrequencies_eq_ok.mp hcounted).2]
    exact Catalog.pairwise_ofRows _

/-- The second page of one result holds the second identifier. -/
theorem pages_of_duplicated :
    (holding duplicated).perform (Workspace.store.search (compile "f~/") [] ⟨some 1, 1⟩) =
      (.ok [.numbered "#" 2], holding duplicated) := by
  obtain ⟨hsearch, -⟩ :=
    pages_are_slices (holding duplicated) Workspace.store (compile "f~/") [] (by decide)
  obtain ⟨hpaged, -⟩ := hsearch _ _ duplicated_search (by decide)
  exact hpaged.slice ⟨some 1, 1⟩ (by decide)

/-- An offset that is no signed number gives everything again, in a result
whose order is decided. -/
theorem wrappedOffset_restarts :
    duplicated.Decides (compile "f~/") [] ∧
      (holding duplicated).perform (Workspace.store.search (compile "f~/") [] {}) =
        (.ok [.numbered "#" 0, .numbered "#" 2], holding duplicated) ∧
      Page.slice ⟨none, 9223372036854775808⟩ [MediaId.numbered "#" 0, .numbered "#" 2] = [] ∧
      (holding duplicated).perform
          (Workspace.store.search (compile "f~/") [] ⟨none, 9223372036854775808⟩) =
        (.ok [.numbered "#" 0, .numbered "#" 2], holding duplicated) := by
  refine ⟨?_, duplicated_search, by decide, ?_⟩
  · unfold Catalog.Decides
    decide
  · exact search_page (by decide) duplicated_search ⟨none, 9223372036854775808⟩

end Workspace

end MediaCatalog
