import MediaCatalog.Proofs.Catalog.TagRuns
import MediaCatalog.Proofs.Query.Depth
import MediaCatalog.Proofs.Query.Expression
import MediaCatalog.Proofs.Search.Ordering
import MediaCatalog.Proofs.Search.Plan
import MediaCatalog.Proofs.Workspace.Search

/-!
The count of tags on what a search finds. The search lists each identifier
once, whichever files it is found by, and the count looks at the rows of tags;
both go by the same identifiers. So every tag that any of them shows is counted
once, whatever the case of its letters, by those that show it.
-/

namespace MediaCatalog

open Std Text Query

/-- The most frequent tag comes first, and tags that are as frequent are in
their own order. -/
def TagFrequency.order (a b : TagFrequency) : Ordering :=
  (compare b.count a.count).then (compareCaseless a.tag b.tag)

instance : TransCmp TagFrequency.order := by
  have hcount : TransCmp fun a b : TagFrequency => compare b.count a.count :=
    transCmp_on (fun m n : Nat => compare n m) TagFrequency.count
  have htag : TransCmp fun a b : TagFrequency => compareCaseless a.tag b.tag :=
    transCmp_on compareCaseless TagFrequency.tag
  exact inferInstanceAs (TransCmp (compareLex (fun a b : TagFrequency => compare b.count a.count)
    fun a b => compareCaseless a.tag b.tag))

namespace Catalog

variable {catalog : Catalog} {ids : List MediaId} {item : MediaId} {tag : String}
  {rows : List TagRow} {entry : TagFrequency}

/-- The entries count the tags that the identifiers show: each tag once, in a
spelling that it has there, with the number of identifiers that show it. -/
structure TagCounts (catalog : Catalog) (ids : List MediaId) (entries : List TagFrequency) :
    Prop where
  listed : ∀ tag, (∃ entry ∈ entries, sameCaseless entry.tag tag = true) ↔
    ∃ id ∈ ids, catalog.shows id tag = true
  once : entries.Pairwise fun a b => sameCaseless a.tag b.tag = false
  spelled : ∀ entry ∈ entries, ∃ row ∈ catalog.tags,
    row.deleted = false ∧ row.item ∈ ids ∧ row.tag = entry.tag
  counted : ∀ entry ∈ entries,
    entry.count = (ids.filter fun id => catalog.shows id entry.tag).length
  sorted : entries.Pairwise fun a b =>
    b.count < a.count ∨ a.count = b.count ∧ compareCaseless a.tag b.tag = .lt

theorem shows_iff : catalog.shows item tag = true ↔
    ∃ row ∈ catalog.tags, row.item = item ∧ sameCaseless row.tag tag = true ∧
      row.deleted = false := by
  simp only [shows, List.any_eq_true, mem_tagRows, TagRow.isFor_iff, Bool.not_eq_true',
    and_assoc]

/-- The rows are the live tags on the identifiers, in any order. -/
def TagsOn (catalog : Catalog) (ids : List MediaId) (rows : List TagRow) : Prop :=
  ∀ row, row ∈ rows ↔ row ∈ catalog.tags ∧ row.deleted = false ∧ row.item ∈ ids

/-- The identifiers that a tag is counted for. -/
def carriers (rows : List TagRow) (tag : String) : List MediaId :=
  ((rows.filter fun row => sameCaseless row.tag tag).map TagRow.item).eraseDups

theorem TagsOn.mem_carriers (hrows : catalog.TagsOn ids rows) :
    item ∈ carriers rows tag ↔ item ∈ ids ∧ catalog.shows item tag = true := by
  simp only [carriers, List.mem_eraseDups, List.mem_map, List.mem_filter, hrows _, shows_iff]
  constructor
  · rintro ⟨row, ⟨⟨hrow, hlive, hitem⟩, htag⟩, rfl⟩
    exact ⟨hitem, row, hrow, rfl, htag, hlive⟩
  · rintro ⟨hitem, row, hrow, rfl, htag, hlive⟩
    exact ⟨row, ⟨⟨hrow, hlive, hitem⟩, htag⟩, rfl⟩

theorem TagsOn.length_carriers (hrows : catalog.TagsOn ids rows) (hids : ids.Nodup)
    (tag : String) :
    (carriers rows tag).length = (ids.filter fun id => catalog.shows id tag).length := by
  have hmem (id : MediaId) :
      id ∈ carriers rows tag ↔ id ∈ ids.filter fun id => catalog.shows id tag := by
    rw [hrows.mem_carriers, List.mem_filter]
  exact ((List.perm_ext_iff_of_nodup (nodup_eraseDups _) (hids.filter _)).mpr hmem).length_eq

/-- The tags of some rows, each in the spelling of its first row. -/
def spellings (rows : List TagRow) : List String :=
  (rows.map TagRow.tag).eraseDupsBy sameCaseless

theorem TagsOn.exists_spelling (hrows : catalog.TagsOn ids rows) :
    (∃ spelling ∈ spellings rows, sameCaseless spelling tag = true) ↔
      ∃ id ∈ ids, catalog.shows id tag = true := by
  rw [spellings, keyed_sameCaseless.exists_eraseDupsBy_iff]
  simp only [List.mem_map, hrows _, shows_iff]
  constructor
  · rintro ⟨_, ⟨row, ⟨hrow, hlive, hitem⟩, rfl⟩, htag⟩
    exact ⟨row.item, hitem, row, hrow, rfl, htag, hlive⟩
  · rintro ⟨_, hitem, row, hrow, rfl, htag, hlive⟩
    exact ⟨row.tag, ⟨row, ⟨hrow, hlive, hitem⟩, rfl⟩, htag⟩

theorem perm_ofRows (rows : List TagRow) :
    (TagFrequency.ofRows rows).Perm ((spellings rows).map fun tag =>
      ⟨tag, (carriers rows tag).length⟩) :=
  List.mergeSort_perm _ _

theorem mem_ofRows : entry ∈ TagFrequency.ofRows rows ↔
    entry.tag ∈ spellings rows ∧ entry.count = (carriers rows entry.tag).length := by
  rw [(perm_ofRows rows).mem_iff, List.mem_map]
  constructor
  · rintro ⟨tag, htag, rfl⟩
    exact ⟨htag, rfl⟩
  · rintro ⟨htag, hcount⟩
    exact ⟨entry.tag, htag, by rw [← hcount]⟩

theorem pairwise_ofRows (rows : List TagRow) :
    (TagFrequency.ofRows rows).Pairwise fun a b => sameCaseless a.tag b.tag = false := by
  refine (perm_ofRows rows).symm.pairwise ?_ fun hdiffer => ?_
  · rw [List.pairwise_map]
    exact keyed_sameCaseless.pairwise_eraseDupsBy _
  · rw [← Bool.not_eq_true] at hdiffer ⊢
    exact fun hsame => hdiffer (sameCaseless_symm hsame)

theorem sorted_ofRows (rows : List TagRow) :
    (TagFrequency.ofRows rows).Pairwise fun a b => (TagFrequency.order a b).isLE :=
  pairwise_mergeSort_isLE TagFrequency.order _

/-- The tags on some identifiers, counted by those identifiers. -/
theorem TagsOn.tagCounts (hrows : catalog.TagsOn ids rows) (hids : ids.Nodup) :
    catalog.TagCounts ids (TagFrequency.ofRows rows) where
  listed := by
    intro tag
    have hspelled : (∃ entry ∈ TagFrequency.ofRows rows, sameCaseless entry.tag tag = true) ↔
        ∃ spelling ∈ spellings rows, sameCaseless spelling tag = true := by
      constructor
      · rintro ⟨entry, hentry, htag⟩
        exact ⟨entry.tag, (mem_ofRows.mp hentry).1, htag⟩
      · rintro ⟨spelling, hspelling, htag⟩
        let entry : TagFrequency := ⟨spelling, (carriers rows spelling).length⟩
        exact ⟨entry, mem_ofRows.mpr ⟨hspelling, rfl⟩, htag⟩
    rw [hspelled, hrows.exists_spelling]
  once := pairwise_ofRows rows
  spelled := by
    intro entry hentry
    have hfirst := (eraseDupsBy_sublist sameCaseless _).subset (mem_ofRows.mp hentry).1
    obtain ⟨row, hrow, htag⟩ := List.mem_map.mp hfirst
    obtain ⟨hmem, hlive, hitem⟩ := (hrows row).mp hrow
    exact ⟨row, hmem, hlive, hitem, htag⟩
  counted := by
    intro entry hentry
    rw [(mem_ofRows.mp hentry).2, hrows.length_carriers hids]
  sorted := by
    refine ((sorted_ofRows rows).and (pairwise_ofRows rows)).imp ?_
    rintro a b ⟨hle, hdiffer⟩
    have hne : compareCaseless a.tag b.tag ≠ .eq := by
      rintro heq
      simp [sameCaseless, heq] at hdiffer
    rw [TagFrequency.order, Ordering.isLE_then_iff_or] at hle
    rcases hle with hcount | ⟨hcount, htag⟩
    · exact .inl (Nat.compare_eq_lt.mp hcount)
    · exact .inr ⟨(Nat.compare_eq_eq.mp hcount).symm,
        (Ordering.isLE_iff_eq_lt_or_eq_eq.mp htag).resolve_right hne⟩

/-- The rows that a count of tags goes through are on what a search lists,
whatever the plan of either. -/
theorem tagsOn_found (plan other : Plan) (query : Compiled) (orders : List SortOrder) :
    catalog.TagsOn (catalog.found other query orders) (plan.tags catalog query) := by
  intro row
  rw [(plan.tags_perm catalog query).mem_iff, mem_found]
  simp [tagsMatching]

end Catalog

namespace Workspace

variable {ws after : Workspace} {store : Store} {query : Compiled} {ids : List MediaId}

/-- Two copies of a file, and another one. They have a tag in common, which is
in capitals on one of them, and one that was deleted. -/
def duplicated : Catalog where
  files := [⟨"/a", 1, 0, "5a", .numbered "#" 0, false⟩,
    ⟨"/b", 1, 0, "5a", .numbered "#" 1, false⟩, ⟨"/c", 1, 0, "5c", .numbered "#" 2, false⟩]
  canonical := [⟨"5a", .numbered "#" 0⟩, ⟨"5c", .numbered "#" 2⟩]
  tags := [⟨.numbered "#" 0, "x", 0, false⟩, ⟨.numbered "#" 2, "X", 0, false⟩,
    ⟨.numbered "#" 2, "y", 0, true⟩]

theorem comparable_anywhere : (compile "f~/").Comparable := by
  have hbounds : (compile "f~/").predicate.bounds = [.text "%/%", .text "\\"] := by decide
  intro pattern hpattern
  rw [hbounds, List.mem_pair, Bound.text.injEq, Bound.text.injEq] at hpattern
  rcases hpattern with rfl | rfl <;> decide

theorem duplicated_search :
    (holding duplicated).perform (Workspace.store.search (compile "f~/") [] {}) =
      (.ok [.numbered "#" 0, .numbered "#" 2], holding duplicated) := by
  have hfound :
      duplicated.found .inTurn (compile "f~/") [] = [.numbered "#" 0, .numbered "#" 2] := by
    let met := (duplicated.matching (compile "f~/").clauses).eraseDupsBy fun a b => a.2 == b.2
    have hsorted : met.Pairwise fun a b =>
        (compareBy (effectiveOrders []) a.1 b.1 != .gt) = true := by decide
    have hfirst : met.map Prod.snd = [.numbered "#" 0, .numbered "#" 2] := by decide
    rw [Catalog.found, ← hfirst]
    exact congrArg (List.map Prod.snd) (List.mergeSort_of_pairwise hsorted)
  refine perform_search_eq_ok.mpr ⟨by decide, by decide, duplicated, holding_read _ _, ?_⟩
  rw [Catalog.search_of_comparable comparable_anywhere]
  exact congrArg Except.ok hfound

/-- The count of tags on what a query finds goes by the identifiers that the
search lists. It runs where the search does, unless it is too deep or a pattern
too long: its statement has the whole condition within another one, which is too
deep only for hundreds of words. -/
theorem tagFrequencies_count_found
    (hsearch : ws.perform (store.search query [] {}) = (.ok ids, after)) :
    ids.Nodup ∧ ∃ catalog, ws.tables? store = some catalog ∧
      (∀ entries left, ws.perform (store.tagFrequencies query {}) = (.ok entries, left) →
        catalog.TagCounts ids entries) ∧
      (query.reach query.tagsDepth ≤ Statement.deepest → query.Comparable →
        ∃ entries, ws.perform (store.tagFrequencies query {}) = (.ok entries, after)) ∧
      ∀ text maxWords, query = compileWithin text maxWords → maxWords ≤ 491 →
        query.reach query.tagsDepth ≤ Statement.deepest := by
  obtain ⟨hwritten, -, catalog, hread, hfound⟩ := perform_search_eq_ok.mp hsearch
  have hids : ids = catalog.found ws.plan query [] := (Catalog.search_eq_ok.mp hfound).2
  have hnodup : ids.Nodup := hids ▸ Catalog.nodup_found
  have htables : ws.tables? store = some catalog := Store.tables?_of_read (by rw [hread])
  refine ⟨hnodup, catalog, htables, ?_, ?_, ?_⟩
  · intro entries left hcounted
    obtain ⟨-, -, other, hother, hentries⟩ := perform_tagFrequencies_eq_ok.mp hcounted
    have hsame : other = catalog := by
      have hagain := hother.symm.trans (perform_read_congr .tags hread)
      exact Except.ok.inj (congrArg Prod.fst hagain)
    subst hsame
    rw [(Catalog.tagFrequencies_eq_ok.mp hentries).2]
    apply Catalog.TagsOn.tagCounts _ hnodup
    rw [hids]
    exact Catalog.tagsOn_found ws.plan ws.plan query []
  · intro hdepth hshort
    have hbounds := (Statement.admitSearch_eq_ok.mp hwritten).2
    have hnested : query.tagsDepth ≤ Statement.deepest := by
      unfold Compiled.reach at hdepth
      omega
    exact ⟨_, perform_tagFrequencies_eq_ok.mpr
      ⟨Statement.admitTags_eq_ok.mpr ⟨hnested, hbounds⟩, Statement.admitDepth_eq_ok.mpr hdepth,
        catalog, perform_read_congr .tags hread, Catalog.tagFrequencies_of_comparable hshort {}⟩⟩
  · rintro text maxWords rfl hfew
    exact reach_tagsDepth_compileWithin text hfew

/-- The copies count as one. -/
theorem tagFrequencies_count_copies :
    ∃ entries, (holding duplicated).perform (Workspace.store.tagFrequencies (compile "f~/") {}) =
        (.ok entries, holding duplicated) ∧
      duplicated.TagCounts [.numbered "#" 0, .numbered "#" 2] entries := by
  obtain ⟨-, catalog, hcatalog, hcounts, hruns, hshallow⟩ :=
    tagFrequencies_count_found duplicated_search
  rw [holding_tables, Option.some.injEq] at hcatalog
  subst hcatalog
  have hdepth := hshallow "f~/" defaultMaxWords rfl (by decide)
  obtain ⟨entries, hentries⟩ := hruns hdepth comparable_anywhere
  exact ⟨entries, hentries, hcounts entries _ hentries⟩

/-- A query of hundreds of terms finds a file with a tag, and is too deep to
count it. -/
theorem deepCount_refused :
    (holding duplicated).perform
        (Workspace.store.search (Compiled.repeated "f~a" 495) [] {}) =
        (.ok [.numbered "#" 0], holding duplicated) ∧
      duplicated.shows (.numbered "#" 0) "x" = true ∧
      (holding duplicated).perform
          (Workspace.store.tagFrequencies (Compiled.repeated "f~a" 495) {}) =
        (.error (.ofStatement .tooDeep), holding duplicated) := by
  have hterm : IsTerm "f~a" := ⟨isWord_of_plain (by decide) rfl, by decide, by decide⟩
  have hcondition : (Term.ofWord "f~a").condition = ⟨false, .pathLike "%a%"⟩ := by decide
  have hclauses := Compiled.clauses_repeated hterm 495
  have hwritten := Compiled.writtenDepth_repeated hterm 495
  generalize Compiled.repeated "f~a" 495 = query at hclauses hwritten ⊢
  rw [hcondition] at hwritten
  replace hwritten : query.writtenDepth = 499 := hwritten.trans (by decide)
  have hconditions : conditionsOf query.clauses =
      List.replicate 496 ⟨false, .pathLike "%a%"⟩ := by
    rw [hclauses, conditionsOf_replicate, hcondition]
  have hbounds : query.predicate.bounds.length = 992 := by
    rw [Compiled.predicate, predicateOf, boundsOf_eq, hconditions, List.length_flatMap,
      List.map_replicate, List.sum_replicate]
    rfl
  have hadmitted : Statement.admitBounds query {} = .ok ⟨⟩ := by
    rw [Statement.admitBounds_eq_ok, hbounds]
    decide
  have htagsDepth : query.tagsDepth = 501 := by
    rw [Compiled.tagsDepth, hwritten]
    rfl
  refine ⟨?_, by decide, ?_⟩
  · have hshort : query.Comparable := by
      rw [Compiled.comparable_iff, hconditions]
      intro asked hasked
      obtain rfl := (List.mem_replicate.mp hasked).2
      intro pattern hpattern
      simp only [Test.bounds, likeBounds, List.mem_pair, Bound.text.injEq] at hpattern
      rcases hpattern with rfl | rfl <;> decide
    have hmatching : duplicated.matching query.clauses =
        [(⟨"/a", 1, 0, "5a", .numbered "#" 0, false⟩, .numbered "#" 0)] := by
      have hvalue (hit : Catalog.Hit) (_ : hit ∈ duplicated.hits) :=
        valueOf_repeated (duplicated.meets hit.1 hit.2) "f~a" 495
      rw [Catalog.matching, hclauses, List.filter_congr hvalue, hcondition]
      decide
    have hreach := (query.reach_bounds 0).2
    have hdeepest : Statement.deepest = 1000 := rfl
    refine perform_search_eq_ok.mpr ⟨Statement.admitSearch_eq_ok.mpr ⟨by omega, hadmitted⟩,
      Statement.admitSearchOfTables_eq_ok.mpr ⟨by omega, Nat.zero_le _⟩, duplicated,
      holding_read _ _, ?_⟩
    rw [Catalog.search_of_comparable hshort, Catalog.found_of_single hmatching]
    rfl
  · have hdeep : Statement.admitTagsOfTables query = .error .tooDeep := by
      have hreach := (query.reach_bounds query.tagsDepth).1
      have hdeepest : Statement.deepest = 1000 := rfl
      exact if_pos (by omega)
    have hnested : Statement.admitTags query {} = .ok ⟨⟩ :=
      Statement.admitTags_eq_ok.mpr ⟨by rw [htagsDepth]; decide, hadmitted⟩
    rw [perform_tagFrequencies (holding_read _ _) hnested, hdeep]
    rfl

end Workspace

end MediaCatalog
