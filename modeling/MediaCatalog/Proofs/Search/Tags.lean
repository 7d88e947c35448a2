import MediaCatalog.Proofs.Query.Quoting
import MediaCatalog.Proofs.Search.Plan
import MediaCatalog.Proofs.Search.Join
import MediaCatalog.Proofs.Text.Like

/-!
The search for one tag. Where quoting carries the tag, the query asks for it
character for character, and finds what has the tag in letters of either case.
The comparison reads tags up to a NUL and takes two code points for a third;
on tags that it reads as they are, it finds the tag and no other.

Two things stand in the way for other tags. A star in the tag stands for any
run, and quotes that quoting does not carry are taken off.
-/

namespace MediaCatalog

open Text Query

namespace Catalog

variable {catalog : Catalog} {file : FileRecord} {id : MediaId} {tag pattern : String}

theorem tagged_escapeLike (hnul : '\x00' ∉ tag.toList) (hstar : '*' ∉ tag.toList) :
    catalog.tagged id (escapeLike tag) = true ↔
      ∃ row ∈ catalog.tags, row.item = id ∧ row.deleted = false ∧ Like.ReadAlike tag row.tag := by
  simp only [tagged, List.any_eq_true, Bool.and_eq_true, decide_eq_true_eq, Bool.not_eq_true',
    Like.like_escapeLike_literal hnul hstar, and_assoc]

theorem mem_matching_tagLike :
    (file, id) ∈ catalog.matching [.test .and ⟨false, .tagLike pattern⟩] ↔
      (file, id) ∈ catalog.hits ∧ catalog.tagged id pattern = true := by
  simp [matching, valueOf, joinedValues, chain, Clause.value, meets, passes]

/-- The search for a tag finds what carries it. -/
theorem singleTagSearch_found (catalog : Catalog) {tag : String} (hnul : '\x00' ∉ tag.toList)
    (hstar : '*' ∉ tag.toList) (hquotable : Quotable tag)
    (hlength : Like.tooComplex (escapeLike tag) = false) (plan : Plan)
    (orders : List SortOrder) :
    ∃ ids, ids.Nodup ∧
      catalog.search plan (compile (singleTagSearch tag)) orders {} = .ok ids ∧
      (∀ id, id ∈ ids ↔
        (∃ file ∈ catalog.live, catalog.canonical? file.hash = some id) ∧
          ∃ row ∈ catalog.tags, row.item = id ∧ row.deleted = false ∧
            Like.ReadAlike tag row.tag) ∧
      (Like.Legible tag → (∀ row ∈ catalog.tags, Like.Legible row.tag) →
        ∀ id, id ∈ ids ↔
          (∃ file ∈ catalog.live, catalog.canonical? file.hash = some id) ∧
            ∃ row ∈ catalog.tags, row.item = id ∧ row.deleted = false ∧
              sameCaseless tag row.tag = true) ∧
      ∀ (store : Store) (ws between : Workspace), ws.plan = plan →
        ws.perform (store.read .files) = (.ok catalog, between) →
        ws.perform (store.search (compile (singleTagSearch tag)) orders {}) =
          (if Statement.mostOrders < orders.length then .error (.ofStatement .tooManyOrders)
            else .ok ids, between) := by
  have hclauses := clauses_singleTagSearch hquotable
  have hsearch : catalog.search plan (compile (singleTagSearch tag)) orders {} =
      .ok (catalog.found plan (compile (singleTagSearch tag)) orders) :=
    search_of_comparable
      (Compiled.comparable_single hclauses (Test.comparable_tagLike hlength)) {}
  have hfound (id : MediaId) : id ∈ catalog.found plan (compile (singleTagSearch tag)) orders ↔
      (∃ file ∈ catalog.live, catalog.canonical? file.hash = some id) ∧
        ∃ row ∈ catalog.tags, row.item = id ∧ row.deleted = false ∧
          Like.ReadAlike tag row.tag := by
    rw [mem_found, hclauses]
    simp only [mem_matching_tagLike, tagged_escapeLike hnul hstar, mem_hits, exists_and_right]
  refine ⟨_, nodup_found, hsearch, hfound, ?_, ?_⟩
  · intro htag hrows id
    rw [hfound]
    refine and_congr_right fun _ => exists_congr fun row => and_congr_right fun hrow => ?_
    rw [Like.readAlike_iff htag (hrows row hrow)]
  · rintro store ws between rfl hread
    exact Workspace.perform_search_single hread hclauses hsearch

/-- Two files with a tag each. -/
def labelled (first second : String) : Catalog where
  files := [⟨"/a", 1, 0, "5a", .numbered "#" 0, false⟩, ⟨"/b", 1, 0, "5b", .numbered "#" 1, false⟩]
  canonical := [⟨"5a", .numbered "#" 0⟩, ⟨"5b", .numbered "#" 1⟩]
  tags := [⟨.numbered "#" 0, first, 0, false⟩, ⟨.numbered "#" 1, second, 0, false⟩]

/-- Quotes of both kinds, blanks and brackets are carried, and a tag that is
only part of the one looked for is not found. -/
theorem quotedTag_found :
    ∃ ids, (labelled "It's a \"quoted\" (TAG)" "it's a").search .inTurn
        (compile (singleTagSearch "it's a \"quoted\" (tag)")) [] {} = .ok ids ∧
      MediaId.numbered "#" 0 ∈ ids ∧ MediaId.numbered "#" 1 ∉ ids := by
  have hquotable : Quotable "it's a \"quoted\" (tag)" := by
    rw [Quotable, if_pos (by decide)]
    decide
  obtain ⟨ids, -, hsearch, hids, -⟩ :=
    singleTagSearch_found (labelled "It's a \"quoted\" (TAG)" "it's a") (by decide) (by decide)
      hquotable (by decide) .inTurn []
  refine ⟨ids, hsearch, ?_, ?_⟩
  · rw [hids]
    refine ⟨⟨⟨"/a", 1, 0, "5a", .numbered "#" 0, false⟩, by decide, by decide⟩, ?_⟩
    exact ⟨⟨.numbered "#" 0, "It's a \"quoted\" (TAG)", 0, false⟩, by decide, rfl, rfl, by decide⟩
  · rw [hids]
    rintro ⟨-, row, hrow, hitem, -, hread⟩
    have hother : row = ⟨.numbered "#" 1, "it's a", 0, false⟩ := by
      rcases List.mem_pair.mp hrow with rfl | rfl
      · exact absurd hitem (by decide)
      · rfl
    subst hother
    exact absurd hread (by decide)

/-- Two quotes of a kind are taken off, and the tag is not found. -/
theorem bareQuotes_missed :
    '\x00' ∉ "\"hi\"".toList ∧ Like.tooComplex (escapeLike "\"hi\"") = false ∧
      (⟨"/a", 1, 0, "5a", .numbered "#" 0, false⟩, .numbered "#" 0) ∈
        (labelled "\"hi\"" "hello").hits ∧
      ⟨.numbered "#" 0, "\"hi\"", 0, false⟩ ∈ (labelled "\"hi\"" "hello").tags ∧
      ∀ plan, (labelled "\"hi\"" "hello").search plan (compile (singleTagSearch "\"hi\"")) [] {} =
        .ok [] := by
  refine ⟨by decide, by decide, by decide, by decide, fun plan => ?_⟩
  have hnone : (labelled "\"hi\"" "hello").matching
      (compile (singleTagSearch "\"hi\"")).clauses = [] := by decide
  rw [search_of_comparable (by decide), found_of_none hnone]
  rfl

/-- A star in the tag finds tags that are not the one looked for. -/
theorem starredTag_widened :
    sameCaseless "a*b" "axb" = false ∧
      ∀ plan, (labelled "axb" "hello").search plan (compile (singleTagSearch "a*b")) [] {} =
        .ok [.numbered "#" 0] := by
  refine ⟨by decide, fun plan => ?_⟩
  have hone : (labelled "axb" "hello").matching (compile (singleTagSearch "a*b")).clauses =
      [(⟨"/a", 1, 0, "5a", .numbered "#" 0, false⟩, .numbered "#" 0)] := by decide
  rw [search_of_comparable (by decide), found_of_single hone]
  rfl

end Catalog

end MediaCatalog
