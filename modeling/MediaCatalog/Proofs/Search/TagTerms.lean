import MediaCatalog.Proofs.Query.Operand
import MediaCatalog.Proofs.Search.Plan
import MediaCatalog.Proofs.Search.Join

/-!
Searches for a single term on tags. Such a term is tried on a file and its
identifier and looks at the identifier alone. So an identifier is found by all
of its files or by none, however many copies and contents it has, and a term
and its negation part what there is between them.

Numbers of tags are told of those identifiers only that have tags. One without
is below any number, even where its number of tags is not.
-/

namespace MediaCatalog

open Text Query

namespace Query

/-- A test that looks at the tags of an identifier, and not at a file. -/
def Test.OfTags : Test → Prop
  | .tagLike _ | .tagsBelow _ | .tagsAbove _ => True
  | .pathLike _ | .pathOrTagLike _ | .dupesAbove _ => False

end Query

namespace Catalog

variable {catalog : Catalog} {plan : Plan} {query other : Compiled} {orders : List SortOrder}
  {ids : List MediaId} {id : MediaId} {condition contrary : Condition}

/-- What a search without limit answers, in the catalog and wherever a database
holds it. -/
structure Answers (catalog : Catalog) (plan : Plan) (query : Compiled) (orders : List SortOrder)
    (ids : List MediaId) : Prop where
  nodup : ids.Nodup
  search : catalog.search plan query orders {} = .ok ids
  performed : ∀ (store : Store) (ws after : Workspace), ws.plan = plan →
    ws.perform (store.read .files) = (.ok catalog, after) →
    orders.length ≤ Statement.mostOrders →
    ws.perform (store.search query orders {}) = (.ok ids, after)

section Single

theorem answers_single (hclauses : query.clauses = [.test .and condition])
    (hshort : condition.test.Comparable) :
    catalog.Answers plan query orders (catalog.found plan query orders) := by
  have hsearch : catalog.search plan query orders {} = .ok (catalog.found plan query orders) :=
    search_of_comparable (Compiled.comparable_single hclauses hshort) {}
  refine ⟨nodup_found, hsearch, ?_⟩
  rintro store ws after rfl hread horders
  rw [Workspace.perform_search_single hread hclauses hsearch, if_neg (Nat.not_lt.mpr horders)]

theorem answers_all :
    catalog.Answers plan (compile "") orders (catalog.found plan (compile "") orders) where
  nodup := nodup_found
  search := search_whole (by decide)
  performed := by
    rintro store ws after rfl hread horders
    rw [Workspace.perform_search_whole hread (by decide), if_neg (Nat.not_lt.mpr horders)]

theorem Answers.mem_iff (hanswers : catalog.Answers plan query orders ids) :
    id ∈ ids ↔ ∃ file, (file, id) ∈ catalog.matching query.clauses := by
  rw [(search_eq_ok.mp hanswers.search).2, cut_whole, mem_found]

theorem mem_found_single (hclauses : query.clauses = [.test .and condition]) :
    id ∈ catalog.found plan query orders ↔
      ∃ file, (file, id) ∈ catalog.hits ∧ catalog.meets file id condition = true := by
  rw [mem_found, hclauses]
  simp [matching, valueOf, joinedValues, chain, Clause.value]

theorem mem_found_all :
    id ∈ catalog.found plan (compile "") orders ↔ ∃ file, (file, id) ∈ catalog.hits := by
  have hclauses : (compile "").clauses = [] := by decide
  rw [mem_found, hclauses, matching_nil]

theorem meets_ofTags (hitem : condition.test.OfTags) (file other : FileRecord) :
    catalog.meets file id condition = catalog.meets other id condition := by
  obtain ⟨negated, test⟩ := condition
  cases test with
  | tagLike | tagsBelow | tagsAbove => rfl
  | pathLike | pathOrTagLike | dupesAbove => exact hitem.elim

end Single

section Counts

/-- The different live tags of an item, told by what the comparison looks at. -/
def tagKeys (catalog : Catalog) (item : MediaId) : Finset (List Char × Option Nat) :=
  ((catalog.tags.filter fun row => row.item = item && !row.deleted).map
    fun row => caselessKey row.tag.toList).toFinset

theorem tagCount_eq_card (item : MediaId) :
    catalog.tagCount item = (catalog.tagKeys item).card := by
  rw [tagCount, keyed_sameCaseless.length_eraseDupsBy, List.map_map]
  rfl

theorem meets_tagsBelow {file : FileRecord} {n : Int} :
    catalog.meets file id ⟨false, .tagsBelow n⟩ = true ↔
      ((catalog.tagKeys id).card : Int) < n ∨ catalog.tagKeys id = ∅ := by
  rw [← Finset.card_eq_zero, ← tagCount_eq_card]
  simp only [meets, passes, bne_iff_ne, ne_eq, Bool.not_eq_false, Bool.not_eq_true',
    Bool.and_eq_false_iff, decide_eq_false_iff_not]
  omega

theorem meets_tagsAbove {file : FileRecord} {n : Int} :
    catalog.meets file id ⟨false, .tagsAbove n⟩ = true ↔
      n < ((catalog.tagKeys id).card : Int) ∧ catalog.tagKeys id ≠ ∅ := by
  rw [ne_eq, ← Finset.card_eq_zero, ← tagCount_eq_card]
  simp only [meets, passes, bne_iff_ne, ne_eq, Bool.not_eq_false, Bool.and_eq_true,
    decide_eq_true_eq]
  omega

variable {n : Int}

theorem clauses_below (hlow : -2 ^ 63 ≤ n) (hhigh : n < 2 ^ 63) :
    (compile ("t<" ++ toString n)).clauses = [.test .and ⟨false, .tagsBelow n⟩] := by
  rw [(inOneWord_toString n).clauses_lead (by decide : ("t<", TermKind.tagCountBelow) ∈ leads),
    Term.condition, Term.count_toString _ hlow hhigh]

theorem clauses_above (hlow : -2 ^ 63 ≤ n) (hhigh : n < 2 ^ 63) :
    (compile ("t>" ++ toString n)).clauses = [.test .and ⟨false, .tagsAbove n⟩] := by
  rw [(inOneWord_toString n).clauses_lead (by decide : ("t>", TermKind.tagCountAbove) ∈ leads),
    Term.condition, Term.count_toString _ hlow hhigh]

/-- The identifiers with fewer tags than a number, or more, are found as long
as it can be exceeded. An identifier without tags is below every number and
above none. -/
theorem tagCounts_found (catalog : Catalog) (plan : Plan) (orders : List SortOrder)
    (hlow : -2 ^ 63 ≤ n) (hhigh : n < 2 ^ 63) :
    ∃ below above,
      catalog.Answers plan (compile ("t<" ++ toString n)) orders below ∧
      catalog.Answers plan (compile ("t>" ++ toString n)) orders above ∧
      (∀ id, id ∈ below ↔ (∃ file ∈ catalog.live, catalog.canonical? file.hash = some id) ∧
        (((catalog.tagKeys id).card : Int) < n ∨ catalog.tagKeys id = ∅)) ∧
      (∀ id, id ∈ above ↔ (∃ file ∈ catalog.live, catalog.canonical? file.hash = some id) ∧
        (n < ((catalog.tagKeys id).card : Int) ∧ catalog.tagKeys id ≠ ∅)) ∧
      (0 < n → ∀ id, id ∈ below ↔
        (∃ file ∈ catalog.live, catalog.canonical? file.hash = some id) ∧
          ((catalog.tagKeys id).card : Int) < n) ∧
      (0 ≤ n → ∀ id, id ∈ above ↔
        (∃ file ∈ catalog.live, catalog.canonical? file.hash = some id) ∧
          n < ((catalog.tagKeys id).card : Int)) := by
  have hbelow := clauses_below hlow hhigh
  have habove := clauses_above hlow hhigh
  have hfew (id : MediaId) : id ∈ catalog.found plan (compile ("t<" ++ toString n)) orders ↔
      (∃ file ∈ catalog.live, catalog.canonical? file.hash = some id) ∧
        (((catalog.tagKeys id).card : Int) < n ∨ catalog.tagKeys id = ∅) := by
    rw [mem_found_single hbelow]
    simp only [meets_tagsBelow, mem_hits, exists_and_right]
  have hmany (id : MediaId) : id ∈ catalog.found plan (compile ("t>" ++ toString n)) orders ↔
      (∃ file ∈ catalog.live, catalog.canonical? file.hash = some id) ∧
        (n < ((catalog.tagKeys id).card : Int) ∧ catalog.tagKeys id ≠ ∅) := by
    rw [mem_found_single habove]
    simp only [meets_tagsAbove, mem_hits, exists_and_right]
  refine ⟨_, _, answers_single hbelow (Test.comparable_tagsBelow n),
    answers_single habove (Test.comparable_tagsAbove n), hfew, hmany, ?_, ?_⟩
  · intro hpos id
    rw [hfew, ← Finset.card_eq_zero]
    exact and_congr_right fun _ => by omega
  · intro hpos id
    rw [hmany, ne_eq, ← Finset.card_eq_zero]
    exact and_congr_right fun _ => by omega

/-- Two copies of a file that has a tag, and a file that has none. -/
def halfTagged : Catalog where
  files := [⟨"/a", 1, 0, "5a", .numbered "#" 0, false⟩,
    ⟨"/b", 1, 0, "5b", .numbered "#" 1, false⟩, ⟨"/c", 1, 0, "5a", .numbered "#" 2, false⟩]
  canonical := [⟨"5a", .numbered "#" 0⟩, ⟨"5b", .numbered "#" 1⟩]
  tags := [⟨.numbered "#" 0, "x", 0, false⟩]

theorem tagCounts_of_halfTagged :
    ∃ below above,
      halfTagged.Answers .inTurn (compile ("t<" ++ toString (1 : Int))) [] below ∧
      halfTagged.Answers .inTurn (compile ("t>" ++ toString (1 : Int))) [] above ∧
      MediaId.numbered "#" 1 ∈ below ∧ MediaId.numbered "#" 0 ∉ below ∧
      MediaId.numbered "#" 0 ∉ above := by
  obtain ⟨below, above, hbelow, habove, -, -, hfew, hmany⟩ :=
    tagCounts_found halfTagged .inTurn [] (by decide : -2 ^ 63 ≤ (1 : Int)) (by decide)
  have hone : halfTagged.tagKeys (.numbered "#" 0) = {(['x'], none)} := by decide
  have hnone : halfTagged.tagKeys (.numbered "#" 1) = ∅ := by decide
  refine ⟨below, above, hbelow, habove, ?_, ?_, ?_⟩
  · rw [hfew (by decide), hnone]
    exact ⟨⟨⟨"/b", 1, 0, "5b", .numbered "#" 1, false⟩, by decide, by decide⟩, by decide⟩
  · rw [hfew (by decide), hone]
    simp
  · rw [hmany (by decide), hone]
    simp

/-- A file without tags is found among those with fewer tags than none, and not
among those with more than less than none. -/
theorem untagged_miscounted :
    (∃ file ∈ halfTagged.live, halfTagged.canonical? file.hash = some (.numbered "#" 1)) ∧
      (halfTagged.tagKeys (.numbered "#" 1)).card = 0 ∧
      (∃ ids, halfTagged.Answers .inTurn (compile "t<0") [] ids ∧ MediaId.numbered "#" 1 ∈ ids) ∧
      ∃ ids, halfTagged.Answers .inTurn (compile "t>-1") [] ids ∧ MediaId.numbered "#" 1 ∉ ids := by
  have hbelow := clauses_below (by decide : -2 ^ 63 ≤ (0 : Int)) (by decide)
  have habove := clauses_above (by decide : -2 ^ 63 ≤ (-1 : Int)) (by decide)
  rw [(by decide : "t<" ++ toString (0 : Int) = "t<0")] at hbelow
  rw [(by decide : "t>" ++ toString (-1 : Int) = "t>-1")] at habove
  have hnone : halfTagged.tagKeys (.numbered "#" 1) = ∅ := by decide
  refine ⟨⟨⟨"/b", 1, 0, "5b", .numbered "#" 1, false⟩, by decide, by decide⟩, by rw [hnone]; rfl,
    ⟨_, answers_single hbelow (Test.comparable_tagsBelow 0), ?_⟩,
    ⟨_, answers_single habove (Test.comparable_tagsAbove (-1)), ?_⟩⟩
  · rw [mem_found_single hbelow]
    exact ⟨⟨"/b", 1, 0, "5b", .numbered "#" 1, false⟩, by decide, meets_tagsBelow.mpr (.inr hnone)⟩
  · rw [mem_found_single habove]
    rintro ⟨file, -, hmeets⟩
    exact (meets_tagsAbove.mp hmeets).2 hnone

end Counts

section Complements

/-- Two searches have nothing in common, and find together what there is. -/
def Complementary (catalog : Catalog) (plan : Plan) (query other : Compiled)
    (orders : List SortOrder) : Prop :=
  ∃ ids others all, catalog.Answers plan query orders ids ∧
    catalog.Answers plan other orders others ∧ catalog.Answers plan (compile "") orders all ∧
    ids.Disjoint others ∧ ∀ id, id ∈ all ↔ id ∈ ids ∨ id ∈ others

/-- Conditions on tags that are the opposite of each other part all that is found. -/
theorem complementary_of_opposite (hquery : query.clauses = [.test .and condition])
    (hother : other.clauses = [.test .and contrary]) (hshort : condition.test.Comparable)
    (hshort' : contrary.test.Comparable) (hitem : condition.test.OfTags)
    (hopposite : ∀ file id,
      catalog.meets file id contrary = !catalog.meets file id condition) :
    catalog.Complementary plan query other orders := by
  refine ⟨_, _, _, answers_single hquery hshort, answers_single hother hshort', answers_all,
    ?_, ?_⟩
  · intro id hid hid'
    obtain ⟨file, -, hmeets⟩ := (mem_found_single hquery).mp hid
    obtain ⟨file', -, hcontrary⟩ := (mem_found_single hother).mp hid'
    rw [hopposite, meets_ofTags hitem file' file, hmeets] at hcontrary
    cases hcontrary
  · intro id
    rw [mem_found_all, mem_found_single hquery, mem_found_single hother]
    constructor
    · rintro ⟨file, hhit⟩
      cases hmeets : catalog.meets file id condition with
      | true => exact .inl ⟨file, hhit, hmeets⟩
      | false => exact .inr ⟨file, hhit, by rw [hopposite, hmeets]; rfl⟩
    · rintro (⟨file, hhit, -⟩ | ⟨file, hhit, -⟩)
      · exact ⟨file, hhit⟩
      · exact ⟨file, hhit⟩

/-- A term on tags and the same term with a minus sign. -/
theorem complementary_negated {operand : String} (hoperand : InOneWord operand)
    {lead negatedLead : String} {kind negatedKind : TermKind} (hlead : (lead, kind) ∈ leads)
    (hnegated : (negatedLead, negatedKind) ∈ leads) {pattern : String}
    (hcondition : Term.condition ⟨kind, operand⟩ = ⟨false, .tagLike pattern⟩)
    (hcontrary : Term.condition ⟨negatedKind, operand⟩ = ⟨true, .tagLike pattern⟩)
    (hshort : Like.tooComplex pattern = false) :
    catalog.Complementary plan (compile (lead ++ operand)) (compile (negatedLead ++ operand))
      orders := by
  have hquery := hoperand.clauses_lead hlead
  have hother := hoperand.clauses_lead hnegated
  rw [hcondition] at hquery
  rw [hcontrary] at hother
  refine complementary_of_opposite hquery hother (Test.comparable_tagLike hshort)
    (Test.comparable_tagLike hshort) trivial fun file id => ?_
  simp [meets]

/-- A term on tags and its negation part all that is found, and so do the
identifiers with fewer tags than a number and those with more than the number
before it. -/
theorem negations_complement (catalog : Catalog) (plan : Plan) (orders : List SortOrder) :
    (∀ operand, InOneWord operand →
      Like.tooComplex (openEnds (escapeLike (unquote operand))) = false →
      catalog.Complementary plan (compile ("t~" ++ operand)) (compile ("-t~" ++ operand)) orders) ∧
    (∀ operand, InOneWord operand → Like.tooComplex (escapeLike (unquote operand)) = false →
      catalog.Complementary plan (compile ("t=" ++ operand)) (compile ("-t=" ++ operand)) orders) ∧
    ∀ n : Int, -2 ^ 63 < n → n < 2 ^ 63 →
      catalog.Complementary plan (compile ("t<" ++ toString n)) (compile ("t>" ++ toString (n - 1)))
        orders := by
  refine ⟨?_, ?_, ?_⟩
  · intro operand hoperand hshort
    exact complementary_negated hoperand (by decide : ("t~", TermKind.tagContains) ∈ leads)
      (by decide : ("-t~", TermKind.tagNotContains) ∈ leads) rfl rfl hshort
  · intro operand hoperand hshort
    exact complementary_negated hoperand (by decide : ("t=", TermKind.tagExact) ∈ leads)
      (by decide : ("-t=", TermKind.tagNotExact) ∈ leads) rfl rfl hshort
  · intro n hlow hhigh
    refine complementary_of_opposite (clauses_below (by omega) hhigh)
      (clauses_above (by omega) (by omega)) (Test.comparable_tagsBelow n)
      (Test.comparable_tagsAbove (n - 1)) trivial fun file id => ?_
    rw [Bool.eq_iff_iff, Bool.not_eq_true', ← Bool.not_eq_true, meets_tagsAbove, meets_tagsBelow,
      not_or, Int.not_lt]
    refine and_congr_left fun _ => ?_
    omega

/-- Of two such searches the second finds what there is beside the first. -/
theorem Complementary.named (hparts : catalog.Complementary plan query other orders) :
    ∃ ids others, catalog.Answers plan query orders ids ∧
      catalog.Answers plan other orders others ∧
      (∀ id, id ∈ ids ↔ id ∈ (catalog.matching query.clauses).map Prod.snd) ∧
      ∀ id, id ∈ others ↔ id ∈ catalog.hits.map Prod.snd ∧ id ∉ ids := by
  obtain ⟨ids, others, all, hids, hothers, hall, hdisjoint, hwhole⟩ := hparts
  refine ⟨ids, others, hids, hothers, fun id => ?_, fun id => ?_⟩
  · simp [hids.mem_iff]
  · have hthere : id ∈ catalog.hits.map Prod.snd ↔ id ∈ all := by
      simp [hall.mem_iff, matching_nil, (by decide : (compile "").clauses = [])]
    rw [hthere, hwhole]
    constructor
    · intro hother
      exact ⟨.inr hother, fun hid => hdisjoint hid hother⟩
    · rintro ⟨hid | hother, hnot⟩
      · exact absurd hid hnot
      · exact hother

/-- Where there are two identifiers and the first search finds one of them, the
second finds the other. -/
theorem Complementary.pair (hparts : catalog.Complementary plan query other orders)
    {left right : MediaId} (hne : left ≠ right)
    (hleft : ∀ id, id ∈ (catalog.matching query.clauses).map Prod.snd ↔ id = left)
    (hall : ∀ id, id ∈ catalog.hits.map Prod.snd ↔ id = left ∨ id = right) :
    catalog.Answers plan query orders [left] ∧ catalog.Answers plan other orders [right] := by
  obtain ⟨ids, others, hids, hothers, hfound, hrest⟩ := hparts.named
  obtain rfl : ids = [left] :=
    eq_singleton_of_nodup hids.nodup fun id => (hfound id).trans (hleft id)
  obtain rfl : others = [right] := by
    refine eq_singleton_of_nodup hothers.nodup fun id => ?_
    rw [hrest, hall, List.mem_singleton]
    constructor
    · rintro ⟨hid | hid, hnot⟩
      · exact absurd hid hnot
      · exact hid
    · rintro rfl
      exact ⟨.inr rfl, hne.symm⟩
  exact ⟨hids, hothers⟩

/-- A tag with a blank in it that nothing has, one that one of two identifiers
has, and a number that one of them is below for want of tags. -/
theorem negations_of_halfTagged :
    (∃ others, halfTagged.Answers .inTurn (compile ("t~" ++ "'a b'")) [] [] ∧
      halfTagged.Answers .inTurn (compile ("-t~" ++ "'a b'")) [] others ∧
      others.Perm [.numbered "#" 0, .numbered "#" 1]) ∧
    (halfTagged.Answers .inTurn (compile ("t=" ++ "x")) [] [.numbered "#" 0] ∧
      halfTagged.Answers .inTurn (compile ("-t=" ++ "x")) [] [.numbered "#" 1]) ∧
    halfTagged.Answers .inTurn (compile ("t<" ++ toString (0 : Int))) [] [.numbered "#" 1] ∧
      halfTagged.Answers .inTurn (compile ("t>" ++ toString (0 - 1 : Int))) []
        [.numbered "#" 0] := by
  have hquoted : InOneWord "'a b'" :=
    inOneWord_of_words (by decide : ("t~", TermKind.tagContains) ∈ leads) (by decide)
  have hplain : InOneWord "x" := inOneWord_of_plain (by decide)
  have hhits : halfTagged.hits.map Prod.snd =
      [.numbered "#" 0, .numbered "#" 1, .numbered "#" 0] := by decide
  obtain ⟨hcontains, hexact, hcounts⟩ := negations_complement halfTagged .inTurn []
  refine ⟨?_, (hexact _ hplain (by decide)).pair (by decide) ?_ ?_,
    (hcounts 0 (by decide) (by decide)).pair (by decide) ?_ ?_⟩
  · obtain ⟨ids, others, hids, hothers, hfound, hrest⟩ := (hcontains _ hquoted (by decide)).named
    have hmatching : (halfTagged.matching (compile ("t~" ++ "'a b'")).clauses).map Prod.snd = [] :=
      by decide +kernel
    obtain rfl : ids = [] := by
      refine List.eq_nil_iff_forall_not_mem.mpr fun id => ?_
      rw [hfound, hmatching]
      exact List.not_mem_nil
    refine ⟨others, hids, hothers, ?_⟩
    refine (List.perm_ext_iff_of_nodup hothers.nodup (by decide)).mpr fun id => ?_
    rw [hrest, hhits]
    simp [or_comm]
  · intro id
    have hmatching : (halfTagged.matching (compile ("t=" ++ "x")).clauses).map Prod.snd =
        [.numbered "#" 0, .numbered "#" 0] := by decide
    rw [hmatching]
    simp
  · intro id
    simp [hhits, or_comm]
  · intro id
    have hmatching :
        (halfTagged.matching (compile ("t<" ++ toString (0 : Int))).clauses).map Prod.snd =
          [.numbered "#" 1] := by decide
    rw [hmatching]
    simp
  · intro id
    simp [hhits, or_comm]

end Complements

end Catalog

end MediaCatalog
