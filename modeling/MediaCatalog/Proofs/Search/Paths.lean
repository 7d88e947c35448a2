import MediaCatalog.Proofs.Query.Literal
import MediaCatalog.Proofs.Query.Quoting
import MediaCatalog.Proofs.Search.Plan
import MediaCatalog.Proofs.Search.Join

/-!
The search for a path. Where quoting carries the path, the query asks for what
begins with it, and so it finds all that is at the path or below it. It finds
more: nothing in the pattern says that a component ends with the path, so the
files of a neighbour whose name is longer are found as well. Only where there is
no such neighbour does the search stay inside the directory.

A star in the path stands for any run here too, and a dollar sign at its end
ties the pattern, so that nothing below the path is found.
-/

namespace MediaCatalog

open Text Query

/-- Whether a path begins with the characters of another, letters in either
case. -/
def BeginsLike (directory path : List Char) : Prop :=
  directory.map fold <+: path.map fold

/-- Whether a path is that of the directory or lies below it, letters in either
case. -/
def AtOrBelow (directory path : List Char) : Prop :=
  path.map fold = directory.map fold ∨ BeginsLike (directory ++ ['/']) path

instance (directory path : List Char) : Decidable (BeginsLike directory path) :=
  inferInstanceAs (Decidable (directory.map fold <+: path.map fold))

instance (directory path : List Char) : Decidable (AtOrBelow directory path) :=
  inferInstanceAs (Decidable (_ ∨ _))

theorem AtOrBelow.beginsLike {directory path : List Char} (hbelow : AtOrBelow directory path) :
    BeginsLike directory path := by
  rcases hbelow with hsame | hbelow
  · simp [BeginsLike, hsame]
  · refine List.IsPrefix.trans ?_ hbelow
    rw [List.map_append]
    exact List.prefix_append _ _

namespace Query

section Reading

variable {directory path : List Char}

/-- Without a star a text stands for what is the same but for the case of
letters. -/
theorem standsFor_literal (hstar : '*' ∉ directory) :
    StandsFor directory path ↔ directory.map fold = path.map fold := by
  have hpieces : directory.map Like.pieceOf = directory.map .literal := by
    apply List.map_congr_left
    intro c hc
    exact if_neg (ne_of_mem_of_not_mem hc hstar)
  rw [standsFor_iff, hpieces, Like.fits_literals]

/-- With nothing to tie its end, a text behind a circumflex stands for what
begins like it. -/
theorem standsTied_front (hstar : '*' ∉ directory) (hback : directory.getLast? ≠ some '$') :
    StandsTied ('^' :: directory) path ↔ BeginsLike directory path := by
  have hcore : core ('^' :: directory) = directory := by
    simp [core, untiedFront, untiedBack, hback]
  have hopen : ('^' :: directory).getLast? ≠ some '$' := by
    cases directory with
    | nil => decide
    | cons c rest => rwa [List.getLast?_cons_cons]
  simp only [StandsTied, hcore, standsFor_literal hstar, List.head?_cons, true_implies]
  constructor
  · rintro ⟨front, part, back, rfl, hpart, rfl, -⟩
    rw [BeginsLike, hpart, List.nil_append, List.map_append]
    exact List.prefix_append _ _
  · rintro ⟨back, hmap⟩
    obtain ⟨part, rest, rfl, hpart, -⟩ := List.map_eq_append_iff.mp hmap.symm
    exact ⟨[], part, rest, rfl, hpart.symm, rfl, fun h => absurd h hopen⟩

/-- Tied at both ends, it stands for what is the same. -/
theorem standsTied_both (hstar : '*' ∉ directory) :
    StandsTied ('^' :: (directory ++ ['$'])) path ↔ directory.map fold = path.map fold := by
  have hcore : core ('^' :: (directory ++ ['$'])) = directory := by
    simp [core, untiedFront, untiedBack]
  have hback : ('^' :: (directory ++ ['$'])).getLast? = some '$' := by
    rw [← List.cons_append, List.getLast?_concat]
  simp only [StandsTied, hcore, hback, standsFor_literal hstar, List.head?_cons, true_implies]
  constructor
  · rintro ⟨front, part, back, rfl, hpart, rfl, rfl⟩
    rwa [List.nil_append, List.append_nil]
  · intro hsame
    exact ⟨[], path, [], by simp, hsame, rfl, rfl⟩

/-- The comparison with the pattern that a circumflex ties in front. -/
theorem like_tied {sought : String} (hnul : '\x00' ∉ sought.toList) (text : String) :
    Like.like (openEnds (escapeLike ("^" ++ sought))) text = true ↔
      StandsTied ('^' :: Like.reading sought) (Like.reading text) := by
  have hfront : ("^" ++ sought).toList = '^' :: sought.toList := by simp
  have hcore : '\x00' ∉ TermKind.fileContains.plain ('^' :: sought.toList) :=
    nul_notMem_plain (by simpa using hnul)
  change '\x00' ∉ opened ('^' :: sought.toList) at hcore
  have hreading : Like.reading (.ofList (opened ('^' :: sought.toList))) =
      opened ('^' :: Like.reading sought) := by
    rw [Like.reading_of_nul_notMem (by simpa using hcore), Like.reading_of_nul_notMem hnul,
      String.toList_ofList, ← opened_map_readChar]
    rfl
  rw [openEnds_escapeLike, hfront, Like.like_escapeLike (by simpa using hcore), hreading,
    ← standsFor_iff, standsFor_opened]

end Reading

/-- The query for a path asks for what begins with it, unless a dollar sign ties
its end. -/
theorem clauses_pathSearch {path : String} (hquotable : Quotable path) :
    (compile (pathSearch path)).clauses =
      [.test .and ⟨false, .pathLike (openEnds (escapeLike ("^" ++ path)))⟩] := by
  have hwords : words (pathSearch path) defaultMaxWords = [pathSearch path] :=
    words_lead_quoted (by decide) (by decide) hquotable.single 9
  have hfirst : (pathSearch path).toList.head? = some 'f' := by simp [pathSearch]
  have hcondition : (Term.ofWord (pathSearch path)).condition =
      ⟨false, .pathLike (openEnds (escapeLike ("^" ++ path)))⟩ := by
    have hlead : pathSearch path = "f~" ++ ("^" ++ quoted path) := by
      rw [← String.append_assoc]
      rfl
    have hterm : Term.ofWord ("f~" ++ ("^" ++ quoted path)) =
        ⟨.fileContains, "^" ++ quoted path⟩ := Term.ofWord_lead (by decide) _
    rw [hlead, hterm, Term.condition, Term.literal, unquote_lead (by decide),
      unquote_quoted hquotable]
  rw [clauses_of_word hwords (isMatch_of_head? hfirst (by decide)), hcondition]

end Query

namespace Catalog

variable {catalog : Catalog} {file : FileRecord} {id : MediaId} {pattern : String}

theorem mem_matching_pathLike :
    (file, id) ∈ catalog.matching [.test .and ⟨false, .pathLike pattern⟩] ↔
      (file, id) ∈ catalog.hits ∧ Like.like pattern file.path = true := by
  simp [matching, valueOf, joinedValues, chain, Clause.value, meets, passes]

section Found

variable {plan : Plan} {directory : String} {orders : List SortOrder}

theorem search_pathSearch (hquotable : Quotable directory)
    (hlength : Like.tooComplex (openEnds (escapeLike ("^" ++ directory))) = false) :
    catalog.search plan (compile (pathSearch directory)) orders {} =
      .ok (catalog.found plan (compile (pathSearch directory)) orders) :=
  search_of_comparable (Compiled.comparable_single (clauses_pathSearch hquotable)
    (Test.comparable_pathLike hlength)) {}

theorem mem_found_pathSearch (hnul : '\x00' ∉ directory.toList) (hquotable : Quotable directory) :
    id ∈ catalog.found plan (compile (pathSearch directory)) orders ↔
      ∃ file, (file, id) ∈ catalog.hits ∧
        StandsTied ('^' :: Like.reading directory) (Like.reading file.path) := by
  rw [mem_found, clauses_pathSearch hquotable]
  simp only [mem_matching_pathLike, like_tied hnul]

theorem mem_found_pathSearch_plain (hnul : '\x00' ∉ directory.toList)
    (hquotable : Quotable directory) (hstar : '*' ∉ directory.toList)
    (hback : directory.toList.getLast? ≠ some '$') :
    id ∈ catalog.found plan (compile (pathSearch directory)) orders ↔
      ∃ file, (file, id) ∈ catalog.hits ∧
        BeginsLike (Like.reading directory) (Like.reading file.path) := by
  have hreading := Like.reading_of_nul_notMem hnul
  have hstar' : '*' ∉ Like.reading directory := by
    rw [hreading, List.mem_map]
    rintro ⟨c, hc, hread⟩
    obtain rfl := (Like.readChar_eq_iff (by decide)).mp hread
    exact hstar hc
  have hback' : (Like.reading directory).getLast? ≠ some '$' := by
    rwa [hreading, ne_eq, getLast?_map_readChar (by decide)]
  rw [mem_found_pathSearch hnul hquotable]
  simp only [standsTied_front hstar' hback']

end Found

/-- The search for a path finds what begins with it, and so all that is at the
path or below it. That is all it finds if no other path begins with it. -/
theorem pathSearch_found (catalog : Catalog) {directory : String}
    (hnul : '\x00' ∉ directory.toList) (hquotable : Quotable directory)
    (hlength : Like.tooComplex (openEnds (escapeLike ("^" ++ directory))) = false)
    (plan : Plan) (orders : List SortOrder) :
    ∃ ids, ids.Nodup ∧
      catalog.search plan (compile (pathSearch directory)) orders {} = .ok ids ∧
      (∀ id, id ∈ ids ↔ ∃ file, (file, id) ∈ catalog.hits ∧
        StandsTied ('^' :: Like.reading directory) (Like.reading file.path)) ∧
      ('*' ∉ directory.toList → directory.toList.getLast? ≠ some '$' →
        (∀ id, id ∈ ids ↔ ∃ file, (file, id) ∈ catalog.hits ∧
          BeginsLike (Like.reading directory) (Like.reading file.path)) ∧
        (Like.Legible directory →
          (∀ file ∈ catalog.live, Like.Legible file.path ∧
            (BeginsLike directory.toList file.path.toList →
              AtOrBelow directory.toList file.path.toList)) →
          ∀ id, id ∈ ids ↔ ∃ file ∈ catalog.live, catalog.canonical? file.hash = some id ∧
            AtOrBelow directory.toList file.path.toList)) ∧
      ∀ (store : Store) (ws between : Workspace), ws.plan = plan →
        ws.perform (store.read .files) = (.ok catalog, between) →
        ws.perform (store.search (compile (pathSearch directory)) orders {}) =
          (if Statement.mostOrders < orders.length then .error (.ofStatement .tooManyOrders)
            else .ok ids, between) := by
  refine ⟨_, nodup_found, search_pathSearch hquotable hlength, ?_, ?_, ?_⟩
  · intro id
    exact mem_found_pathSearch hnul hquotable
  · intro hstar hback
    refine ⟨fun id => mem_found_pathSearch_plain hnul hquotable hstar hback, ?_⟩
    intro hlegible halone id
    rw [mem_found_pathSearch_plain hnul hquotable hstar hback, hlegible.reading_eq]
    refine exists_congr fun file => ?_
    rw [mem_hits, and_assoc]
    refine and_congr_right fun hfile => and_congr_right fun _ => ?_
    obtain ⟨hpath, honly⟩ := halone file hfile
    rw [hpath.reading_eq]
    exact ⟨honly, AtOrBelow.beginsLike⟩
  · rintro store ws between rfl hread
    exact Workspace.perform_search_single hread (clauses_pathSearch hquotable)
      (search_pathSearch hquotable hlength)

/-- Two files with a content each. -/
def shelved (first second : String) : Catalog where
  files := [⟨first, 1, 0, "5a", .numbered "#" 0, false⟩,
    ⟨second, 1, 0, "5b", .numbered "#" 1, false⟩]
  canonical := [⟨"5a", .numbered "#" 0⟩, ⟨"5b", .numbered "#" 1⟩]

/-- Blanks and brackets in the name of a directory are carried, and the file of
another directory is not found. -/
theorem quotedDirectory_found :
    ∃ ids, (shelved "/m/MY (films)/a" "/m/my (series)/b").search .inTurn
        (compile (pathSearch "/m/my (films)")) [] {} = .ok ids ∧
      MediaId.numbered "#" 0 ∈ ids ∧ MediaId.numbered "#" 1 ∉ ids := by
  have hquotable : Quotable "/m/my (films)" := by
    rw [Quotable, if_pos (by decide)]
    decide
  have hlegible : Like.Legible "/m/my (films)" := by decide
  have halone : ∀ file ∈ (shelved "/m/MY (films)/a" "/m/my (series)/b").live,
      Like.Legible file.path ∧ (BeginsLike "/m/my (films)".toList file.path.toList →
        AtOrBelow "/m/my (films)".toList file.path.toList) := by decide
  obtain ⟨ids, -, hsearch, -, hplain, -⟩ :=
    pathSearch_found (shelved "/m/MY (films)/a" "/m/my (series)/b") (by decide) hquotable
      (by decide) .inTurn []
  obtain ⟨-, hids⟩ := hplain (by decide) (by decide)
  refine ⟨ids, hsearch, ?_, ?_⟩
  · rw [hids hlegible halone]
    exact ⟨⟨"/m/MY (films)/a", 1, 0, "5a", .numbered "#" 0, false⟩, by decide, by decide, by decide⟩
  · rw [hids hlegible halone]
    decide

/-- The file of a neighbour whose name begins with that of the directory is
found as well. -/
theorem neighbour_found :
    '\x00' ∉ "/m/films".toList ∧
      Like.tooComplex (openEnds (escapeLike ("^" ++ "/m/films"))) = false ∧
      ¬ AtOrBelow "/m/films".toList "/m/films2/b".toList ∧
      ∀ plan, ∃ ids, (shelved "/m/films/a" "/m/films2/b").search plan
          (compile (pathSearch "/m/films")) [] {} = .ok ids ∧
        MediaId.numbered "#" 1 ∈ ids := by
  have hquotable : Quotable "/m/films" := by
    rw [Quotable, if_neg (by decide)]
    intro quote hquote
    rcases eq_of_isQuote hquote with rfl | rfl <;> decide
  refine ⟨by decide, by decide, by decide, fun plan => ?_⟩
  refine ⟨_, search_pathSearch hquotable (by decide), ?_⟩
  rw [mem_found_pathSearch_plain (by decide) hquotable (by decide) (by decide)]
  exact ⟨⟨"/m/films2/b", 1, 0, "5b", .numbered "#" 1, false⟩, by decide, by decide⟩

/-- Nothing below a directory is found whose name ends in a dollar sign. -/
theorem tiedDirectory_missed :
    AtOrBelow "/m/films$".toList "/m/films$/a".toList ∧
      ∀ plan, ∃ ids, (shelved "/m/films$/a" "/m/series/b").search plan
          (compile (pathSearch "/m/films$")) [] {} = .ok ids ∧
        MediaId.numbered "#" 0 ∉ ids := by
  have hquotable : Quotable "/m/films$" := by
    rw [Quotable, if_neg (by decide)]
    intro quote hquote
    rcases eq_of_isQuote hquote with rfl | rfl <;> decide
  refine ⟨by decide, fun plan => ⟨_, search_pathSearch hquotable (by decide), ?_⟩⟩
  rw [mem_found_pathSearch (by decide) hquotable]
  rintro ⟨file, hhit, hstands⟩
  have hname : Like.reading "/m/films$" = "/m/films".toList ++ ['$'] := by decide
  rw [hname, standsTied_both (by decide)] at hstands
  have hnone : ∀ file ∈ (shelved "/m/films$/a" "/m/series/b").live,
      "/m/films".toList.map fold ≠ (Like.reading file.path).map fold := by decide
  exact hnone file (mem_hits.mp hhit).1 hstands

end Catalog

end MediaCatalog
