import MediaCatalog.Proofs.Search.Plan
import MediaCatalog.Proofs.Search.Join

/-!
What the cleaner leaves in the tables. It marks the records of the files that are
gone, each once, and there is none left to be marked after it; every file that a
search finds then is there.
-/

namespace MediaCatalog.Catalog

variable {catalog : Catalog} {present : String → Bool}

/-- The unmarked records at whose paths there is nothing. -/
def gone (catalog : Catalog) (present : String → Bool) : List FileRecord :=
  catalog.files.filter fun file => !file.missing && !present file.path

/-- The catalog with these marked, and nothing else changed. -/
def marked (catalog : Catalog) (present : String → Bool) : Catalog :=
  { catalog with
    files := catalog.files.map fun file =>
      if file ∈ catalog.gone present then { file with missing := true } else file }

theorem mem_gone {file : FileRecord} :
    file ∈ catalog.gone present ↔
      file ∈ catalog.files ∧ file.missing = false ∧ present file.path = false := by
  simp [gone]

section Marking

theorem gonePaths_perm :
    (catalog.gonePaths present).Perm ((catalog.gone present).map FileRecord.path) := by
  have hlisted : (catalog.livePaths.filter fun path => !present path).Perm
      ((catalog.live.map FileRecord.path).filter fun path => !present path) :=
    ((List.mergeSort_perm _ _).map FileRecord.path).filter _
  refine hlisted.trans (List.Perm.of_eq ?_)
  rw [List.filter_map, live, List.filter_filter, gone]
  congr 2
  funext file
  exact Bool.and_comm _ _

theorem mem_gonePaths {path : String} :
    path ∈ catalog.gonePaths present ↔ ∃ file ∈ catalog.gone present, file.path = path := by
  rw [gonePaths_perm.mem_iff, List.mem_map]

theorem not_mem_gonePaths {path : String} (hthere : present path = true) :
    path ∉ catalog.gonePaths present := by
  rw [mem_gonePaths]
  rintro ⟨file, hgone, rfl⟩
  rw [(mem_gone.mp hgone).2.2] at hthere
  cases hthere

theorem gonePaths_isEmpty :
    (catalog.gonePaths present).isEmpty = (catalog.gone present).isEmpty := by
  rw [gonePaths_perm.isEmpty_eq, List.isEmpty_map]

theorem gone_eq_nil :
    catalog.gone present = [] ↔ ∀ file ∈ catalog.live, present file.path = true := by
  simp only [List.eq_nil_iff_forall_not_mem, mem_gone, mem_live]
  constructor
  · intro hnone file hfile
    by_contra habsent
    exact hnone file ⟨hfile.1, hfile.2, by simpa using habsent⟩
  · rintro hall file ⟨hfile, hmissing, habsent⟩
    rw [hall file ⟨hfile, hmissing⟩] at habsent
    cases habsent

theorem nodup_gonePaths (hpaths : catalog.PathsDistinct) : (catalog.gonePaths present).Nodup := by
  rw [gonePaths_perm.nodup_iff]
  exact hpaths.sublist (List.filter_sublist.map FileRecord.path)

/-- A mark is set where there is none. -/
theorem files_setMissing (path : String) :
    (catalog.setMissing path true).2.files =
      catalog.files.map fun file =>
        if file.path = path then { file with missing := true } else file := by
  apply List.map_congr_left
  rintro ⟨own, size, modified, hash, id, missing⟩ _
  by_cases hpath : own = path
  · cases missing <;> simp [hpath]
  · simp [hpath]

theorem files_markAll (paths : List String) :
    (catalog.markAll paths).2.files =
      catalog.files.map fun file =>
        if file.path ∈ paths then { file with missing := true } else file := by
  induction paths generalizing catalog with
  | nil => simp [markAll]
  | cons path rest ih =>
      rw [markAll_cons, ih, files_setMissing, List.map_map]
      apply List.map_congr_left
      intro file _
      by_cases hpath : file.path = path
      · by_cases hrest : path ∈ rest <;> simp [hpath, hrest]
      · simp [hpath]

/-- The other records stay as they are. -/
theorem record?_markAll {paths : List String} {path : String} (hpath : path ∉ paths) :
    (catalog.markAll paths).2.record? path = catalog.record? path := by
  have hsame (file : FileRecord) :
      (if file.path ∈ paths then { file with missing := true } else file).path = file.path := by
    split <;> rfl
  rw [record?, files_markAll, find?_map_of_path hsame, record?]
  cases hfound : catalog.files.find? fun file => file.path = path with
  | none => rfl
  | some file =>
      obtain rfl : file.path = path := by simpa using List.find?_some hfound
      rw [Option.map_some, if_neg hpath]

@[simp] theorem tags_markAll (paths : List String) :
    (catalog.markAll paths).2.tags = catalog.tags := by
  induction paths generalizing catalog with
  | nil => rfl
  | cons path rest ih => rw [markAll_cons, ih, tags_setMissing]

/-- Each path that has an unmarked record counts once. -/
theorem fst_markAll {paths : List String} (hdistinct : paths.Nodup)
    (hlive : ∀ path ∈ paths, ∃ file ∈ catalog.files, file.path = path ∧ file.missing = false) :
    (catalog.markAll paths).1 = paths.length := by
  induction paths generalizing catalog with
  | nil => rfl
  | cons path rest ih =>
      obtain ⟨hnew, hrest⟩ := List.nodup_cons.mp hdistinct
      obtain ⟨file, hfile, hpath, hmissing⟩ := hlive path List.mem_cons_self
      have hchanged : (catalog.setMissing path true).1 = true :=
        List.any_eq_true.mpr ⟨file, hfile, by simp [hpath, hmissing]⟩
      have hothers : ((catalog.setMissing path true).2.markAll rest).1 = rest.length := by
        refine ih hrest fun other hother => ?_
        obtain ⟨file, hfile, hpath, hmissing⟩ := hlive other (List.mem_cons_of_mem _ hother)
        have hkept : file.path ≠ path := fun hsame => hnew (hsame ▸ hpath ▸ hother)
        refine ⟨file, ?_, hpath, hmissing⟩
        rw [files_setMissing, List.mem_map]
        exact ⟨file, hfile, if_neg hkept⟩
      simp only [markAll, hchanged, hothers, if_true, List.length_cons]

/-- The cleaner marks what is gone, and nothing else, and counts it. -/
theorem markMissing_eq (hpaths : catalog.PathsDistinct) :
    catalog.markMissing present = ((catalog.gone present).length, catalog.marked present) := by
  have hfiles : (catalog.markMissing present).2.files = (catalog.marked present).files := by
    refine (files_markAll _).trans (List.map_congr_left fun file hfile => ?_)
    by_cases hgone : file ∈ catalog.gone present
    · rw [if_pos hgone, if_pos (mem_gonePaths.mpr ⟨file, hgone, rfl⟩)]
    · rw [if_neg hgone, if_neg]
      intro hpath
      obtain ⟨other, hother, hsame⟩ := mem_gonePaths.mp hpath
      exact hgone (eq_of_path_eq hpaths (mem_gone.mp hother).1 hfile hsame ▸ hother)
  refine Prod.ext ?_ ?_
  · refine (fst_markAll (nodup_gonePaths hpaths) fun path hpath => ?_).trans ?_
    · obtain ⟨file, hfile, hsame⟩ := mem_gonePaths.mp hpath
      exact ⟨file, (mem_gone.mp hfile).1, hsame, (mem_gone.mp hfile).2.1⟩
    · rw [gonePaths_perm.length_eq, List.length_map]
  · have hcanonical : (catalog.markMissing present).2.canonical = catalog.canonical :=
      canonical_markAll catalog _
    have htags : (catalog.markMissing present).2.tags = catalog.tags := tags_markAll _
    calc (catalog.markMissing present).2
        = ⟨(catalog.markMissing present).2.files, (catalog.markMissing present).2.canonical,
            (catalog.markMissing present).2.tags⟩ := rfl
      _ = catalog.marked present := by rw [hfiles, hcanonical, htags]; rfl

theorem marked_of_none (hnone : catalog.gone present = []) : catalog.marked present = catalog := by
  unfold marked
  rw [hnone]
  simp

/-- What is gone is told by what is asked of the paths of live files. -/
theorem gone_congr {other : String → Bool}
    (hsame : ∀ file ∈ catalog.live, present file.path = other file.path) :
    catalog.gone present = catalog.gone other := by
  refine List.filter_congr fun file hfile => ?_
  cases hmissing : file.missing with
  | true => rfl
  | false => rw [hsame file (mem_live.mpr ⟨hfile, hmissing⟩)]

theorem marked_congr {other : String → Bool}
    (hsame : ∀ file ∈ catalog.live, present file.path = other file.path) :
    catalog.marked present = catalog.marked other := by
  unfold marked
  rw [gone_congr hsame]

end Marking

section Marked

/-- What is live after the cleaner was live before, and its file is there. -/
theorem mem_live_marked {file : FileRecord} :
    file ∈ (catalog.marked present).live ↔ file ∈ catalog.live ∧ present file.path = true := by
  rw [mem_live, mem_live, marked, List.mem_map]
  constructor
  · rintro ⟨⟨old, hold, rfl⟩, hmissing⟩
    split at hmissing
    · cases hmissing
    · rename_i hkept
      rw [if_neg hkept]
      refine ⟨⟨hold, hmissing⟩, ?_⟩
      by_contra hnone
      exact hkept (mem_gone.mpr ⟨hold, hmissing, by simpa using hnone⟩)
  · rintro ⟨⟨hfile, hmissing⟩, hpresent⟩
    refine ⟨⟨file, hfile, if_neg ?_⟩, hmissing⟩
    intro hgone
    rw [(mem_gone.mp hgone).2.2] at hpresent
    cases hpresent

theorem gone_marked : (catalog.marked present).gone present = [] :=
  gone_eq_nil.mpr fun _ hfile => (mem_live_marked.mp hfile).2

theorem pathsDistinct_marked (hpaths : catalog.PathsDistinct) :
    (catalog.marked present).PathsDistinct := by
  have hsame : (catalog.marked present).files.map FileRecord.path =
      catalog.files.map FileRecord.path := by
    rw [marked, List.map_map]
    refine List.map_congr_left fun file _ => ?_
    rw [Function.comp_apply]
    split <;> rfl
  rw [PathsDistinct, hsame]
  exact hpaths

end Marked

section Search

open Query

variable {plan : Plan} {query : Compiled} {orders : List SortOrder} {page : Page}
  {ids : List MediaId}

theorem cut_sublist {α : Type} (page : Page) (results : List α) :
    (page.cut results).Sublist results := by
  unfold Page.cut
  split
  · exact List.drop_sublist _ _
  · exact (List.take_sublist _ _).trans (List.drop_sublist _ _)

/-- Whatever a search finds is listed with the paths of live files. -/
theorem listed_of_search (hsearch : catalog.search plan query orders page = .ok ids) :
    ∀ id ∈ ids, catalog.livePathsOf id ≠ [] ∧
      ∀ path ∈ catalog.livePathsOf id, ∃ file ∈ catalog.live, file.path = path := by
  intro id hid
  constructor
  · rw [(search_eq_ok.mp hsearch).2] at hid
    obtain ⟨file, hmatch⟩ := mem_found.mp ((cut_sublist page _).subset hid)
    exact livePathsOf_ne_nil.mpr ⟨file, List.mem_of_mem_filter hmatch⟩
  · intro path hpath
    obtain ⟨file, hhit, hsame⟩ := mem_livePathsOf.mp hpath
    exact ⟨file, (mem_hits.mp hhit).1, hsame⟩

end Search

end MediaCatalog.Catalog
