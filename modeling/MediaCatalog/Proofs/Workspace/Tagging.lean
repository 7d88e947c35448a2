import Mathlib.Data.List.Pairwise
import MediaCatalog.Proofs.Catalog.TagRuns
import MediaCatalog.Proofs.Workspace.Upkeep

/-!
Tags at a store. Calls that write tags do at a store what they do to its tables,
each as a transaction of its own or all in one. So what is known of merged writes
is known of calls: none fails, an item has each tag once, and rows only move on.

Removals leave the same tags in any order, each row as the newest removal has it.
Where tags are added too, the order counts: an addition that finds the tag there
is left out, its time with it, and a removal that arrives later but is older than
the addition takes the tag away. Of the other calls the newest decides.
-/

namespace MediaCatalog

open Text

/-- Writes in one transaction are merged as they are one after the other. -/
theorem Catalog.performAll_mergeTags {catalog final : Catalog} {writes : List TagWrite}
    {answers : List Bool} (hrun : catalog.mergeTags writes = .ok (answers, final)) :
    catalog.performAll (writes.map .mergeTag) = .ok (answers.map .truth, final) := by
  induction writes generalizing catalog answers with
  | nil =>
      obtain ⟨rfl, rfl⟩ := Prod.mk.inj (Except.ok.inj hrun)
      rfl
  | cons write rest ih =>
      obtain ⟨changed, next, more, hmerge, hrest, rfl⟩ := mergeTags_cons.mp hrun
      simp [performAll, perform, hmerge, ih hrest, bind, Except.bind, pure, Except.pure]

namespace Workspace

variable {catalog final : Catalog} {now : Int} {rest : List Entry} {here : Path}
  {registry : Registry} {ws : Workspace} {calls : List TagWrite} {answers : List Bool}
  {item : MediaId} {tag : String}

/-- Calls that write tags, one after the other: each succeeds. They give these
answers and leave that catalog, be it that they are merged into the tables by
themselves, or at the store of a workspace that hosts these, where each is a
transaction or all are one. -/
structure TagRun (catalog : Catalog) (calls : List TagWrite) (answers : List Bool)
    (final : Catalog) : Prop where
  merged : catalog.mergeTags calls = .ok (answers, final)
  separately : ∀ {here now rest registry ws}, Apart rest → Hosts here now rest registry ws →
    registry.catalog = catalog →
      (ws.perform (calls.mapM store.mergeTag)).1 = .ok answers ∧
        Hosts here now rest (registry.withCatalog final)
          (ws.perform (calls.mapM store.mergeTag)).2
  together : ∀ {here now rest registry ws}, Apart rest → Hosts here now rest registry ws →
    registry.catalog = catalog →
      (ws.perform (store.transact (calls.map .mergeTag))).1 = .ok (answers.map .truth) ∧
        Hosts here now rest (registry.withCatalog final)
          (ws.perform (store.transact (calls.map .mergeTag))).2

theorem Hosts.mergeTags (hrest : Apart rest) (hhosts : Hosts here now rest registry ws)
    (hrun : registry.catalog.mergeTags calls = .ok (answers, final)) :
    (ws.perform (calls.mapM store.mergeTag)).1 = .ok answers ∧
      Hosts here now rest (registry.withCatalog final)
        (ws.perform (calls.mapM store.mergeTag)).2 := by
  induction calls generalizing registry ws answers with
  | nil =>
      obtain ⟨rfl, rfl⟩ := Prod.mk.inj (Except.ok.inj hrun)
      exact ⟨rfl, hhosts⟩
  | cons call calls ih =>
      obtain ⟨changed, next, more, hmerge, hmore, rfl⟩ := Catalog.mergeTags_cons.mp hrun
      obtain ⟨hanswer, hleft⟩ := hhosts.mergeTag hrest call
      simp only [Library.Upkeep.done, hmerge] at hanswer hleft
      obtain ⟨hrestAnswer, hlast⟩ := ih hleft hmore
      rw [List.mapM_cons, perform_bind]
      cases hcall : ws.perform (store.mergeTag call) with
      | mk answer after =>
          rw [hcall] at hanswer hrestAnswer hlast
          obtain rfl : answer = .ok changed := hanswer
          simp only [perform_bind]
          cases hlater : after.perform (calls.mapM store.mergeTag) with
          | mk laterAnswer last =>
              rw [hlater] at hrestAnswer hlast
              obtain rfl : laterAnswer = .ok more := hrestAnswer
              exact ⟨rfl, hlast⟩

theorem tagRun_of_mergeTags (hrun : catalog.mergeTags calls = .ok (answers, final)) :
    TagRun catalog calls answers final where
  merged := hrun
  separately := by
    rintro here now rest registry ws hrest hhosts rfl
    exact hhosts.mergeTags hrest hrun
  together := by
    rintro here now rest registry ws hrest hhosts rfl
    have hwritten := hhosts.write hrest (Store.bareFindings (calls.map .mergeTag)) fun catalog =>
      (catalog.performAll (calls.map .mergeTag)).mapError .ofWrite
    simp only [Catalog.performAll_mergeTags hrun] at hwritten
    exact hwritten

/-- A run gives what the tables give. -/
theorem TagRun.result_eq {others : List Bool} {after : Catalog}
    (hrun : TagRun catalog calls answers final)
    (hmerged : catalog.mergeTags calls = .ok (others, after)) : answers = others ∧ final = after :=
  Prod.mk.inj (Except.ok.inj (hrun.merged.symm.trans hmerged))

/-- From an empty table no call fails, an item has each tag once, and rows only
move on. -/
theorem tagTable_kept (files : List FileRecord) (canonical : List CanonicalRow)
    (calls more : List TagWrite) (call : TagWrite) :
    ∃ answers between, TagRun ⟨files, canonical, []⟩ calls answers between ∧
      between.files = files ∧ between.canonical = canonical ∧ between.TagsDistinct ∧
      (∃ changed next, TagRun between [call] [changed] next ∧
        (changed = true ↔
          (between.tagRows call.item call.tag = [] ∧ next.tags = between.tags ++ [call.row]) ∨
          ∃ old new, between.tagRows call.item call.tag = [old] ∧
            next.tagRows call.item call.tag = [new] ∧ old.modified < new.modified)) ∧
      ∃ later final, TagRun between more later final ∧ RowsOnward between.tags final.tags := by
  have hempty : Catalog.TagsDistinct ⟨files, canonical, []⟩ := List.Pairwise.nil
  obtain ⟨answers, between, hrun, hall, hdistinct⟩ := hempty.mergeTags calls
  obtain ⟨later, final, hmore, hlater, -⟩ := hdistinct.mergeTags more
  obtain ⟨changed, next, hcall, hchanged⟩ :=
    Catalog.mergeTag_changed (Catalog.tagsDistinct_iff.mp hdistinct call.item call.tag)
  have hone : between.mergeTags [call] = .ok ([changed], next) :=
    Catalog.mergeTags_cons.mpr ⟨changed, next, [], hcall, rfl, rfl⟩
  exact ⟨answers, between, tagRun_of_mergeTags hrun, hall.files, hall.canonical, hdistinct,
    ⟨changed, next, tagRun_of_mergeTags hone, hchanged⟩,
    ⟨later, final, tagRun_of_mergeTags hmore, hlater.onward⟩⟩

/-- A tag is inserted, found there, renewed, and respelled by its removal. -/
theorem tagTable_kept_respelled :
    let item : MediaId := ⟨"i1"⟩
    let calls := [addTag item "x" 1, addTag item "X" 2, setTagDeleted item "x" false 3]
    let renewed : Catalog := { tags := [⟨item, "x", 3, false⟩] }
    let call := setTagDeleted item "X" true 5
    let respelled : Catalog := { tags := [⟨item, "X", 5, true⟩] }
    let more := [call, addTag item "y" 4, setTagDeleted item "x" false 4]
    let enlarged : Catalog := { tags := [⟨item, "X", 5, true⟩, ⟨item, "y", 4, false⟩] }
    TagRun {} calls [true, false, true] renewed ∧ renewed.TagsDistinct ∧
      TagRun renewed [call] [true] respelled ∧
      TagRun renewed more [true, true, false] enlarged ∧
      RowsOnward renewed.tags enlarged.tags := by
  intro item calls renewed call respelled more enlarged
  have hinserted : ({} : Catalog).mergeTags calls = .ok ([true, false, true], renewed) := by decide
  have hremoved : renewed.mergeTags [call] = .ok ([true], respelled) := by decide
  have hadded : renewed.mergeTags more = .ok ([true, true, false], enlarged) := by decide
  obtain ⟨answers, between, hcalls, -, -, hdistinct, ⟨changed, next, hcall, -⟩,
    later, final, hmore, honward⟩ := tagTable_kept [] [] calls more call
  obtain ⟨rfl, rfl⟩ := hcalls.result_eq hinserted
  obtain ⟨honce, rfl⟩ := hcall.result_eq hremoved
  obtain ⟨rfl, rfl⟩ := hmore.result_eq hadded
  exact ⟨hcalls, hdistinct, honce ▸ hcall, hmore, honward⟩

/-- Removals, and the taking back of them, leave the same table in any order: for
each tag of an item the row of the newest call, unless the row there was is not
older. -/
theorem removals_commute (hdistinct : catalog.TagsDistinct)
    (hcalls : ∀ call ∈ calls, ∃ item tag deleted modified,
      call = setTagDeleted item tag deleted modified)
    (htimes : calls.Pairwise fun a b => a.row.Same b.row → a.modified ≠ b.modified) :
    ∃ answers final, TagRun catalog calls answers final ∧
      final.files = catalog.files ∧ final.canonical = catalog.canonical ∧ final.TagsDistinct ∧
      (∀ call ∈ calls, ∃ newest : TagWrite,
        newest.IsNewest (calls.filter fun other => other.row.isFor call.item call.tag) ∧
        final.tagRows call.item call.tag =
          if ∀ old ∈ catalog.tagRows call.item call.tag, old.modified < newest.modified
          then [newest.row] else catalog.tagRows call.item call.tag) ∧
      (∀ item tag, (∀ call ∈ calls, call.row.isFor item tag = false) →
        final.tagRows item tag = catalog.tagRows item tag) ∧
      ∀ order, order.Perm calls →
        ∃ answers after, TagRun catalog order answers after ∧
          after.files = catalog.files ∧ after.canonical = catalog.canonical ∧
          after.tags.Perm final.tags := by
  have hrenews : ∀ call ∈ calls, call.renews = true := by
    intro call hcall
    obtain ⟨_, _, _, _, rfl⟩ := hcalls call hcall
    rfl
  have hapart : ∀ a ∈ calls, ∀ b ∈ calls, a.row.Same b.row → a.modified = b.modified → a = b := by
    intro a ha b hb hsame hmodified
    by_contra hne
    have : Std.Symm fun a b : TagWrite => a.row.Same b.row → a.modified ≠ b.modified :=
      ⟨fun a b hdiffer hsame => (hdiffer hsame.symm).symm⟩
    exact htimes.forall ha hb hne hsame hmodified
  obtain ⟨answers, final, hrun, hall, hfinal⟩ := hdistinct.mergeTags calls
  refine ⟨answers, final, tagRun_of_mergeTags hrun, hall.files, hall.canonical, hfinal, ?_,
    fun item tag => hall.others, ?_⟩
  · intro call hcall
    have hown : call ∈ calls.filter fun other => other.row.isFor call.item call.tag :=
      List.mem_filter.mpr ⟨hcall, call.concerns_row⟩
    obtain ⟨newest, hnewest⟩ := TagWrite.exists_newest (List.ne_nil_of_mem hown)
    exact ⟨newest, hnewest,
      Catalog.mergeTags_renewals hdistinct hrenews hapart hrun hnewest⟩
  · intro order horder
    obtain ⟨others, after, hafter, hordered, hdistinctAfter⟩ := hdistinct.mergeTags order
    refine ⟨others, after, tagRun_of_mergeTags hafter, hordered.files, hordered.canonical, ?_⟩
    exact hfinal.perm hdistinctAfter
      (Catalog.mergeTags_renewals_perm hdistinct hrenews hapart hrun horder hafter)

theorem removals_of_foo_commute :
    let one : MediaId := ⟨"i1"⟩
    let two : MediaId := ⟨"i2"⟩
    let catalog : Catalog :=
      { tags := [⟨one, "Foo", 3, false⟩, ⟨one, "bar", 10, false⟩, ⟨two, "foo", 1, false⟩] }
    let calls := [setTagDeleted one "FOO" true 5, setTagDeleted one "foo" false 4,
      setTagDeleted one "bar" true 7]
    catalog.TagsDistinct ∧
      (∀ call ∈ calls, ∃ item tag deleted modified,
        call = setTagDeleted item tag deleted modified) ∧
      (calls.Pairwise fun a b => a.row.Same b.row → a.modified ≠ b.modified) ∧
      ∃ answers final, TagRun catalog calls answers final ∧
        final.tagRows two "foo" = [⟨two, "foo", 1, false⟩] ∧
        ∀ order, order.Perm calls → ∃ answers after, TagRun catalog order answers after ∧
          after.tags.Perm final.tags := by
  intro one two catalog calls
  have hdistinct : catalog.TagsDistinct := by decide
  have hcalls : ∀ call ∈ calls, ∃ item tag deleted modified,
      call = setTagDeleted item tag deleted modified := by
    simp only [calls, List.forall_mem_cons]
    exact ⟨⟨_, _, _, _, rfl⟩, ⟨_, _, _, _, rfl⟩, ⟨_, _, _, _, rfl⟩, nofun⟩
  have htimes : calls.Pairwise fun a b => a.row.Same b.row → a.modified ≠ b.modified := by
    decide
  refine ⟨hdistinct, hcalls, htimes, ?_⟩
  obtain ⟨answers, final, hrun, -, -, -, -, hothers, horders⟩ :=
    removals_commute hdistinct hcalls htimes
  refine ⟨answers, final, hrun, (hothers two "foo" (by decide)).trans (by decide),
    fun order horder => ?_⟩
  obtain ⟨others, after, hafter, -, -, hperm⟩ := horders order horder
  exact ⟨others, after, hafter, hperm⟩

/-- The call adds the tag to the item, or removes it or takes that back, in
whatever spelling. -/
inductive TagCall (item : MediaId) (tag : String) : TagWrite → Prop where
  | add (spelling : String) (modified : Int) (hsame : sameCaseless spelling tag = true) :
      TagCall item tag (addTag item spelling modified)
  | setDeleted (spelling : String) (deleted : Bool) (modified : Int)
      (hsame : sameCaseless spelling tag = true) :
      TagCall item tag (setTagDeleted item spelling deleted modified)

namespace TagCall

variable {call : TagWrite}

theorem isFor (hcall : TagCall item tag call) : call.row.isFor item tag = true := by
  cases hcall with
  | add _ _ hsame | setDeleted _ _ _ hsame => exact TagRow.isFor_iff.mpr ⟨rfl, hsame⟩

theorem renews_or_isAddition (hcall : TagCall item tag call) :
    call.renews = true ∨ call.isAddition = true := by
  cases hcall with
  | add => exact .inr rfl
  | setDeleted => exact .inl rfl

end TagCall

/-- Of the calls that count the newest decides whether the item has the tag. All
count but the additions that find it there. -/
theorem newest_call_decides (hnone : ∀ row ∈ catalog.tags, row.isFor item tag = false)
    (hcalls : ∀ call ∈ calls, TagCall item tag call)
    (htimes : (calls.map TagWrite.modified).Nodup) :
    ∃ answers final, TagRun catalog calls answers final ∧
      (calls ≠ [] → catalog.heeded calls ≠ []) ∧
      (∀ newest : TagWrite, newest.IsNewest (catalog.heeded calls) →
        ((∃ row ∈ final.tagsOf item false, sameCaseless row.tag tag = true) ↔
          newest.deleted = false)) ∧
      ∀ newest : TagWrite, newest.IsNewest calls → newest.renews = true →
        ((∃ row ∈ final.tagsOf item false, sameCaseless row.tag tag = true) ↔
          newest.deleted = false) := by
  have hempty : catalog.tagRows item tag = [] :=
    List.filter_eq_nil_iff.mpr fun row hrow => by simp [hnone row hrow]
  have hown : ∀ call ∈ calls, catalog.tagRows call.item call.tag = [] := fun call hcall => by
    rw [← Catalog.tagRows_of_isFor (hcalls call hcall).isFor, hempty]
  have hone : ∀ call ∈ calls, (catalog.tagRows call.item call.tag).length ≤ 1 :=
    fun call hcall => by simp [hown call hcall]
  obtain ⟨answers, final, hrun, hall⟩ := Catalog.mergeTags_merged hone
  have hheeded := catalog.heeded_sublist calls
  have hrow := Catalog.mergeTags_newest hone
    (fun call hcall => (hcalls call hcall).renews_or_isAddition) hrun item tag
  rw [hempty, List.head?_nil, List.filter_eq_self.mpr fun call hcall =>
    (hcalls call (hheeded.subset hcall)).isFor] at hrow
  have hapart : ∀ a ∈ catalog.heeded calls, ∀ b ∈ catalog.heeded calls,
      a.modified = b.modified → a = b := fun a ha b hb hmodified =>
    List.inj_on_of_nodup_map htimes (hheeded.subset ha) (hheeded.subset hb) hmodified
  have hdecides : ∀ newest : TagWrite, newest.IsNewest (catalog.heeded calls) →
      ((∃ row ∈ final.tagsOf item false, sameCaseless row.tag tag = true) ↔
        newest.deleted = false) := by
    intro newest hnewest
    have hlast : (final.tagRows item tag).head? = some newest.row := by
      rw [hrow.eq_ite hnewest hapart, if_pos nofun]
    have hrows : final.tagRows item tag = [newest.row] := by
      rw [Catalog.tagRows_eq_toList (hall.single (by simp [hempty])), hlast]
      rfl
    rw [← Catalog.shows_iff_listed, Catalog.shows_of_tagRows hrows, Bool.not_eq_true']
    rfl
  refine ⟨answers, final, tagRun_of_mergeTags hrun, ?_, hdecides, ?_⟩
  · intro hsome
    cases calls with
    | nil => exact absurd rfl hsome
    | cons call rest =>
        have hfirst := hown call List.mem_cons_self
        exact Catalog.heeded_ne_nil (by simp [hfirst]) (by simp [Catalog.shows, hfirst])
  · intro newest hnewest hrenews
    refine hdecides newest ⟨?_, fun other hother => hnewest.2 other (hheeded.subset hother)⟩
    refine (Catalog.filter_sublist_heeded hone).subset (List.mem_filter.mpr ⟨hnewest.1, ?_⟩)
    simp [TagWrite.isAddition, hrenews]

theorem readded_tag_listed :
    let item : MediaId := ⟨"i1"⟩
    let catalog : Catalog := { tags := [⟨item, "y", 9, false⟩] }
    let calls := [setTagDeleted item "x" true 5, addTag item "X" 4, addTag item "x" 6]
    (∀ row ∈ catalog.tags, row.isFor item "x" = false) ∧
      (∀ call ∈ calls, TagCall item "x" call) ∧ (calls.map TagWrite.modified).Nodup ∧
      ∃ answers final, TagRun catalog calls answers final ∧
        ∃ row ∈ final.tagsOf item false, sameCaseless row.tag "x" = true := by
  intro item catalog calls
  have hnone : ∀ row ∈ catalog.tags, row.isFor item "x" = false := by decide
  have hcalls : ∀ call ∈ calls, TagCall item "x" call := by
    simp only [calls, List.forall_mem_cons]
    exact ⟨.setDeleted "x" true 5 (by decide), .add "X" 4 (by decide), .add "x" 6 (by decide),
      nofun⟩
  have htimes : (calls.map TagWrite.modified).Nodup := by decide
  have hheeded : catalog.heeded calls = calls := by decide
  obtain ⟨answers, final, hrun, -, hdecides, -⟩ := newest_call_decides hnone hcalls htimes
  refine ⟨hnone, hcalls, htimes, answers, final, hrun, ?_⟩
  refine (hdecides (addTag item "x" 6) ?_).mpr rfl
  rw [hheeded, TagWrite.IsNewest]
  decide

/-- An addition that is left out takes its time with it: the tag is gone after a
removal that is older than the newest call. -/
theorem older_removal_prevails :
    let item : MediaId := ⟨"i1"⟩
    let calls := [addTag item "x" 1, addTag item "x" 5, setTagDeleted item "x" true 3]
    (∀ call ∈ calls, TagCall item "x" call) ∧ (calls.map TagWrite.modified).Nodup ∧
      (addTag item "x" 5).IsNewest calls ∧ (addTag item "x" 5).deleted = false ∧
      ∃ final, TagRun {} calls [true, false, true] final ∧
        ¬ ∃ row ∈ final.tagsOf item false, sameCaseless row.tag "x" = true := by
  intro item calls
  have hcalls : ∀ call ∈ calls, TagCall item "x" call := by
    simp only [calls, List.forall_mem_cons]
    exact ⟨.add "x" 1 (by decide), .add "x" 5 (by decide), .setDeleted "x" true 3 (by decide),
      nofun⟩
  have hrun : ({} : Catalog).mergeTags calls =
      .ok ([true, false, true], { tags := [⟨item, "x", 3, true⟩] }) := by decide
  refine ⟨hcalls, by decide, ?_, rfl, _, tagRun_of_mergeTags hrun, ?_⟩
  · rw [TagWrite.IsNewest]
    decide
  · rw [← Catalog.shows_iff_listed]
    decide

end Workspace

end MediaCatalog
