import Mathlib.Data.List.MinMax
import MediaCatalog.Proofs.Catalog.TagRows

/-!
Writes to tags one after the other. Each is merged into the row for its tag, and
writes for other tags do not touch that row. So the row a run leaves is told by
the row there was and the writes for its tag that count: it is the row of the
newest of them if that is newer than the row there was.

A removal, or the taking back of one, always counts. An addition does not where
the tag is there already: it does not even renew the time.
-/

namespace MediaCatalog

open Text

/-- Whether the write adds a tag, and does not renew one that is there. -/
def TagWrite.isAddition (write : TagWrite) : Bool :=
  !write.renews && !write.deleted

/-- The write is one of these, and none of them is newer. -/
def TagWrite.IsNewest (write : TagWrite) (writes : List TagWrite) : Prop :=
  write ∈ writes ∧ ∀ other ∈ writes, other.modified ≤ write.modified

theorem TagWrite.exists_newest {writes : List TagWrite} (hsome : writes ≠ []) :
    ∃ newest : TagWrite, newest.IsNewest writes := by
  obtain ⟨newest, hnewest⟩ := Option.ne_none_iff_exists'.mp
    (mt (List.argmax_eq_none (f := TagWrite.modified)).mp hsome)
  exact ⟨newest, List.argmax_mem hnewest, fun _ hother => List.le_of_mem_argmax hother hnewest⟩

/-- The row is that of the newest write, if this is newer than the row there
was, and else the row there was. -/
inductive Newest (old : Option TagRow) (writes : List TagWrite) : Option TagRow → Prop where
  | kept (hold : ∀ write ∈ writes, ∃ row ∈ old, write.modified ≤ row.modified) :
      Newest old writes old
  | written (newest : TagWrite) (hnewest : newest.IsNewest writes)
      (hnewer : ∀ row ∈ old, row.modified < newest.modified) :
      Newest old writes (some newest.row)

namespace Newest

variable {old row : Option TagRow} {write : TagWrite} {writes : List TagWrite}

theorem nil : Newest old [] old :=
  .kept fun _ hwrite => absurd hwrite List.not_mem_nil

/-- What merging makes of a row that the write renews, or finds the other way
around. -/
theorem merge_cases
    (hcounts : write.renews = true ∨ ∀ row ∈ old, row.deleted ≠ write.deleted) :
    (write.merge old = write.row ∧ ∀ row ∈ old, row.modified < write.modified) ∨
      ∃ row, old = some row ∧ write.merge old = row ∧ write.modified ≤ row.modified := by
  cases old with
  | none => exact .inl ⟨rfl, nofun⟩
  | some row =>
      by_cases hnewer : row.modified < write.modified
      · have hprevails : write.prevails row = true := by
          rcases hcounts with hrenews | hother
          · simp [TagWrite.prevails, hnewer, hrenews]
          · simp [TagWrite.prevails, hnewer, hother row rfl]
        refine .inl ⟨if_pos hprevails, ?_⟩
        rintro _ ⟨⟩
        exact hnewer
      · refine .inr ⟨row, rfl, if_neg ?_, Int.not_lt.mp hnewer⟩
        simp [TagWrite.prevails, hnewer]

/-- A write that counts goes before those that come after it. -/
theorem cons (hcounts : write.renews = true ∨ ∀ row ∈ old, row.deleted ≠ write.deleted)
    (hrest : Newest (some (write.merge old)) writes row) :
    Newest old (write :: writes) row := by
  rcases merge_cases hcounts with ⟨hmerge, hnewer⟩ | ⟨before, rfl, hmerge, holder⟩
  · rw [hmerge] at hrest
    cases hrest with
    | kept hold =>
        refine .written write ⟨List.mem_cons_self, ?_⟩ hnewer
        rw [List.forall_mem_cons]
        refine ⟨Int.le_refl _, fun other hother => ?_⟩
        obtain ⟨_, ⟨⟩, hle⟩ := hold other hother
        exact hle
    | written newest hnewest hlater =>
        have hwrite : write.modified < newest.modified := hlater write.row rfl
        refine .written newest ⟨List.mem_cons_of_mem _ hnewest.1, ?_⟩ ?_
        · rw [List.forall_mem_cons]
          exact ⟨Int.le_of_lt hwrite, hnewest.2⟩
        · intro row hrow
          exact Int.lt_trans (hnewer row hrow) hwrite
  · rw [hmerge] at hrest
    cases hrest with
    | kept hold =>
        refine .kept ?_
        rw [List.forall_mem_cons]
        exact ⟨⟨before, rfl, holder⟩, hold⟩
    | written newest hnewest hlater =>
        refine .written newest ⟨List.mem_cons_of_mem _ hnewest.1, ?_⟩ hlater
        rw [List.forall_mem_cons]
        exact ⟨Int.le_trans holder (Int.le_of_lt (hlater before rfl)), hnewest.2⟩

/-- A write that says what the row says, and does not renew it, leaves it. -/
theorem merge_of_said (hrenews : write.renews = false)
    (hsaid : ∃ row ∈ old, row.deleted = write.deleted) : some (write.merge old) = old := by
  obtain ⟨row, rfl, hdeleted⟩ := hsaid
  simp [TagWrite.merge, TagWrite.prevails, hrenews, hdeleted]

/-- The row that the newest write leaves, if no two are of the same time. -/
theorem eq_ite {newest : TagWrite} (hrow : Newest old writes row)
    (hnewest : newest.IsNewest writes)
    (hapart : ∀ a ∈ writes, ∀ b ∈ writes, a.modified = b.modified → a = b)
    [Decidable (∀ before ∈ old, before.modified < newest.modified)] :
    row = if ∀ before ∈ old, before.modified < newest.modified then some newest.row else old := by
  cases hrow with
  | kept hold =>
      obtain ⟨before, hbefore, holder⟩ := hold newest hnewest.1
      exact (if_neg fun hnewer => Int.not_lt.mpr holder (hnewer before hbefore)).symm
  | written last hlast hlater =>
      have hmodified : last.modified = newest.modified :=
        Int.le_antisymm (hnewest.2 last hlast.1) (hlast.2 newest hnewest.1)
      obtain rfl := hapart last hlast.1 newest hnewest.1 hmodified
      exact (if_pos hlater).symm

end Newest

namespace Catalog

/-- Merges the writes one after the other, and tells of each whether it changed
anything. -/
def mergeTags (catalog : Catalog) : List TagWrite → Except WriteFault (List Bool × Catalog)
  | [] => .ok ([], catalog)
  | write :: rest => do
      let (changed, catalog) ← catalog.mergeTag write
      let (answers, catalog) ← catalog.mergeTags rest
      return (changed :: answers, catalog)

/-- Whether the item has the tag. -/
def shows (catalog : Catalog) (item : MediaId) (tag : String) : Bool :=
  (catalog.tagRows item tag).any fun row => !row.deleted

/-- The writes that count, made one after the other: all but the additions of a
tag that is there. -/
def heeded (catalog : Catalog) : List TagWrite → List TagWrite
  | [] => []
  | write :: rest =>
      match catalog.mergeTag write with
      | .error _ => []
      | .ok (_, next) =>
          if write.isAddition && catalog.shows write.item write.tag then next.heeded rest
          else write :: next.heeded rest

variable {catalog next final : Catalog} {write : TagWrite} {writes rest : List TagWrite}
  {changed : Bool} {answers : List Bool} {item : MediaId} {tag : String}

/-- An item has a tag if it is among its tags. -/
theorem shows_iff_listed :
    catalog.shows item tag = true ↔
      ∃ row ∈ catalog.tagsOf item false, sameCaseless row.tag tag = true := by
  simp only [shows, List.any_eq_true, mem_tagRows, TagRow.isFor_iff, tagsOf, List.mem_mergeSort,
    List.mem_filter, Bool.and_eq_true, Bool.false_or, decide_eq_true_eq]
  constructor
  · rintro ⟨row, ⟨hrow, hitem, htag⟩, hlive⟩
    exact ⟨row, ⟨hrow, hitem, hlive⟩, htag⟩
  · rintro ⟨row, ⟨hrow, hitem, hlive⟩, htag⟩
    exact ⟨row, ⟨hrow, hitem, htag⟩, hlive⟩

/-- A tag that is written at most once is told by its first row. -/
theorem tagRows_eq_toList (hone : (catalog.tagRows item tag).length ≤ 1) :
    catalog.tagRows item tag = (catalog.tagRows item tag).head?.toList := by
  match catalog.tagRows item tag, hone with
  | [], _ | [_], _ => rfl

theorem shows_of_tagRows {row : TagRow} (hrows : catalog.tagRows item tag = [row]) :
    catalog.shows item tag = !row.deleted := by
  rw [shows, hrows]
  exact Bool.or_false _

theorem mergeTags_cons :
    catalog.mergeTags (write :: rest) = .ok (answers, final) ↔
      ∃ changed next more, catalog.mergeTag write = .ok (changed, next) ∧
        next.mergeTags rest = .ok (more, final) ∧ answers = changed :: more := by
  rw [mergeTags]
  cases hmerge : catalog.mergeTag write with
  | error fault => simp [bind, Except.bind]
  | ok merged =>
      obtain ⟨changed, next⟩ := merged
      cases hrest : next.mergeTags rest with
      | error fault =>
          simp only [bind, Except.bind, hrest, Except.ok.injEq, Prod.mk.injEq]
          constructor
          · nofun
          · rintro ⟨_, _, more, ⟨rfl, rfl⟩, hmore, -⟩
            cases hrest.symm.trans hmore
      | ok run =>
          simp only [bind, Except.bind, pure, Except.pure, hrest, Except.ok.injEq, Prod.mk.injEq]
          constructor
          · rintro ⟨rfl, rfl⟩
            exact ⟨changed, next, run.1, ⟨rfl, rfl⟩, hrest, rfl⟩
          · rintro ⟨_, _, more, ⟨rfl, rfl⟩, hmore, rfl⟩
            obtain rfl : run = (more, final) := Except.ok.inj (hrest.symm.trans hmore)
            exact ⟨rfl, rfl⟩

section Runs

theorem Merged.own_of_isFor (hmerged : Merged catalog write next)
    (hfor : write.row.isFor item tag = true) :
    next.tagRows item tag = [write.merge (catalog.tagRows item tag).head?] := by
  rw [tagRows_of_isFor hfor, tagRows_of_isFor hfor, hmerged.own]

theorem Merged.single (hmerged : Merged catalog write next)
    (hone : (catalog.tagRows item tag).length ≤ 1) : (next.tagRows item tag).length ≤ 1 := by
  cases hfor : write.row.isFor item tag with
  | true => rw [hmerged.own_of_isFor hfor, List.length_singleton]
  | false => rwa [hmerged.others hfor]

/-- What a run of writes leaves. -/
structure MergedAll (catalog : Catalog) (writes : List TagWrite) (final : Catalog) : Prop where
  files : final.files = catalog.files
  canonical : final.canonical = catalog.canonical
  single : ∀ {item tag}, (catalog.tagRows item tag).length ≤ 1 →
    (final.tagRows item tag).length ≤ 1
  others : ∀ {item tag}, (∀ write ∈ writes, write.row.isFor item tag = false) →
    final.tagRows item tag = catalog.tagRows item tag
  onward : RowsOnward catalog.tags final.tags

/-- No write of a run fails where each item has the tag written at most once. -/
theorem mergeTags_merged
    (hone : ∀ write ∈ writes, (catalog.tagRows write.item write.tag).length ≤ 1) :
    ∃ answers final, catalog.mergeTags writes = .ok (answers, final) ∧
      MergedAll catalog writes final := by
  induction writes generalizing catalog with
  | nil => exact ⟨[], catalog, rfl, rfl, rfl, id, fun _ => rfl, .refl catalog.tags⟩
  | cons write rest ih =>
      rw [List.forall_mem_cons] at hone
      obtain ⟨changed, next, hmerge, hmerged⟩ := mergeTag_merged hone.1
      obtain ⟨answers, final, hrest, hall⟩ :=
        ih fun other hother => hmerged.single (hone.2 other hother)
      refine ⟨changed :: answers, final,
        mergeTags_cons.mpr ⟨changed, next, answers, hmerge, hrest, rfl⟩, ?_⟩
      exact {
        files := hall.files.trans hmerged.files
        canonical := hall.canonical.trans hmerged.canonical
        single := fun h => hall.single (hmerged.single h)
        others := fun h => by
          rw [List.forall_mem_cons] at h
          rw [hall.others h.2, hmerged.others h.1]
        onward := hmerged.onward.trans hall.onward }

/-- The unique key is kept, and so no write fails. -/
theorem TagsDistinct.mergeTags (hdistinct : catalog.TagsDistinct) (writes : List TagWrite) :
    ∃ answers final, catalog.mergeTags writes = .ok (answers, final) ∧
      MergedAll catalog writes final ∧ final.TagsDistinct := by
  rw [tagsDistinct_iff] at hdistinct
  have hone : ∀ write ∈ writes, (catalog.tagRows write.item write.tag).length ≤ 1 :=
    fun write _ => hdistinct write.item write.tag
  obtain ⟨answers, final, hrun, hall⟩ := mergeTags_merged hone
  refine ⟨answers, final, hrun, hall, ?_⟩
  rw [tagsDistinct_iff]
  exact fun item tag => hall.single (hdistinct item tag)

/-- What a run that did not fail leaves. -/
theorem mergedAll_of_mergeTags
    (hone : ∀ write ∈ writes, (catalog.tagRows write.item write.tag).length ≤ 1)
    (hrun : catalog.mergeTags writes = .ok (answers, final)) : MergedAll catalog writes final := by
  obtain ⟨_, _, hdone, hall⟩ := mergeTags_merged hone
  obtain ⟨-, rfl⟩ := Prod.mk.inj (Except.ok.inj (hdone.symm.trans hrun))
  exact hall

theorem heeded_cons (hmerge : catalog.mergeTag write = .ok (changed, next)) :
    catalog.heeded (write :: rest) =
      if write.isAddition && catalog.shows write.item write.tag then next.heeded rest
      else write :: next.heeded rest := by
  rw [heeded, hmerge]

/-- A write that counts renews the row, or finds it the other way around. -/
theorem counts_of_heeded (hkind : write.renews = true ∨ write.isAddition = true)
    (hheeded : ¬ (write.isAddition && catalog.shows write.item write.tag) = true) :
    write.renews = true ∨
      ∀ row ∈ (catalog.tagRows write.item write.tag).head?, row.deleted ≠ write.deleted := by
  refine hkind.imp id fun haddition row hrow => ?_
  have hadds : write.deleted = false := by
    simp only [TagWrite.isAddition, Bool.and_eq_true, Bool.not_eq_true'] at haddition
    exact haddition.2
  rw [haddition, Bool.true_and, Bool.not_eq_true, shows, List.any_eq_false] at hheeded
  have hremoved := hheeded row (List.mem_of_head? hrow)
  rw [hadds]
  simpa using hremoved

/-- An addition that does not count says what the row says. -/
theorem said_of_left_out (hone : (catalog.tagRows write.item write.tag).length ≤ 1)
    (hleft : (write.isAddition && catalog.shows write.item write.tag) = true) :
    write.renews = false ∧
      ∃ row ∈ (catalog.tagRows write.item write.tag).head?, row.deleted = write.deleted := by
  simp only [TagWrite.isAddition, shows, Bool.and_eq_true, Bool.not_eq_true', List.any_eq_true]
    at hleft
  obtain ⟨⟨hrenews, hadds⟩, row, hrow, hlive⟩ := hleft
  refine ⟨hrenews, row, ?_, hlive.trans hadds.symm⟩
  obtain ⟨only, honly⟩ := List.length_eq_one_iff.mp
    (Nat.le_antisymm hone (List.length_pos_of_mem hrow))
  rw [honly, List.mem_singleton] at hrow
  rw [honly, hrow]
  rfl

/-- The row for a tag after a run is that of the newest write for it that
counts, unless the row there was is newer. -/
theorem mergeTags_newest
    (hone : ∀ write ∈ writes, (catalog.tagRows write.item write.tag).length ≤ 1)
    (hkind : ∀ write ∈ writes, write.renews = true ∨ write.isAddition = true)
    (hrun : catalog.mergeTags writes = .ok (answers, final)) (item : MediaId) (tag : String) :
    Newest (catalog.tagRows item tag).head?
      ((catalog.heeded writes).filter fun write => write.row.isFor item tag)
      (final.tagRows item tag).head? := by
  induction writes generalizing catalog answers with
  | nil =>
      obtain ⟨-, rfl⟩ := Prod.mk.inj (Except.ok.inj hrun)
      exact .nil
  | cons write rest ih =>
      rw [List.forall_mem_cons] at hone hkind
      obtain ⟨changed, next, more, hmerge, hrest, -⟩ := mergeTags_cons.mp hrun
      have hmerged := merged_of_mergeTag hone.1 hmerge
      have hlater := ih (fun other hother => hmerged.single (hone.2 other hother)) hkind.2 hrest
      rw [heeded_cons hmerge]
      cases hfor : write.row.isFor item tag with
      | false =>
          -- The write is for another tag, whether it counts or not.
          rw [hmerged.others hfor] at hlater
          split
          · exact hlater
          · rwa [List.filter_cons, if_neg (ne_true_of_eq_false hfor)]
      | true =>
          rw [hmerged.own_of_isFor hfor, tagRows_of_isFor hfor, List.head?_cons] at hlater
          rw [tagRows_of_isFor hfor]
          split
          case isTrue hleft =>
            obtain ⟨hrenews, hsaid⟩ := said_of_left_out hone.1 hleft
            rwa [Newest.merge_of_said hrenews hsaid] at hlater
          case isFalse hheeded =>
            rw [List.filter_cons, if_pos hfor]
            exact hlater.cons (counts_of_heeded hkind.1 hheeded)

theorem heeded_sublist (catalog : Catalog) (writes : List TagWrite) :
    (catalog.heeded writes).Sublist writes := by
  induction writes generalizing catalog with
  | nil => exact .slnil
  | cons write rest ih =>
      rw [heeded]
      split
      · exact List.nil_sublist _
      · split
        · exact (ih _).cons write
        · exact (ih _).cons_cons write

/-- Writes that are no additions all count. -/
theorem filter_sublist_heeded
    (hone : ∀ write ∈ writes, (catalog.tagRows write.item write.tag).length ≤ 1) :
    (writes.filter fun write => !write.isAddition).Sublist (catalog.heeded writes) := by
  induction writes generalizing catalog with
  | nil => exact .slnil
  | cons write rest ih =>
      rw [List.forall_mem_cons] at hone
      obtain ⟨changed, next, hmerge, hmerged⟩ := mergeTag_merged hone.1
      have hrest := ih fun other hother => hmerged.single (hone.2 other hother)
      rw [heeded_cons hmerge]
      cases hkind : write.isAddition with
      | false =>
          rw [List.filter_cons_of_pos (by simp [hkind])]
          exact hrest.cons_cons write
      | true =>
          rw [List.filter_cons_of_neg (by simp [hkind])]
          split
          · exact hrest
          · exact hrest.cons write

/-- The first write counts where the tag is not there. -/
theorem heeded_ne_nil (hone : (catalog.tagRows write.item write.tag).length ≤ 1)
    (hnone : catalog.shows write.item write.tag = false) :
    catalog.heeded (write :: rest) ≠ [] := by
  obtain ⟨changed, next, hmerge, -⟩ := mergeTag_merged hone
  rw [heeded_cons hmerge, hnone, Bool.and_false]
  exact List.cons_ne_nil _ _

/-- Writes that renew all count, and so the newest alone tells what they leave. -/
theorem mergeTags_renewals {newest : TagWrite} (hdistinct : catalog.TagsDistinct)
    (hrenews : ∀ write ∈ writes, write.renews = true)
    (hapart : ∀ a ∈ writes, ∀ b ∈ writes, a.row.Same b.row → a.modified = b.modified → a = b)
    (hrun : catalog.mergeTags writes = .ok (answers, final))
    (hnewest : newest.IsNewest (writes.filter fun write => write.row.isFor item tag)) :
    final.tagRows item tag =
      if ∀ old ∈ catalog.tagRows item tag, old.modified < newest.modified then [newest.row]
      else catalog.tagRows item tag := by
  rw [tagsDistinct_iff] at hdistinct
  have hone : ∀ write ∈ writes, (catalog.tagRows write.item write.tag).length ≤ 1 :=
    fun write _ => hdistinct write.item write.tag
  have hheeded : catalog.heeded writes = writes := by
    refine (heeded_sublist catalog writes).antisymm ?_
    have hall := filter_sublist_heeded hone
    rwa [List.filter_eq_self.mpr] at hall
    intro write hwrite
    simp [TagWrite.isAddition, hrenews write hwrite]
  have hrow := mergeTags_newest hone (fun write hwrite => .inl (hrenews write hwrite)) hrun item tag
  rw [hheeded] at hrow
  have hleft := hrow.eq_ite hnewest fun a ha b hb => by
    rw [List.mem_filter] at ha hb
    exact hapart a ha.1 b hb.1 (TagRow.same_of_isFor ha.2 hb.2)
  rw [tagRows_eq_toList ((mergedAll_of_mergeTags hone hrun).single (hdistinct item tag)), hleft]
  match catalog.tagRows item tag, hdistinct item tag with
  | [], _ => simp
  | [old], _ => split <;> simp_all

/-- The newest write for a tag is the same in any order. -/
theorem mergeTags_renewals_perm {order : List TagWrite} {others : List Bool} {after : Catalog}
    (hdistinct : catalog.TagsDistinct) (hrenews : ∀ write ∈ writes, write.renews = true)
    (hapart : ∀ a ∈ writes, ∀ b ∈ writes, a.row.Same b.row → a.modified = b.modified → a = b)
    (hrun : catalog.mergeTags writes = .ok (answers, final))
    (horder : order.Perm writes) (hafter : catalog.mergeTags order = .ok (others, after))
    (item : MediaId) (tag : String) : after.tagRows item tag = final.tagRows item tag := by
  have hown := horder.filter fun write => write.row.isFor item tag
  by_cases hnone : writes.filter (fun write => write.row.isFor item tag) = []
  · have hone (write : TagWrite) : (catalog.tagRows write.item write.tag).length ≤ 1 :=
      tagsDistinct_iff.mp hdistinct write.item write.tag
    have hothers {list : List TagWrite} (hlist : list.Perm writes) :
        ∀ write ∈ list, write.row.isFor item tag = false := fun write hwrite =>
      Bool.eq_false_iff.mpr (List.filter_eq_nil_iff.mp hnone write (hlist.mem_iff.mp hwrite))
    rw [(mergedAll_of_mergeTags (fun write _ => hone write) hafter).others (hothers horder),
      (mergedAll_of_mergeTags (fun write _ => hone write) hrun).others (hothers (.refl writes))]
  · obtain ⟨newest, hnewest⟩ := TagWrite.exists_newest hnone
    have hnewestToo : newest.IsNewest (order.filter fun write => write.row.isFor item tag) :=
      ⟨hown.mem_iff.mpr hnewest.1, fun other hother => hnewest.2 other (hown.mem_iff.mp hother)⟩
    rw [mergeTags_renewals hdistinct hrenews hapart hrun hnewest]
    refine mergeTags_renewals hdistinct ?_ ?_ hafter hnewestToo
    · exact fun write hwrite => hrenews write (horder.mem_iff.mp hwrite)
    · exact fun a ha b hb => hapart a (horder.mem_iff.mp ha) b (horder.mem_iff.mp hb)

end Runs

end Catalog

end MediaCatalog
