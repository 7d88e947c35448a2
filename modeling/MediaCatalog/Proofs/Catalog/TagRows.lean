import MediaCatalog.Catalog.Write
import MediaCatalog.Proofs.Text.Caseless

/-!
The rows for the tags of items. Merging a write adds a row, or writes the one
row there is for its tag, all of it at once; it does neither with any other row.
So an item has a tag once if it had it once before, and the two ways in which
the database could refuse the write are out of reach.
-/

namespace MediaCatalog

open Text

/-- The row is for the tag of the item. -/
def TagRow.isFor (row : TagRow) (item : MediaId) (tag : String) : Bool :=
  row.item = item && sameCaseless row.tag tag

theorem TagRow.isFor_iff {row : TagRow} {item : MediaId} {tag : String} :
    row.isFor item tag = true ↔ row.item = item ∧ sameCaseless row.tag tag = true := by
  simp [isFor]

/-- The rows are for the same tag of the same item. -/
def TagRow.Same (a b : TagRow) : Prop :=
  a.isFor b.item b.tag = true

instance (a b : TagRow) : Decidable (a.Same b) :=
  inferInstanceAs (Decidable (_ = true))

namespace TagRow.Same

variable {a b c : TagRow}

theorem refl (row : TagRow) : row.Same row :=
  isFor_iff.mpr ⟨rfl, sameCaseless_refl row.tag⟩

theorem symm (hsame : a.Same b) : b.Same a := by
  obtain ⟨hitem, htag⟩ := isFor_iff.mp hsame
  exact isFor_iff.mpr ⟨hitem.symm, sameCaseless_symm htag⟩

/-- Rows for the same tag are for the same tags. -/
theorem isFor_eq (hsame : a.Same b) (item : MediaId) (tag : String) :
    a.isFor item tag = b.isFor item tag := by
  obtain ⟨hitem, htag⟩ := isFor_iff.mp hsame
  rw [Bool.eq_iff_iff, isFor_iff, isFor_iff, hitem]
  refine and_congr_right fun _ => ⟨fun h => ?_, fun h => ?_⟩
  · exact sameCaseless_trans (sameCaseless_symm htag) h
  · exact sameCaseless_trans htag h

theorem trans (hab : a.Same b) (hbc : b.Same c) : a.Same c :=
  (hab.isFor_eq c.item c.tag).trans hbc

end TagRow.Same

/-- Rows for one tag are for the same tag. -/
theorem TagRow.same_of_isFor {a b : TagRow} {item : MediaId} {tag : String}
    (ha : a.isFor item tag = true) (hb : b.isFor item tag = true) : a.Same b := by
  obtain ⟨haitem, hatag⟩ := isFor_iff.mp ha
  obtain ⟨hbitem, hbtag⟩ := isFor_iff.mp hb
  exact isFor_iff.mpr
    ⟨haitem.trans hbitem.symm, sameCaseless_trans hatag (sameCaseless_symm hbtag)⟩

/-- The row may have been written again since, and not for an earlier time. -/
def TagRow.Onward (before after : TagRow) : Prop :=
  after.Same before ∧ before.modified ≤ after.modified

theorem TagRow.Onward.refl (row : TagRow) : row.Onward row :=
  ⟨.refl row, Int.le_refl _⟩

theorem TagRow.Onward.trans {a b c : TagRow} (hab : a.Onward b) (hbc : b.Onward c) :
    a.Onward c :=
  ⟨hbc.1.trans hab.1, Int.le_trans hab.2 hbc.2⟩

/-- Each row is still in its place; others may have come behind them. -/
def RowsOnward (before after : List TagRow) : Prop :=
  ∀ (i : Nat) (row : TagRow), before[i]? = some row →
    ∃ later, after[i]? = some later ∧ row.Onward later

theorem RowsOnward.refl (rows : List TagRow) : RowsOnward rows rows :=
  fun _ row hrow => ⟨row, hrow, .refl row⟩

theorem RowsOnward.trans {a b c : List TagRow} (hab : RowsOnward a b) (hbc : RowsOnward b c) :
    RowsOnward a c := by
  intro i row hrow
  obtain ⟨next, hnext, honward⟩ := hab i row hrow
  obtain ⟨later, hlater, hfurther⟩ := hbc i next hnext
  exact ⟨later, hlater, honward.trans hfurther⟩

theorem TagWrite.concerns_row (write : TagWrite) : write.concerns write.row = true :=
  TagRow.Same.refl write.row

theorem TagWrite.newer_of_prevails {write : TagWrite} {row : TagRow}
    (hprevails : write.prevails row = true) : row.modified < write.modified := by
  simp only [prevails, Bool.and_eq_true, decide_eq_true_eq] at hprevails
  exact hprevails.1

/-- The row for the tag of a write once it is merged, where `old` is the row
there was. -/
def TagWrite.merge (write : TagWrite) : Option TagRow → TagRow
  | none => write.row
  | some old => if write.prevails old then write.row else old

namespace Catalog

/-- The rows for the tag of an item. -/
def tagRows (catalog : Catalog) (item : MediaId) (tag : String) : List TagRow :=
  catalog.tags.filter fun row => row.isFor item tag

/-- The unique key of the table of tags. -/
def TagsDistinct (catalog : Catalog) : Prop :=
  catalog.tags.Pairwise fun a b => ¬ a.Same b

instance (catalog : Catalog) : Decidable catalog.TagsDistinct :=
  inferInstanceAs (Decidable (List.Pairwise _ _))

/-- The catalog with a row behind those of the tags. -/
def appendTag (catalog : Catalog) (row : TagRow) : Catalog :=
  { catalog with tags := catalog.tags ++ [row] }

variable {catalog : Catalog} {write : TagWrite} {row : TagRow} {item : MediaId} {tag : String}

theorem mem_tagRows :
    row ∈ catalog.tagRows item tag ↔ row ∈ catalog.tags ∧ row.isFor item tag = true :=
  List.mem_filter

theorem filter_concerns (catalog : Catalog) (write : TagWrite) :
    catalog.tags.filter write.concerns = catalog.tagRows write.item write.tag := rfl

theorem tagRows_of_isFor (hfor : write.row.isFor item tag = true) :
    catalog.tagRows item tag = catalog.tagRows write.item write.tag := by
  apply List.filter_congr
  intro row _
  obtain ⟨rfl, htag⟩ := TagRow.isFor_iff.mp hfor
  rw [TagRow.isFor, TagRow.isFor, ← sameCaseless_congr htag]
  rfl

/-- No two rows are for the same tag of an item if it has each tag once. -/
theorem tagsDistinct_iff :
    catalog.TagsDistinct ↔ ∀ item tag, (catalog.tagRows item tag).length ≤ 1 := by
  constructor
  · intro hdistinct item tag
    have hrows : (catalog.tagRows item tag).Pairwise fun a b => ¬ a.Same b := hdistinct.filter _
    match htwo : catalog.tagRows item tag with
    | [] | [_] => simp
    | a :: b :: rest =>
        have ha : a ∈ catalog.tagRows item tag := by simp [htwo]
        have hb : b ∈ catalog.tagRows item tag := by simp [htwo]
        have hsame : a.Same b :=
          TagRow.same_of_isFor (mem_tagRows.mp ha).2 (mem_tagRows.mp hb).2
        rw [htwo, List.pairwise_cons] at hrows
        exact absurd hsame (hrows.1 b List.mem_cons_self)
  · intro hone
    refine List.pairwise_iff_forall_sublist.mpr fun {a b} hpair hsame => ?_
    have htwo : [a, b].Sublist (catalog.tagRows b.item b.tag) := by
      have hkept := hpair.filter fun row => row.isFor b.item b.tag
      rwa [List.filter_eq_self.mpr] at hkept
      intro row hrow
      rcases List.mem_cons.mp hrow with rfl | hlast
      · exact hsame
      · obtain rfl := List.mem_singleton.mp hlast
        exact TagRow.Same.refl row
    have hlength := Nat.le_trans htwo.length_le (hone b.item b.tag)
    simp at hlength

/-- Tables in which an item has the same rows for each tag have the same rows. -/
theorem TagsDistinct.perm {other : Catalog} (hdistinct : catalog.TagsDistinct)
    (hother : other.TagsDistinct)
    (hrows : ∀ item tag, other.tagRows item tag = catalog.tagRows item tag) :
    other.tags.Perm catalog.tags := by
  have hnodup {table : Catalog} (htable : table.TagsDistinct) : table.tags.Nodup := by
    refine List.Pairwise.imp ?_ htable
    rintro row _ hapart rfl
    exact hapart (.refl row)
  rw [List.perm_ext_iff_of_nodup (hnodup hother) (hnodup hdistinct)]
  intro row
  have hself : row.isFor row.item row.tag = true := TagRow.Same.refl row
  have hmem (table : Catalog) : row ∈ table.tags ↔ row ∈ table.tagRows row.item row.tag := by
    simp [mem_tagRows, hself]
  rw [hmem other, hmem catalog, hrows]

section Updating

/-- A change that leaves it open which tag the row is for does not decide which
rows are changed. -/
theorem concerns_update {change : TagRow → TagRow}
    (hchange : ∀ row, write.concerns row = true → write.concerns (change row) = true)
    (row : TagRow) :
    write.concerns (if write.concerns row then change row else row) = write.concerns row := by
  split
  case isTrue hconcerns => rw [hconcerns, hchange row hconcerns]
  case isFalse => rfl

theorem tagRows_updateTag {change : TagRow → TagRow}
    (hchange : ∀ row, write.concerns row = true → write.concerns (change row) = true) :
    (catalog.updateTag write change).tagRows write.item write.tag =
      (catalog.tagRows write.item write.tag).map change := by
  have hsame : write.concerns ∘ (fun row => if write.concerns row then change row else row) =
      write.concerns := funext (concerns_update hchange)
  rw [← filter_concerns, ← filter_concerns, updateTag, List.filter_map, hsame]
  apply List.map_congr_left
  intro row hrow
  rw [if_pos (List.mem_filter.mp hrow).2]

/-- Two changes in sequence are one, if the first leaves the rows for the tag. -/
theorem updateTag_updateTag {first second : TagRow → TagRow}
    (hfirst : ∀ row, write.concerns row = true → write.concerns (first row) = true) :
    (catalog.updateTag write first).updateTag write second =
      catalog.updateTag write fun row => second (first row) := by
  simp only [updateTag, List.map_map, Catalog.mk.injEq, true_and]
  apply List.map_congr_left
  intro row _
  rw [Function.comp_apply, concerns_update hfirst]
  split <;> rfl

/-- A change of the only row for a tag is told by what becomes of this row. -/
theorem updateTag_congr {first second : TagRow → TagRow}
    (hrows : catalog.tagRows write.item write.tag = [row]) (hchange : first row = second row) :
    catalog.updateTag write first = catalog.updateTag write second := by
  simp only [updateTag, Catalog.mk.injEq, true_and]
  apply List.map_congr_left
  intro old hold
  split
  case isFalse => rfl
  case isTrue hconcerns =>
    have honly : old ∈ catalog.tagRows write.item write.tag := mem_tagRows.mpr ⟨hold, hconcerns⟩
    rw [hrows, List.mem_singleton] at honly
    rw [honly, hchange]

/-- A row that takes the place of one for the same tag is for no other tag. -/
theorem tagRows_updateTag_other (hother : write.row.isFor item tag = false) :
    (catalog.updateTag write fun _ => write.row).tagRows item tag = catalog.tagRows item tag := by
  have hnone {row : TagRow} (hconcerns : write.concerns row = true) :
      row.isFor item tag = false := by
    have hsame : row.Same write.row := hconcerns
    rw [hsame.isFor_eq, hother]
  have hsame : (fun row : TagRow => row.isFor item tag) ∘
      (fun row => if write.concerns row then write.row else row) =
      fun row => row.isFor item tag := by
    funext row
    rw [Function.comp_apply]
    split
    case isTrue hconcerns => rw [hother, hnone hconcerns]
    case isFalse => rfl
  rw [tagRows, updateTag, List.filter_map, hsame]
  refine (List.map_congr_left fun row hrow => ?_).trans (List.map_id _)
  have hconcerns : ¬ write.concerns row = true := by
    intro hconcerns
    rw [List.mem_filter, hnone hconcerns] at hrow
    cases hrow.2
  exact if_neg hconcerns

theorem tagRows_appendTag (catalog : Catalog) (row : TagRow) (item : MediaId) (tag : String) :
    (catalog.appendTag row).tagRows item tag =
      catalog.tagRows item tag ++ if row.isFor item tag then [row] else [] := by
  rw [tagRows, appendTag, List.filter_append, List.filter_cons, List.filter_nil]
  rfl

end Updating

section Merging

/-- A new spelling is not refused where there is one row for the tag. -/
theorem respellTag_of_single (hrows : catalog.tagRows write.item write.tag = [row]) :
    catalog.respellTag write =
      .ok (catalog.updateTag write fun row => { row with tag := write.tag }) := by
  have hrespelled : (catalog.updateTag write fun row => { row with tag := write.tag }).tagRows
      write.item write.tag = [{ row with tag := write.tag }] := by
    rw [tagRows_updateTag, hrows, List.map_singleton]
    intro row hconcerns
    have hitem : row.item = write.item := (TagRow.isFor_iff.mp hconcerns).1
    exact TagRow.isFor_iff.mpr ⟨hitem, sameCaseless_refl write.tag⟩
  have hcount : (catalog.updateTag write fun row => { row with tag := write.tag }).tags.countP
      write.concerns = 1 := by
    rw [List.countP_eq_length_filter, filter_concerns, hrespelled, List.length_singleton]
  rw [respellTag, hcount, if_neg (Nat.lt_irrefl 1)]

/-- The statements together write the whole row, and are not refused. -/
theorem mergeTag_eq (catalog : Catalog) (write : TagWrite) :
    catalog.mergeTag write =
      match catalog.tagRows write.item write.tag with
      | [] => .ok (true, catalog.appendTag write.row)
      | [row] =>
          if write.prevails row then .ok (true, catalog.updateTag write fun _ => write.row)
          else .ok (false, catalog)
      | _ :: _ :: _ => .error (.duplicateTag write.item write.tag) := by
  rw [mergeTag, filter_concerns]
  match hrows : catalog.tagRows write.item write.tag with
  | [] =>
      have hnone : catalog.tags.any write.concerns = false :=
        List.any_eq_false.mpr (List.filter_eq_nil_iff.mp hrows)
      simp only [insertTag, hnone]
      rfl
  | [row] =>
      have hrow : row ∈ catalog.tagRows write.item write.tag := by simp [hrows]
      have hitem : row.item = write.item := (TagRow.isFor_iff.mp (mem_tagRows.mp hrow).2).1
      have hrenewed : (catalog.renewTag write).tagRows write.item write.tag =
          [{ row with modified := write.modified, deleted := write.deleted }] := by
        rw [renewTag, tagRows_updateTag, hrows, List.map_singleton]
        exact fun _ hconcerns => hconcerns
      dsimp only
      split
      case isFalse => rfl
      case isTrue =>
        split
        case isTrue hspelling =>
          rw [renewTag, updateTag_congr hrows]
          rw [hitem, hspelling]
          rfl
        case isFalse =>
          rw [respellTag_of_single hrenewed, renewTag, updateTag_updateTag, updateTag_congr hrows]
          · rfl
          · rw [hitem]
            rfl
          · exact fun _ hconcerns => hconcerns
  | _ :: _ :: _ => rfl

/-- All that merging a write can do. -/
theorem mergeTag_cases (hone : (catalog.tagRows write.item write.tag).length ≤ 1) :
    (catalog.tagRows write.item write.tag = [] ∧
      catalog.mergeTag write = .ok (true, catalog.appendTag write.row)) ∨
    (∃ old, catalog.tagRows write.item write.tag = [old] ∧ write.prevails old = true ∧
      catalog.mergeTag write = .ok (true, catalog.updateTag write fun _ => write.row)) ∨
    ∃ old, catalog.tagRows write.item write.tag = [old] ∧ write.prevails old = false ∧
      catalog.mergeTag write = .ok (false, catalog) := by
  have hmerge := mergeTag_eq catalog write
  match hrows : catalog.tagRows write.item write.tag with
  | [] =>
      rw [hrows] at hmerge
      exact .inl ⟨rfl, hmerge⟩
  | [old] =>
      simp only [hrows] at hmerge
      cases hprevails : write.prevails old with
      | true => exact .inr (.inl ⟨old, rfl, hprevails, by simpa [hprevails] using hmerge⟩)
      | false => exact .inr (.inr ⟨old, rfl, hprevails, by simpa [hprevails] using hmerge⟩)
  | _ :: _ :: _ => simp [hrows] at hone

/-- What merging a write leaves. -/
structure Merged (catalog : Catalog) (write : TagWrite) (next : Catalog) : Prop where
  files : next.files = catalog.files
  canonical : next.canonical = catalog.canonical
  own : next.tagRows write.item write.tag =
    [write.merge (catalog.tagRows write.item write.tag).head?]
  others : ∀ {item tag}, write.row.isFor item tag = false →
    next.tagRows item tag = catalog.tagRows item tag
  onward : RowsOnward catalog.tags next.tags

theorem merged_append (hnone : catalog.tagRows write.item write.tag = []) :
    Merged catalog write (catalog.appendTag write.row) where
  files := rfl
  canonical := rfl
  own := by
    have hself : write.row.isFor write.item write.tag = true := write.concerns_row
    rw [tagRows_appendTag, if_pos hself, hnone]
    rfl
  others := by
    intro item tag hother
    rw [tagRows_appendTag, hother]
    exact List.append_nil _
  onward := by
    intro i row hrow
    exact ⟨row, List.getElem?_append_left (List.getElem?_eq_some_iff.mp hrow).1 ▸ hrow, .refl row⟩

theorem merged_update {old : TagRow} (hold : catalog.tagRows write.item write.tag = [old])
    (hprevails : write.prevails old = true) :
    Merged catalog write (catalog.updateTag write fun _ => write.row) where
  files := rfl
  canonical := rfl
  own := by
    rw [tagRows_updateTag, hold, List.map_singleton, List.head?_cons, TagWrite.merge,
      if_pos hprevails]
    exact fun _ _ => write.concerns_row
  others := tagRows_updateTag_other
  onward := by
    intro i row hrow
    have hlater : (catalog.updateTag write fun _ => write.row).tags[i]? =
        some (if write.concerns row then write.row else row) := by
      simp [updateTag, hrow]
    refine ⟨_, hlater, ?_⟩
    split
    case isFalse => exact .refl row
    case isTrue hconcerns =>
      have honly : row ∈ catalog.tagRows write.item write.tag :=
        mem_tagRows.mpr ⟨List.mem_of_getElem? hrow, hconcerns⟩
      obtain rfl : row = old := by simpa [hold] using honly
      exact ⟨TagRow.Same.symm hconcerns, Int.le_of_lt (TagWrite.newer_of_prevails hprevails)⟩

theorem merged_same {old : TagRow} (hold : catalog.tagRows write.item write.tag = [old])
    (hprevails : write.prevails old = false) : Merged catalog write catalog where
  files := rfl
  canonical := rfl
  own := by
    rw [hold, List.head?_cons, TagWrite.merge, hprevails]
    rfl
  others := fun _ => rfl
  onward := .refl catalog.tags

/-- A write is merged where its item has the tag at most once. -/
theorem mergeTag_merged (hone : (catalog.tagRows write.item write.tag).length ≤ 1) :
    ∃ changed next, catalog.mergeTag write = .ok (changed, next) ∧ Merged catalog write next := by
  rcases mergeTag_cases hone with ⟨hnone, hmerge⟩ | ⟨old, hold, hprevails, hmerge⟩ |
    ⟨old, hold, hprevails, hmerge⟩
  · exact ⟨true, _, hmerge, merged_append hnone⟩
  · exact ⟨true, _, hmerge, merged_update hold hprevails⟩
  · exact ⟨false, _, hmerge, merged_same hold hprevails⟩

theorem merged_of_mergeTag {changed : Bool} {next : Catalog}
    (hone : (catalog.tagRows write.item write.tag).length ≤ 1)
    (hmerge : catalog.mergeTag write = .ok (changed, next)) : Merged catalog write next := by
  obtain ⟨_, _, hdone, hmerged⟩ := mergeTag_merged hone
  obtain ⟨-, rfl⟩ := Prod.mk.inj (Except.ok.inj (hdone.symm.trans hmerge))
  exact hmerged

/-- Merging tells whether a row was added, or one became newer. -/
theorem mergeTag_changed (hone : (catalog.tagRows write.item write.tag).length ≤ 1) :
    ∃ changed next, catalog.mergeTag write = .ok (changed, next) ∧
      (changed = true ↔
        (catalog.tagRows write.item write.tag = [] ∧ next.tags = catalog.tags ++ [write.row]) ∨
        ∃ old new, catalog.tagRows write.item write.tag = [old] ∧
          next.tagRows write.item write.tag = [new] ∧ old.modified < new.modified) := by
  rcases mergeTag_cases hone with ⟨hnone, hmerge⟩ | ⟨old, hold, hprevails, hmerge⟩ |
    ⟨old, hold, hprevails, hmerge⟩
  · exact ⟨true, _, hmerge, iff_of_true rfl (.inl ⟨hnone, rfl⟩)⟩
  · refine ⟨true, _, hmerge, iff_of_true rfl (.inr ⟨old, write.row, hold, ?_, ?_⟩)⟩
    · rw [(merged_update hold hprevails).own, hold, List.head?_cons, TagWrite.merge,
        if_pos hprevails]
    · exact TagWrite.newer_of_prevails hprevails
  · refine ⟨false, _, hmerge, iff_of_false Bool.false_ne_true ?_⟩
    rintro (⟨hnone, -⟩ | ⟨before, after, hbefore, hafter, hnewer⟩)
    · exact List.cons_ne_nil _ _ (hold.symm.trans hnone)
    · obtain rfl : before = after := List.singleton_inj.mp (hbefore.symm.trans hafter)
      exact Int.lt_irrefl _ hnewer

end Merging

end Catalog

end MediaCatalog
