import Mathlib.Data.Finset.Card
import MediaCatalog.Proofs.Text.Caseless

/-!
Values listed once. What is found several times is listed where it comes first,
and tags that differ in case alone are listed as one. Both are told by a key of
each value: what remains has every key once.
-/

namespace MediaCatalog

open Text

variable {α β : Type}

theorem nodup_eraseDups [DecidableEq α] (items : List α) : items.eraseDups.Nodup := by
  cases items with
  | nil => exact List.nodup_nil
  | cons item rest =>
      have hrest := nodup_eraseDups (rest.filter fun other => !other == item)
      have hnew : item ∉ (rest.filter fun other => !other == item).eraseDups := by
        rw [List.mem_eraseDups, List.mem_filter]
        rintro ⟨-, hother⟩
        simp at hother
      rw [List.eraseDups_cons]
      exact List.nodup_cons.mpr ⟨hnew, hrest⟩
termination_by items.length
decreasing_by
  have hshorter := List.length_filter_le (fun other => !other == item) rest
  rw [List.length_cons]
  omega

theorem eq_singleton_of_nodup {items : List α} {item : α} (hnodup : items.Nodup)
    (hmem : ∀ other, other ∈ items ↔ other = item) : items = [item] := by
  refine List.perm_singleton.mp ((List.perm_ext_iff_of_nodup hnodup ?_).mpr fun other => ?_)
  · exact List.nodup_singleton item
  · rw [hmem, List.mem_singleton]

theorem eraseDupsBy_sublist (same : α → α → Bool) (items : List α) :
    (items.eraseDupsBy same).Sublist items := by
  cases items with
  | nil => exact List.Sublist.refl []
  | cons item rest =>
      have hrest := eraseDupsBy_sublist same (rest.filter fun other => same other item = false)
      rw [List.eraseDupsBy_cons]
      exact (hrest.trans List.filter_sublist).cons_cons item
termination_by items.length
decreasing_by
  have hshorter := List.length_filter_le (fun other => decide (same other item = false)) rest
  rw [List.length_cons]
  omega

/-- Values are the same if their keys are. -/
def Keyed (same : α → α → Bool) (key : α → β) : Prop :=
  ∀ a b, same a b = true ↔ key a = key b

theorem keyed_sameCaseless : Keyed sameCaseless fun text => caselessKey text.toList :=
  fun _ _ => sameCaseless_iff_key

namespace Keyed

variable [DecidableEq β] {same : α → α → Bool} {key : α → β} (hkeyed : Keyed same key)

include hkeyed

theorem map_eraseDupsBy (items : List α) :
    (items.eraseDupsBy same).map key = (items.map key).eraseDups := by
  cases items with
  | nil => rfl
  | cons item rest =>
      have hrest := map_eraseDupsBy (rest.filter fun other => same other item = false)
      have hkept : (rest.filter fun other => same other item = false).map key =
          (rest.map key).filter fun other => !other == key item := by
        rw [List.filter_map]
        refine congrArg (List.map key) (List.filter_congr fun other _ => ?_)
        rw [Bool.eq_iff_iff]
        simp [← hkeyed other item]
      rw [List.eraseDupsBy_cons, List.map_cons, List.map_cons, List.eraseDups_cons, hrest, hkept]
termination_by items.length
decreasing_by
  have hshorter := List.length_filter_le (fun other => decide (same other item = false)) rest
  rw [List.length_cons]
  omega

theorem pairwise_eraseDupsBy (items : List α) :
    (items.eraseDupsBy same).Pairwise fun a b => same a b = false := by
  have hkeys := nodup_eraseDups (items.map key)
  rw [← hkeyed.map_eraseDupsBy] at hkeys
  refine (List.pairwise_map.mp hkeys).imp fun {a b} hkey => ?_
  rw [← Bool.not_eq_true, hkeyed]
  exact hkey

theorem exists_eraseDupsBy_iff {items : List α} {value : α} :
    (∃ item ∈ items.eraseDupsBy same, same item value = true) ↔
      ∃ item ∈ items, same item value = true := by
  have hkeys : key value ∈ (items.eraseDupsBy same).map key ↔ key value ∈ items.map key := by
    rw [hkeyed.map_eraseDupsBy, List.mem_eraseDups]
  simpa only [List.mem_map, hkeyed _ _] using hkeys

/-- As many values remain as there are keys. -/
theorem length_eraseDupsBy (items : List α) :
    (items.eraseDupsBy same).length = (items.map key).toFinset.card := by
  have hset : (items.map key).toFinset = (items.map key).eraseDups.toFinset := by
    ext value
    simp
  rw [hset, List.toFinset_card_of_nodup (nodup_eraseDups _), ← hkeyed.map_eraseDupsBy,
    List.length_map]

end Keyed

end MediaCatalog
