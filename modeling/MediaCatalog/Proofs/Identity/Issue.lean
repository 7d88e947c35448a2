import MediaCatalog.Identity.Reconcile

/-!
Identifiers are issued once. A drawn candidate is not in use and was never
drawn before, since the search only goes forward and no two candidates are
alike; what was issued stays issued.
-/

namespace MediaCatalog

namespace IdSupply

/-- The search goes forward, to a candidate that is not in use. The candidate
passed over at each call is left out of the list for the next one; it cannot
come up again, because the candidates are distinct. -/
theorem firstUnused_spec (candidate : Nat → MediaId)
    (hdistinct : ∀ m n, candidate m = candidate n → m = n) (inUse : List MediaId) (n : Nat) :
    n ≤ firstUnused candidate inUse n ∧ candidate (firstUnused candidate inUse n) ∉ inUse := by
  fun_induction firstUnused candidate inUse n with
  | case1 inUse n htaken ih =>
      obtain ⟨hle, hfree⟩ := ih
      refine ⟨by omega, ?_⟩
      intro hmem
      have hne : candidate (firstUnused candidate (inUse.erase (candidate n)) (n + 1)) ≠
          candidate n := by
        intro heq
        have hsame := hdistinct _ _ heq
        omega
      exact hfree ((List.mem_erase_of_ne hne).mpr hmem)
  | case2 inUse n hfree => exact ⟨Nat.le_refl _, hfree⟩

/-- The identifiers drawn so far, and those passed over. -/
def Issued (supply : IdSupply) (id : MediaId) : Prop :=
  ∃ n < supply.drawn, supply.candidate n = id

variable (supply : IdSupply) (inUse : List MediaId)

theorem draw_of_free (hfree : supply.candidate supply.drawn ∉ inUse) :
    supply.draw inUse =
      (supply.candidate supply.drawn, { supply with drawn := supply.drawn + 1 }) := by
  have hfirst : firstUnused supply.candidate inUse supply.drawn = supply.drawn := by
    rw [firstUnused, if_neg hfree]
  simp only [draw, hfirst]

theorem draw_not_mem : (supply.draw inUse).1 ∉ inUse :=
  (firstUnused_spec supply.candidate supply.distinct inUse supply.drawn).2

theorem draw_not_issued : ¬ supply.Issued (supply.draw inUse).1 := by
  rintro ⟨n, hn, heq⟩
  have hle := (firstUnused_spec supply.candidate supply.distinct inUse supply.drawn).1
  have hsame := supply.distinct _ _ heq
  omega

theorem issued_draw : (supply.draw inUse).2.Issued (supply.draw inUse).1 :=
  ⟨_, Nat.lt_succ_self _, rfl⟩

variable {supply}

theorem Issued.draw {id : MediaId} (hid : supply.Issued id) :
    (supply.draw inUse).2.Issued id := by
  obtain ⟨n, hn, rfl⟩ := hid
  have hle := (firstUnused_spec supply.candidate supply.distinct inUse supply.drawn).1
  exact ⟨n, by simp only [IdSupply.draw]; omega, rfl⟩

end IdSupply

namespace Registry

/-- A registry that has drawn some identifiers of a series. -/
def ofSeries (files : List FileRecord) (canonical : List CanonicalRow) (drawn : Nat) : Registry :=
  ⟨{ files, canonical }, { IdSupply.ofSeries "#" with drawn }⟩

/-- Whatever the tables name was issued. -/
structure AllIssued (registry : Registry) : Prop where
  own : ∀ file ∈ registry.catalog.files, registry.supply.Issued file.id
  canonical : ∀ hash id, registry.catalog.canonical? hash = some id → registry.supply.Issued id

theorem fresh_ne_canonical (registry : Registry) (hash : String) :
    registry.catalog.canonical? hash ≠ some registry.fresh.1 := by
  intro hid
  obtain ⟨row, hrow, heq⟩ := Option.map_eq_some_iff.mp hid
  apply registry.supply.draw_not_mem (registry.catalog.canonical.map CanonicalRow.id)
  exact List.mem_map.mpr ⟨row, List.mem_of_find?_eq_some hrow, heq⟩

theorem AllIssued.fresh_ne {registry : Registry} (hissued : registry.AllIssued)
    {file : FileRecord} (hfile : file ∈ registry.catalog.files) :
    file.id ≠ registry.fresh.1 := by
  intro heq
  apply registry.supply.draw_not_issued (registry.catalog.canonical.map CanonicalRow.id)
  exact heq ▸ hissued.own file hfile

end Registry

end MediaCatalog
