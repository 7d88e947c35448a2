import MediaCatalog.Text.Caseless

/-!
Being the same text but for the case of letters is an equivalence. The
comparison looks at the folded characters up to the first NUL and at the number
of bytes behind it, and at nothing else. It orders texts as the lists of these
numbers are ordered, so it is transitive.
-/

namespace MediaCatalog.Text

/-- The folded characters up to the first NUL, and the number of bytes behind it
if there is one. -/
def caselessKey : List Char → List Char × Option Nat
  | [] => ([], none)
  | c :: rest =>
      if c = '\x00' then ([], some (utf8Length rest))
      else (fold c :: (caselessKey rest).1, (caselessKey rest).2)

theorem fold_eq_nul {c : Char} : fold c = '\x00' ↔ c = '\x00' := by
  constructor
  · intro hfold
    rw [fold] at hfold
    delta Char.toLower at hfold
    split at hfold
    case isFalse => exact hfold
    case isTrue hcapital =>
      -- A capital made small is beyond the capitals, and so is no NUL.
      have hsmall := congrArg (fun c => c.val.toNat) hfold
      simp only [ge_iff_le, UInt32.le_iff_toNat_le] at hcapital
      simp [UInt32.toNat_add] at hsmall hcapital
      omega
  · rintro rfl
    rfl

/-- Texts compare as equal exactly when all that the comparison looks at is
equal. -/
theorem compareFolded_eq_iff_key {s t : List Char} :
    compareFolded s t = .eq ↔ caselessKey s = caselessKey t := by
  induction s generalizing t with
  | nil =>
      cases t with
      | nil => simp [compareFolded]
      | cons b t => by_cases hb : b = '\x00' <;> simp [compareFolded, caselessKey, hb]
  | cons a s ih =>
      cases t with
      | nil => by_cases ha : a = '\x00' <;> simp [compareFolded, caselessKey, ha]
      | cons b t =>
          have hfolded : fold a = fold b → (a = '\x00' ↔ b = '\x00') := by
            intro hfold
            rw [← fold_eq_nul, hfold, fold_eq_nul]
          by_cases hboth : a = '\x00' ∧ b = '\x00'
          · simp [compareFolded, caselessKey, hboth]
          · rw [compareFolded, if_neg hboth, Ordering.then_eq_eq, ih, Nat.compare_eq_eq,
              Char.toNat_inj]
            by_cases ha : a = '\x00' <;> by_cases hb : b = '\x00'
            · exact absurd ⟨ha, hb⟩ hboth
            all_goals simp_all [caselessKey, Prod.ext_iff, and_assoc]

theorem sameCaseless_iff_key {s t : String} :
    sameCaseless s t = true ↔ caselessKey s.toList = caselessKey t.toList := by
  rw [sameCaseless, compareCaseless, beq_iff_eq, compareFolded_eq_iff_key]

theorem sameCaseless_refl (s : String) : sameCaseless s s = true :=
  sameCaseless_iff_key.mpr rfl

theorem sameCaseless_symm {s t : String} (hsame : sameCaseless s t = true) :
    sameCaseless t s = true :=
  sameCaseless_iff_key.mpr (sameCaseless_iff_key.mp hsame).symm

theorem sameCaseless_trans {s t u : String} (hst : sameCaseless s t = true)
    (htu : sameCaseless t u = true) : sameCaseless s u = true :=
  sameCaseless_iff_key.mpr ((sameCaseless_iff_key.mp hst).trans (sameCaseless_iff_key.mp htu))

/-- Texts that are the same are the same as the same texts. -/
theorem sameCaseless_congr {s t : String} (hsame : sameCaseless s t = true) (u : String) :
    sameCaseless u s = sameCaseless u t := by
  rw [Bool.eq_iff_iff, sameCaseless_iff_key, sameCaseless_iff_key,
    sameCaseless_iff_key.mp hsame]

/-- The folded code points up to the first NUL, and the NUL and the number of
bytes behind it if there is one. -/
def caselessCodes : List Char → List Nat
  | [] => []
  | c :: rest =>
      if c = '\x00' then [0, utf8Length rest] else (fold c).toNat :: caselessCodes rest

theorem fold_nul : (fold '\x00').toNat = 0 := rfl

theorem toNat_fold_pos {c : Char} (hc : c ≠ '\x00') : 0 < (fold c).toNat := by
  have hfold : fold c ≠ '\x00' := mt fold_eq_nul.mp hc
  exact Nat.pos_of_ne_zero fun hzero => hfold (Char.toNat_inj.mp hzero)

theorem compareFolded_eq_compare (s t : List Char) :
    compareFolded s t = compare (caselessCodes s) (caselessCodes t) := by
  induction s generalizing t with
  | nil =>
      cases t with
      | nil => rfl
      | cons b t => by_cases hb : b = '\x00' <;> simp [compareFolded, caselessCodes, hb]
  | cons a s ih =>
      cases t with
      | nil => by_cases ha : a = '\x00' <;> simp [compareFolded, caselessCodes, ha]
      | cons b t =>
          by_cases hboth : a = '\x00' ∧ b = '\x00'
          · obtain ⟨rfl, rfl⟩ := hboth
            simp [compareFolded, caselessCodes, List.compare_cons_cons]
          · rw [compareFolded, if_neg hboth]
            -- Where one of them is NUL, the first code decides.
            by_cases ha : a = '\x00'
            · have hb : b ≠ '\x00' := fun hb => hboth ⟨ha, hb⟩
              have hless : compare 0 (fold b).toNat = .lt :=
                Nat.compare_eq_lt.mpr (toNat_fold_pos hb)
              subst ha
              simp [caselessCodes, hb, List.compare_cons_cons, fold_nul, hless]
            · by_cases hb : b = '\x00'
              · have hmore : compare (fold a).toNat 0 = .gt :=
                  Nat.compare_eq_gt.mpr (toNat_fold_pos ha)
                subst hb
                simp [caselessCodes, ha, List.compare_cons_cons, fold_nul, hmore]
              · simp only [caselessCodes, ha, hb, if_false, List.compare_cons_cons, ih]

instance : Std.TransCmp compareCaseless where
  eq_swap := by
    intro s t
    simp only [compareCaseless, compareFolded_eq_compare]
    exact Std.OrientedCmp.eq_swap
  isLE_trans := by
    intro s t u hst htu
    simp only [compareCaseless, compareFolded_eq_compare] at hst htu ⊢
    exact Std.TransCmp.isLE_trans hst htu

end MediaCatalog.Text
