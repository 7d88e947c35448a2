import MediaCatalog.Catalog.Basic

/-!
The supply of identifiers: candidates in sequence, no two alike. A fresh one is
always found, since only finitely many are in use.
-/

namespace MediaCatalog

structure IdSupply where
  candidate : Nat → MediaId
  drawn : Nat
  distinct : ∀ m n, candidate m = candidate n → m = n

namespace IdSupply

/-- The number of the first candidate from `n` on that is not in use. A
candidate passed over need not be looked for again. -/
def firstUnused (candidate : Nat → MediaId) (inUse : List MediaId) (n : Nat) : Nat :=
  if candidate n ∈ inUse then
    firstUnused candidate (inUse.erase (candidate n)) (n + 1)
  else
    n
termination_by inUse.length
decreasing_by
  rename_i taken
  rw [List.length_erase_of_mem taken]
  exact Nat.sub_lt (List.length_pos_of_mem taken) (by decide)

def draw (supply : IdSupply) (inUse : List MediaId) : MediaId × IdSupply :=
  let n := firstUnused supply.candidate inUse supply.drawn
  (supply.candidate n, { supply with drawn := n + 1 })

end IdSupply

def MediaId.numbered (series : String) (n : Nat) : MediaId :=
  ⟨series ++ toString n⟩

theorem MediaId.numbered_inj {series : String} {m n : Nat}
    (h : MediaId.numbered series m = MediaId.numbered series n) : m = n := by
  have hText : (toString m).toList = (toString n).toList := by
    have := congrArg String.toList (congrArg MediaId.text h)
    simpa [MediaId.numbered] using this
  have hDigits : Nat.toDigits 10 m = Nat.toDigits 10 n := by
    simpa only [Nat.toString_eq_repr, Nat.toList_repr] using hText
  have := congrArg (fun digits => Nat.ofDigitChars 10 digits 0) hDigits
  simpa using this

/-- The identifiers of a series, one after another. -/
def IdSupply.ofSeries (series : String) : IdSupply where
  candidate := MediaId.numbered series
  drawn := 0
  distinct _ _ := MediaId.numbered_inj

end MediaCatalog
