import Mathlib.Data.List.Forall2
import Mathlib.Data.List.TakeWhile
import MediaCatalog.Query.Pattern
import MediaCatalog.Text.Like

/-!
What the LIKE comparison decides. The table over the suffixes of a text says of
each of them whether the pieces fit it, piece by piece. The pattern of a text
from a query has one piece for each character: any run for a star, and the
character itself for every other, so that the signs of patterns mean nothing.

A pattern without stars fits the texts that are read like it, but for the case
of letters.
-/

namespace MediaCatalog.Text.Like

/-- Whether pieces fit the whole of a text. -/
inductive Fits : List Piece → List Char → Prop where
  | nil : Fits [] []
  | literal {c t : Char} {pieces : List Piece} {text : List Char} (same : fold c = fold t)
      (rest : Fits pieces text) : Fits (.literal c :: pieces) (t :: text)
  | anyOne {t : Char} {pieces : List Piece} {text : List Char} (rest : Fits pieces text) :
      Fits (.anyOne :: pieces) (t :: text)
  | anyRun (run : List Char) {pieces : List Piece} {text : List Char} (rest : Fits pieces text) :
      Fits (.anyRun :: pieces) (run ++ text)

section Fits

variable {c t : Char} {pieces : List Piece} {text : List Char}

theorem fits_nil : Fits [] text ↔ text = [] := by
  constructor
  · rintro ⟨⟩
    rfl
  · rintro rfl
    exact .nil

theorem fits_literal_cons :
    Fits (.literal c :: pieces) (t :: text) ↔ fold c = fold t ∧ Fits pieces text := by
  constructor
  · rintro (_ | ⟨hsame, hrest⟩)
    exact ⟨hsame, hrest⟩
  · rintro ⟨hsame, hrest⟩
    exact .literal hsame hrest

theorem not_fits_literal_nil : ¬ Fits (.literal c :: pieces) [] := nofun

theorem fits_anyOne_cons : Fits (.anyOne :: pieces) (t :: text) ↔ Fits pieces text := by
  constructor
  · rintro (_ | _ | ⟨hrest⟩)
    exact hrest
  · exact .anyOne

theorem not_fits_anyOne_nil : ¬ Fits (.anyOne :: pieces) [] := nofun

theorem fits_anyRun :
    Fits (.anyRun :: pieces) text ↔ ∃ run rest, text = run ++ rest ∧ Fits pieces rest := by
  constructor
  · rintro (_ | _ | _ | ⟨run, hrest⟩)
    exact ⟨run, _, rfl, hrest⟩
  · rintro ⟨run, rest, rfl, hrest⟩
    exact .anyRun run hrest

/-- A run is empty, or takes the first character and goes on. -/
theorem fits_anyRun_cons :
    Fits (.anyRun :: pieces) (t :: text) ↔
      Fits pieces (t :: text) ∨ Fits (.anyRun :: pieces) text := by
  constructor
  · intro hfits
    obtain ⟨run, rest, htext, hrest⟩ := fits_anyRun.mp hfits
    cases run with
    | nil =>
        left
        rw [htext]
        exact hrest
    | cons first run =>
        right
        obtain ⟨-, rfl⟩ := List.cons.inj htext
        exact .anyRun run hrest
  · rintro (hfits | hfits)
    · exact .anyRun [] hfits
    · obtain ⟨run, rest, rfl, hrest⟩ := fits_anyRun.mp hfits
      exact .anyRun (t :: run) hrest

theorem fits_anyRun_nil : Fits (.anyRun :: pieces) [] ↔ Fits pieces [] := by
  constructor
  · intro hfits
    obtain ⟨run, rest, htext, hrest⟩ := fits_anyRun.mp hfits
    obtain ⟨-, rfl⟩ := List.append_eq_nil_iff.mp htext.symm
    exact hrest
  · intro hfits
    exact .anyRun [] hfits

/-- Pieces in sequence divide the text between them. -/
theorem fits_append {others : List Piece} :
    Fits (pieces ++ others) text ↔
      ∃ front back, text = front ++ back ∧ Fits pieces front ∧ Fits others back := by
  constructor
  · intro hfits
    induction pieces generalizing text with
    | nil => exact ⟨[], text, rfl, .nil, hfits⟩
    | cons piece pieces ih =>
        rcases hfits with _ | ⟨hsame, hrest⟩ | ⟨hrest⟩ | ⟨run, hrest⟩
        case literal =>
          obtain ⟨front, back, rfl, hfront, hback⟩ := ih hrest
          exact ⟨_, back, rfl, .literal hsame hfront, hback⟩
        case anyOne =>
          obtain ⟨front, back, rfl, hfront, hback⟩ := ih hrest
          exact ⟨_, back, rfl, .anyOne hfront, hback⟩
        case anyRun =>
          obtain ⟨front, back, rfl, hfront, hback⟩ := ih hrest
          exact ⟨run ++ front, back, (List.append_assoc _ _ _).symm, .anyRun run hfront, hback⟩
  · rintro ⟨front, back, rfl, hfront, hback⟩
    induction hfront with
    | nil => exact hback
    | literal hsame _ ih => exact .literal hsame ih
    | anyOne _ ih => exact .anyOne ih
    | anyRun run _ ih =>
        rw [List.append_assoc]
        exact .anyRun run ih

end Fits

section Table

variable {pieces : List Piece} {text : List Char} {table : List Bool}

/-- The table tells of each suffix of the text whether the pieces fit it. -/
def Tells (pieces : List Piece) (text : List Char) (table : List Bool) : Prop :=
  List.Forall₂ (fun found suffix => found = true ↔ Fits pieces suffix) table text.tails

theorem tells_cons {t : Char} {found : Bool} :
    Tells pieces (t :: text) (found :: table) ↔
      (found = true ↔ Fits pieces (t :: text)) ∧ Tells pieces text table := by
  simp only [Tells, List.tails, List.forall₂_cons]

theorem tells_nil {found : Bool} : Tells pieces [] [found] ↔ (found = true ↔ Fits pieces []) := by
  simp [Tells]

/-- The first entry is about the whole text. -/
theorem Tells.cases (htells : Tells pieces text table) :
    ∃ found shorter, table = found :: shorter ∧ (found = true ↔ Fits pieces text) := by
  cases text with
  | nil | cons =>
      obtain ⟨found, shorter, hfound, -, htable⟩ := List.forall₂_cons_right_iff.mp htells
      exact ⟨found, shorter, htable, hfound⟩

theorem Tells.widen (htells : Tells pieces text table) (piece : Piece) :
    Tells (piece :: pieces) text (widen text piece table) := by
  induction text generalizing table with
  | nil =>
      obtain ⟨found, shorter, hfound, hend, rfl⟩ := List.forall₂_cons_right_iff.mp htells
      obtain rfl := List.forall₂_nil_right_iff.mp hend
      cases piece with
      | literal c => exact tells_nil.mpr (iff_of_false Bool.false_ne_true not_fits_literal_nil)
      | anyOne => exact tells_nil.mpr (iff_of_false Bool.false_ne_true not_fits_anyOne_nil)
      | anyRun =>
          refine tells_nil.mpr ?_
          rw [fits_anyRun_nil, ← hfound]
          simp
  | cons t text ih =>
      obtain ⟨found, later, rfl, hfound⟩ := htells.cases
      obtain ⟨-, hlater⟩ := tells_cons.mp htells
      have hrest := ih hlater
      -- The table has an entry for the empty suffix, so that another one follows here.
      obtain ⟨next, shorter, rfl, hnext⟩ := hlater.cases
      cases piece with
      | literal c =>
          refine tells_cons.mpr ⟨?_, hrest⟩
          rw [fits_literal_cons, ← hnext]
          simp
      | anyOne =>
          refine tells_cons.mpr ⟨?_, hrest⟩
          rw [fits_anyOne_cons, ← hnext]
      | anyRun =>
          obtain ⟨first, others, hwiden, hfirst⟩ := hrest.cases
          refine tells_cons.mpr ⟨?_, hrest⟩
          change (found || (Like.widen text .anyRun (next :: shorter)).headD false) = true ↔ _
          rw [fits_anyRun_cons, ← hfound, ← hfirst, hwiden]
          simp

theorem tells_suffixMatches (pieces : List Piece) (text : List Char) :
    Tells pieces text (suffixMatches text pieces) := by
  induction pieces with
  | nil =>
      -- Only the empty suffix is left.
      rw [suffixMatches, List.foldr_nil]
      induction text with
      | nil => exact tells_nil.mpr (iff_of_true rfl .nil)
      | cons t text ih =>
          refine tells_cons.mpr ⟨?_, ih⟩
          simp [fits_nil]
  | cons piece pieces ih => exact ih.widen piece

/-- A pattern is accepted when its pieces fit. -/
theorem accepts_iff {pattern : List Char} {pieces : List Piece}
    (hpieces : pieces? pattern = some pieces) : accepts pattern text = true ↔ Fits pieces text := by
  obtain ⟨found, shorter, htable, hfound⟩ := (tells_suffixMatches pieces text).cases
  rw [accepts, hpieces, ← hfound]
  simp [htable]

end Table

section Patterns

open Query

/-- What a character of a query stands for in a pattern. -/
def pieceOf (c : Char) : Piece :=
  if c = '*' then .anyRun else .literal c

theorem piecesFrom_literal {c : Char} (hescape : c ≠ '\\') (hpercent : c ≠ '%')
    (hunderscore : c ≠ '_') (done : List Piece) (pattern : List Char) :
    piecesFrom done (c :: pattern) = piecesFrom (.literal c :: done) pattern := by
  rw [piecesFrom.eq_def]
  split
  all_goals simp_all

theorem piecesFrom_escapeLikeChar (done : List Piece) (c : Char) (pattern : List Char) :
    piecesFrom done (escapeLikeChar c ++ pattern) = piecesFrom (pieceOf c :: done) pattern := by
  unfold escapeLikeChar
  split
  case h_5 hescape hpercent hunderscore hstar =>
    rw [pieceOf, if_neg hstar, List.singleton_append]
    exact piecesFrom_literal hescape hpercent hunderscore done pattern
  all_goals rfl

/-- Each character of a query's text has one piece in its pattern. -/
theorem pieces?_escapeLike (text : List Char) :
    pieces? (text.flatMap escapeLikeChar) = some (text.map pieceOf) := by
  have hcollect (done : List Piece) :
      piecesFrom done (text.flatMap escapeLikeChar) = some (done.reverse ++ text.map pieceOf) := by
    induction text generalizing done with
    | nil => simp [piecesFrom]
    | cons c text ih =>
        rw [List.flatMap_cons, piecesFrom_escapeLikeChar, ih]
        simp
  exact hcollect []

/-- What the comparison reads for a character. -/
def readChar (c : Char) : Char :=
  if c.toNat = 0xFFFE || c.toNat = 0xFFFF then '\uFFFD' else c

/-- Only the replacement character is read for another one. -/
theorem readChar_eq_iff {c d : Char} (hd : d.toNat < 0xFFFD) : readChar c = d ↔ c = d := by
  unfold readChar
  split
  case isFalse => rfl
  case isTrue hread =>
    simp only [Bool.or_eq_true, decide_eq_true_eq] at hread
    apply iff_of_false
    · rintro rfl
      exact absurd hd (by decide)
    · rintro rfl
      omega

theorem reading_eq_map (s : String) :
    reading s = (s.toList.takeWhile (· ≠ '\x00')).map readChar := rfl

theorem readChar_escapeLikeChar (c : Char) :
    (escapeLikeChar c).map readChar = escapeLikeChar (readChar c) := by
  by_cases hsigns : c = '\\' ∨ c = '%' ∨ c = '_' ∨ c = '*'
  · rcases hsigns with rfl | rfl | rfl | rfl <;> rfl
  · have hself {d : Char} (hd : ¬ (d = '\\' ∨ d = '%' ∨ d = '_' ∨ d = '*')) :
        escapeLikeChar d = [d] := by
      unfold escapeLikeChar
      split <;> simp_all
    have hread : ¬ (readChar c = '\\' ∨ readChar c = '%' ∨ readChar c = '_' ∨
        readChar c = '*') := by
      unfold readChar
      split
      · decide
      · exact hsigns
    rw [hself hsigns, hself hread]
    rfl

theorem nul_notMem_escapeLike {text : List Char} (hnul : '\x00' ∉ text) :
    '\x00' ∉ text.flatMap escapeLikeChar := by
  rw [List.mem_flatMap]
  rintro ⟨c, hc, hmem⟩
  unfold escapeLikeChar at hmem
  split at hmem
  case h_5 =>
    obtain rfl := List.mem_singleton.mp hmem
    exact hnul hc
  all_goals exact absurd hmem (by decide)

theorem takeWhile_nul {text : List Char} (hnul : '\x00' ∉ text) :
    text.takeWhile (· ≠ '\x00') = text := by
  rw [List.takeWhile_eq_self_iff]
  intro c hc
  simpa using ne_of_mem_of_not_mem hc hnul

theorem reading_of_nul_notMem {text : String} (hnul : '\x00' ∉ text.toList) :
    reading text = text.toList.map readChar := by
  rw [reading_eq_map, takeWhile_nul hnul]

theorem reading_escapeLike {text : String} (hnul : '\x00' ∉ text.toList) :
    reading (escapeLike text) = (reading text).flatMap escapeLikeChar := by
  rw [reading_eq_map, reading_eq_map, escapeLike, String.toList_ofList,
    takeWhile_nul (nul_notMem_escapeLike hnul), takeWhile_nul hnul, List.map_flatMap,
    List.flatMap_map]
  simp only [readChar_escapeLikeChar]

/-- What a text from a query finds: its characters one by one, letters in
either case, and any run for a star. -/
theorem like_escapeLike {text : String} (hnul : '\x00' ∉ text.toList) (other : String) :
    like (escapeLike text) other = true ↔ Fits ((reading text).map pieceOf) (reading other) := by
  rw [like, reading_escapeLike hnul]
  exact accepts_iff (pieces?_escapeLike _)

/-- Whether the comparison reads two texts alike, but for the case of letters. -/
def ReadAlike (s t : String) : Prop :=
  (reading s).map fold = (reading t).map fold

instance (s t : String) : Decidable (ReadAlike s t) :=
  inferInstanceAs (Decidable ((reading s).map fold = (reading t).map fold))

theorem fits_literals (chars text : List Char) :
    Fits (chars.map .literal) text ↔ chars.map fold = text.map fold := by
  induction chars generalizing text with
  | nil => simp [fits_nil, eq_comm]
  | cons c chars ih =>
      cases text with
      | nil => exact iff_of_false not_fits_literal_nil (List.cons_ne_nil _ _)
      | cons t text =>
          rw [List.map_cons, fits_literal_cons, ih, List.map_cons, List.map_cons, List.cons.injEq]

/-- Without a star a text from a query finds what is read like it. -/
theorem like_escapeLike_literal {text : String} (hnul : '\x00' ∉ text.toList)
    (hstar : '*' ∉ text.toList) (other : String) :
    like (escapeLike text) other = true ↔ ReadAlike text other := by
  have hpieces : (reading text).map pieceOf = (reading text).map .literal := by
    apply List.map_congr_left
    intro c hc
    obtain ⟨d, hd, rfl⟩ := List.mem_map.mp hc
    have hd : d ≠ '*' := ne_of_mem_of_not_mem ((List.takeWhile_sublist _).subset hd) hstar
    apply if_neg
    change readChar d ≠ '*'
    unfold readChar
    split
    · decide
    · exact hd
  rw [like_escapeLike hnul, hpieces, fits_literals]
  rfl

/-- The comparison reads the text to its end, each character as it is. -/
def Legible (s : String) : Prop :=
  ∀ c ∈ s.toList, c ≠ '\x00' ∧ c.toNat ≠ 0xFFFE ∧ c.toNat ≠ 0xFFFF

instance (s : String) : Decidable (Legible s) :=
  List.decidableBAll _ _

theorem Legible.reading_eq {s : String} (hs : Legible s) : reading s = s.toList := by
  rw [reading_eq_map, takeWhile_nul fun hmem => (hs _ hmem).1 rfl]
  conv_rhs => rw [← List.map_id s.toList]
  apply List.map_congr_left
  intro c hc
  obtain ⟨-, hfffe, hffff⟩ := hs c hc
  apply if_neg
  simp [hfffe, hffff]

theorem compareFolded_eq_iff {s t : List Char} (hnul : '\x00' ∉ s) :
    compareFolded s t = .eq ↔ s.map fold = t.map fold := by
  induction s generalizing t with
  | nil =>
      cases t with
      | nil | cons => simp [compareFolded]
  | cons a s ih =>
      obtain ⟨ha, hs⟩ := not_or.mp (mt List.mem_cons.mpr hnul)
      cases t with
      | nil => simp [compareFolded]
      | cons b t =>
          rw [compareFolded, if_neg fun h => ha h.1.symm, Ordering.then_eq_eq, ih hs,
            Nat.compare_eq_eq, Char.toNat_inj, List.map_cons, List.map_cons, List.cons.injEq]

theorem readAlike_iff {s t : String} (hs : Legible s) (ht : Legible t) :
    ReadAlike s t ↔ sameCaseless s t = true := by
  have hnul : '\x00' ∉ s.toList := fun hmem => (hs _ hmem).1 rfl
  rw [ReadAlike, hs.reading_eq, ht.reading_eq, ← compareFolded_eq_iff hnul, sameCaseless,
    compareCaseless, beq_iff_eq]

end Patterns

end MediaCatalog.Text.Like
