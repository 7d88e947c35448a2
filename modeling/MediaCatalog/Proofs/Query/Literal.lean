import MediaCatalog.Proofs.Text.Like
import MediaCatalog.Query.Condition

/-!
What the text of a term finds. A text from a query stands for itself, letters
in either case, with any run of characters in the place of each star. No other
character is special, the signs of patterns included.

Terms differ in how much of a text must be stood for: the whole, some part, or
a part that a circumflex in front or a dollar sign at the end ties to that end
of the text. Each pattern bound is the plain pattern of a text with stars where
an end is open, so that one statement about plain patterns serves them all.
-/

namespace MediaCatalog.Query

open Text

/-- The second text is the first with a run of characters for each star. -/
inductive Filled : List Char → List Char → Prop
  | nil : Filled [] []
  | star (run : List Char) {sought filling : List Char} (rest : Filled sought filling) :
      Filled ('*' :: sought) (run ++ filling)
  | other {c : Char} {sought filling : List Char} (hstar : c ≠ '*')
      (rest : Filled sought filling) : Filled (c :: sought) (c :: filling)

/-- A text from a query stands for another, up to the case of letters. -/
def StandsFor (sought text : List Char) : Prop :=
  ∃ filling, Filled sought filling ∧ filling.map fold = text.map fold

/-- It stands for some part of the other. -/
def StandsWithin (sought text : List Char) : Prop :=
  ∃ front part back, text = front ++ part ++ back ∧ StandsFor sought part

def untiedFront (sought : List Char) : List Char :=
  if sought.head? = some '^' then sought.tail else sought

def untiedBack (sought : List Char) : List Char :=
  if sought.getLast? = some '$' then sought.dropLast else sought

/-- The text without one circumflex in front and one dollar sign at the end. -/
def core (sought : List Char) : List Char :=
  untiedBack (untiedFront sought)

/-- Its core stands for a part of the other, with nothing in front where it has
a circumflex, and nothing behind where it has a dollar sign. -/
def StandsTied (sought text : List Char) : Prop :=
  ∃ front part back, text = front ++ part ++ back ∧ StandsFor (core sought) part ∧
    (sought.head? = some '^' → front = []) ∧ (sought.getLast? = some '$' → back = [])

/-- Whether terms of this kind compare a text, and not a number. -/
def TermKind.comparesText : TermKind → Bool
  | .tagCountBelow | .tagCountAbove | .dupesAbove => false
  | _ => true

/-- What terms of a kind look for. -/
def TermKind.Finds (kind : TermKind) (sought text : List Char) : Prop :=
  match kind with
  | .tagExact | .tagNotExact => StandsFor sought text
  | .fileOrTag => StandsWithin sought text
  | .fileContains | .fileNotContains | .tagContains | .tagNotContains => StandsTied sought text
  | .tagCountBelow | .tagCountAbove | .dupesAbove => False

section Plain

variable {sought others text : List Char}

/-- The pieces of the plain pattern fit what the text stands for. -/
theorem standsFor_iff : StandsFor sought text ↔ Like.Fits (sought.map Like.pieceOf) text := by
  constructor
  · rintro ⟨filling, hfilled, hfold⟩
    induction hfilled generalizing text with
    | nil =>
        obtain rfl := List.map_eq_nil_iff.mp hfold.symm
        exact .nil
    | star run _ ih =>
        rw [List.map_append] at hfold
        obtain ⟨front, back, rfl, -, hback⟩ := List.map_eq_append_iff.mp hfold.symm
        exact .anyRun front (ih hback.symm)
    | other hstar _ ih =>
        rw [List.map_cons] at hfold
        obtain ⟨t, back, rfl, hsame, hback⟩ := List.map_eq_cons_iff.mp hfold.symm
        rw [List.map_cons, Like.pieceOf, if_neg hstar]
        exact .literal hsame.symm (ih hback.symm)
  · intro hfits
    induction sought generalizing text with
    | nil =>
        obtain rfl := Like.fits_nil.mp hfits
        exact ⟨[], .nil, rfl⟩
    | cons c sought ih =>
        by_cases hstar : c = '*'
        · subst hstar
          obtain ⟨run, rest, rfl, hrest⟩ := Like.fits_anyRun.mp hfits
          obtain ⟨filling, hfilled, hfold⟩ := ih hrest
          exact ⟨run ++ filling, .star run hfilled, by rw [List.map_append, List.map_append, hfold]⟩
        · rw [List.map_cons, Like.pieceOf, if_neg hstar] at hfits
          cases text with
          | nil => exact absurd hfits Like.not_fits_literal_nil
          | cons t text =>
              obtain ⟨hsame, hrest⟩ := Like.fits_literal_cons.mp hfits
              obtain ⟨filling, hfilled, hfold⟩ := ih hrest
              refine ⟨c :: filling, .other hstar hfilled, ?_⟩
              rw [List.map_cons, List.map_cons, hsame, hfold]

theorem standsFor_nil : StandsFor [] text ↔ text = [] :=
  standsFor_iff.trans Like.fits_nil

theorem standsFor_star : StandsFor ['*'] text :=
  ⟨text, by simpa using Filled.star text .nil, rfl⟩

theorem standsFor_append :
    StandsFor (sought ++ others) text ↔
      ∃ front back, text = front ++ back ∧ StandsFor sought front ∧ StandsFor others back := by
  simp only [standsFor_iff, List.map_append, Like.fits_append]

/-- The comparison decides it for a plain pattern. -/
theorem accepts_escapeLike (sought text : List Char) :
    Like.accepts (sought.flatMap escapeLikeChar) text = true ↔ StandsFor sought text :=
  (Like.accepts_iff (Like.pieces?_escapeLike sought)).trans standsFor_iff.symm

end Plain

/-- A star, unless the end is tied. -/
def openEnd (tied : Prop) [Decidable tied] : List Char :=
  if tied then [] else ['*']

theorem standsFor_openEnd {tied : Prop} [Decidable tied] {text : List Char} :
    StandsFor (openEnd tied) text ↔ (tied → text = []) := by
  unfold openEnd
  split
  case isTrue htied => simp [standsFor_nil, htied]
  case isFalse htied => exact iff_of_true standsFor_star fun h => absurd h htied

/-- The text whose plain pattern is the pattern with open ends. -/
def opened (sought : List Char) : List Char :=
  openEnd (sought.head? = some '^') ++ core sought ++ openEnd (sought.getLast? = some '$')

theorem standsFor_opened {sought text : List Char} :
    StandsFor (opened sought) text ↔ StandsTied sought text := by
  simp only [opened, standsFor_append, standsFor_openEnd, StandsTied]
  constructor
  · rintro ⟨_, back, rfl, ⟨front, part, rfl, hfront, hpart⟩, hback⟩
    exact ⟨front, part, back, rfl, hpart, hfront, hback⟩
  · rintro ⟨front, part, back, rfl, hpart, hfront, hback⟩
    exact ⟨front ++ part, back, rfl, ⟨front, part, rfl, hfront, hpart⟩, hback⟩

theorem standsFor_within {sought text : List Char} :
    StandsFor ('*' :: (sought ++ ['*'])) text ↔ StandsWithin sought text := by
  rw [← List.singleton_append, ← List.append_assoc]
  simp only [standsFor_append, standsFor_star, true_and, and_true, StandsWithin]
  constructor
  · rintro ⟨_, back, rfl, front, part, rfl, hpart⟩
    exact ⟨front, part, back, rfl, hpart⟩
  · rintro ⟨front, part, back, rfl, hpart⟩
    exact ⟨front ++ part, back, rfl, front, part, rfl, hpart⟩

section Ends

variable (sought : List Char)

/-- A circumflex in front of the pattern is one in front of the text. -/
theorem openFront_flatMap :
    openFront (sought.flatMap escapeLikeChar) =
      (openEnd (sought.head? = some '^') ++ untiedFront sought).flatMap escapeLikeChar := by
  cases sought with
  | nil => rfl
  | cons c rest =>
      by_cases hc : c = '^'
      · subst hc
        rfl
      · have hfront : openFront ((c :: rest).flatMap escapeLikeChar) =
            '%' :: (c :: rest).flatMap escapeLikeChar := by
          rw [List.flatMap_cons, openFront.eq_def]
          split
          case h_2 => rfl
          case h_1 hpattern =>
            unfold escapeLikeChar at hpattern
            split at hpattern <;> simp_all
        have htied : ¬ (c :: rest).head? = some '^' := fun h => hc (Option.some.inj h)
        rw [hfront, openEnd, if_neg htied, untiedFront, if_neg htied]
        rfl

/-- The last character of a pattern is a dollar sign only where it stands for
one, since no escaped character is one. -/
theorem getLast?_flatMap :
    (sought.flatMap escapeLikeChar).getLast? = some '$' ↔ sought.getLast? = some '$' := by
  rcases List.eq_nil_or_concat sought with rfl | ⟨before, c, rfl⟩
  · rfl
  · rw [List.concat_eq_append, List.flatMap_append, List.flatMap_singleton, List.getLast?_concat]
    unfold escapeLikeChar
    split <;> simp

theorem openBack_flatMap :
    openBack (sought.flatMap escapeLikeChar) =
      (untiedBack sought ++ openEnd (sought.getLast? = some '$')).flatMap escapeLikeChar := by
  simp only [openBack, getLast?_flatMap, untiedBack, openEnd]
  split
  case isTrue htied =>
    obtain ⟨before, rfl⟩ := List.getLast?_eq_some_iff.mp htied
    simp [List.flatMap_append, escapeLikeChar]
  case isFalse htied =>
    rw [List.flatMap_append]
    rfl

/-- The star of an open front is no dollar sign. -/
theorem getLast?_openEnd_append (tied : Prop) [Decidable tied] :
    (openEnd tied ++ sought).getLast? = some '$' ↔ sought.getLast? = some '$' := by
  unfold openEnd
  rw [List.getLast?_append]
  split
  · simp
  · cases sought.getLast? <;> simp

theorem untiedBack_openEnd_append (tied : Prop) [Decidable tied] :
    untiedBack (openEnd tied ++ sought) = openEnd tied ++ untiedBack sought := by
  simp only [untiedBack, getLast?_openEnd_append]
  split
  case isTrue hlast =>
    apply List.dropLast_append_of_ne_nil
    rintro rfl
    cases hlast
  case isFalse => rfl

/-- The circumflex is no dollar sign either. -/
theorem getLast?_untiedFront :
    (untiedFront sought).getLast? = some '$' ↔ sought.getLast? = some '$' := by
  unfold untiedFront
  split
  case isFalse => rfl
  case isTrue htied =>
    obtain ⟨rest, rfl⟩ := List.head?_eq_some_iff.mp htied
    cases rest with
    | nil => simp
    | cons c rest => rw [List.tail_cons, List.getLast?_cons_cons]

/-- The pattern with open ends is a plain one. -/
theorem openEnds_escapeLike (text : String) :
    openEnds (escapeLike text) = escapeLike (.ofList (opened text.toList)) := by
  rw [openEnds, escapeLike, escapeLike, String.toList_ofList, String.toList_ofList,
    openFront_flatMap, openBack_flatMap, untiedBack_openEnd_append]
  simp only [getLast?_openEnd_append, getLast?_untiedFront, opened, core]

theorem openBoth_escapeLike (text : String) :
    openBoth (escapeLike text) = escapeLike (.ofList ('*' :: (text.toList ++ ['*']))) := by
  rw [← String.toList_inj]
  simp [openBoth, escapeLike, escapeLikeChar]

end Ends

section Reading

variable {sought : List Char}

theorem core_sublist : (core sought).Sublist sought := by
  have hfront : (untiedFront sought).Sublist sought := by
    unfold untiedFront
    split
    · exact sought.tail_sublist
    · exact .refl sought
  refine List.Sublist.trans ?_ hfront
  unfold core untiedBack
  split
  · exact List.dropLast_sublist _
  · exact .refl _

theorem head?_map_readChar {d : Char} (hd : d.toNat < 0xFFFD) :
    (sought.map Like.readChar).head? = some d ↔ sought.head? = some d := by
  simp only [List.head?_map, Option.map_eq_some_iff, Like.readChar_eq_iff hd, exists_eq_right]

theorem getLast?_map_readChar {d : Char} (hd : d.toNat < 0xFFFD) :
    (sought.map Like.readChar).getLast? = some d ↔ sought.getLast? = some d := by
  simp only [List.getLast?_map, Option.map_eq_some_iff, Like.readChar_eq_iff hd, exists_eq_right]

theorem opened_map_readChar :
    opened (sought.map Like.readChar) = (opened sought).map Like.readChar := by
  have hfront := @head?_map_readChar sought '^' (by decide)
  have hback {chars : List Char} := @getLast?_map_readChar chars '$' (by decide)
  have hopenEnd (tied : Prop) [Decidable tied] :
      (openEnd tied).map Like.readChar = openEnd tied := by
    unfold openEnd
    split <;> rfl
  have huntied :
      untiedFront (sought.map Like.readChar) = (untiedFront sought).map Like.readChar := by
    simp only [untiedFront, hfront]
    split
    · exact List.map_tail.symm
    · rfl
  have hcore : core (sought.map Like.readChar) = (core sought).map Like.readChar := by
    simp only [core, untiedBack, huntied, hback]
    split
    · exact List.map_dropLast.symm
    · rfl
  simp only [opened, hfront, hback, hcore, List.map_append, hopenEnd]

end Reading

/-- The text whose plain pattern a term of this kind binds. -/
def TermKind.plain (kind : TermKind) (sought : List Char) : List Char :=
  match kind with
  | .tagExact | .tagNotExact => sought
  | .fileOrTag => '*' :: (sought ++ ['*'])
  | _ => opened sought

section Kinds

variable {kind : TermKind} {sought : List Char}

theorem standsFor_plain (htext : kind.comparesText = true) (text : List Char) :
    StandsFor (kind.plain sought) text ↔ kind.Finds sought text := by
  cases kind with
  | tagExact | tagNotExact => rfl
  | fileOrTag => exact standsFor_within
  | fileContains | fileNotContains | tagContains | tagNotContains => exact standsFor_opened
  | tagCountBelow | tagCountAbove | dupesAbove => cases htext

theorem plain_map_readChar :
    kind.plain (sought.map Like.readChar) = (kind.plain sought).map Like.readChar := by
  unfold TermKind.plain
  split
  · rfl
  · rfl
  · rw [List.map_cons, List.map_append]
    rfl
  · exact opened_map_readChar

theorem nul_notMem_plain (hnul : '\x00' ∉ sought) : '\x00' ∉ kind.plain sought := by
  have hopenEnd (tied : Prop) [Decidable tied] : '\x00' ∉ openEnd tied := by
    unfold openEnd
    split <;> decide
  have hcore : '\x00' ∉ core sought := fun hmem => hnul (core_sublist.subset hmem)
  unfold TermKind.plain
  split
  · exact hnul
  · exact hnul
  · simp [hnul]
  · simp [opened, hopenEnd, hcore]

end Kinds

/-- Where a term compares a text, its plain pattern is bound, once for each
comparison. -/
theorem Term.bounds_eq {term : Term} (htext : term.kind.comparesText = true) :
    let pattern := escapeLike (.ofList (term.kind.plain (unquote term.operand).toList))
    term.condition.bounds =
      if term.kind = .fileOrTag then likeBounds pattern ++ likeBounds pattern
      else likeBounds pattern := by
  intro pattern
  obtain ⟨kind, operand⟩ := term
  cases kind with
  | tagCountBelow | tagCountAbove | dupesAbove => cases htext
  | tagExact | tagNotExact =>
      simp [pattern, Term.condition, Condition.bounds, Test.bounds, TermKind.plain, Term.literal]
  | fileOrTag =>
      simp [pattern, Term.condition, Condition.bounds, Test.bounds, TermKind.plain, Term.literal,
        openBoth_escapeLike]
  | fileContains | fileNotContains | tagContains | tagNotContains =>
      simp [pattern, Term.condition, Condition.bounds, Test.bounds, TermKind.plain, Term.literal,
        openEnds_escapeLike]

/-- A term that compares a text binds one pattern, and the pattern matches what
terms of its kind look for. So does the comparison as it runs, which reads texts
up to a NUL and takes two code points for the replacement character: of what it
reads it finds the same. -/
theorem Term.finds {term : Term} (htext : term.kind.comparesText = true) :
    let sought := unquote term.operand
    ∃ pattern : String,
      (term.condition.bounds =
        if term.kind = .fileOrTag then likeBounds pattern ++ likeBounds pattern
        else likeBounds pattern) ∧
      ∀ text : String,
        (Like.accepts pattern.toList text.toList = true ↔
          term.kind.Finds sought.toList text.toList) ∧
        ('\x00' ∉ sought.toList →
          (Like.like pattern text = true ↔
            term.kind.Finds (Like.reading sought) (Like.reading text))) := by
  intro sought
  refine ⟨_, Term.bounds_eq htext, fun text => ⟨?_, fun hnul => ?_⟩⟩
  · rw [escapeLike, String.toList_ofList, String.toList_ofList, accepts_escapeLike,
      standsFor_plain htext]
  · have hreading : Like.reading (.ofList (term.kind.plain sought.toList)) =
        term.kind.plain (Like.reading sought) := by
      rw [Like.reading_eq_map, Like.reading_eq_map, String.toList_ofList,
        Like.takeWhile_nul (nul_notMem_plain hnul), Like.takeWhile_nul hnul, plain_map_readChar]
    rw [Like.like_escapeLike (by simpa using nul_notMem_plain hnul), hreading, ← standsFor_iff,
      standsFor_plain htext]

/-- The percent sign and the backslash are plain, the star is not, and both ends
are tied. -/
theorem Term.finds_tied :
    let term : Term := ⟨.tagContains, "^50%*\\$"⟩
    term.kind.comparesText = true ∧
      term.condition.bounds = likeBounds "50\\%%\\\\" ∧
      StandsTied "^50%*\\$".toList "50%Off\\".toList ∧
      ¬ StandsTied "^50%*\\$".toList "500Off\\".toList := by
  intro term
  have hbounds : term.condition.bounds = likeBounds "50\\%%\\\\" := by decide
  have hsought : (unquote term.operand).toList = "^50%*\\$".toList := by decide
  obtain ⟨pattern, hpattern, hfinds⟩ := @Term.finds term rfl
  obtain rfl : "50\\%%\\\\" = pattern := by
    have heq : likeBounds "50\\%%\\\\" = likeBounds pattern := hbounds.symm.trans hpattern
    injection heq with hfirst
    injection hfirst
  simp only [hsought] at hfinds
  refine ⟨rfl, hbounds, (hfinds "50%Off\\").1.mp (by decide), fun hstands => ?_⟩
  exact absurd ((hfinds "500Off\\").1.mpr hstands) (by decide)

end MediaCatalog.Query
