import Mathlib.Algebra.Ring.Parity
import Mathlib.Data.List.NodupEquivFin
import MediaCatalog.Proofs.Query.Quoting

/-!
Which tags come back from the query that looks for them. It is known how far
quoting carries; here it is shown that it carries no further, so that a tag is
read back from its query exactly if its quotes and backslashes leave the quoting
alone. What that asks of a tag is said in terms of the backslashes right before
a quote, odd or even in number.

Every other tag comes back as something else, and the first character that
differs tells why: two quotes that were taken off, a quote that was left where
an escape kept it from closing, or a backslash that was put before a quote and
stayed there.
-/

namespace MediaCatalog.Query

open Text

/-- How many backslashes the text ends in. -/
def backslashes (text : List Char) : Nat :=
  (text.reverse.takeWhile (· == '\\')).length

/-- The quote stands at the place, with an even number of backslashes right
before it. -/
def BareAt (quote : Char) (text : List Char) (i : Nat) : Prop :=
  text[i]? = some quote ∧ Even (backslashes (text.take i))

section Parity

variable {quote : Char} {text : List Char}

theorem backslashes_concat (text : List Char) (c : Char) :
    backslashes (text ++ [c]) = if c = '\\' then backslashes text + 1 else 0 := by
  rw [backslashes, List.reverse_concat, List.takeWhile_cons]
  by_cases hback : c = '\\'
  · simp [hback, backslashes]
  · simp [hback]

/-- What follows a text is escaped by an odd number of backslashes. -/
theorem endsEscaped_iff_odd (text : List Char) :
    endsEscaped false text = true ↔ Odd (backslashes text) := by
  induction text using List.reverseRecOn with
  | nil => simp [endsEscaped, backslashes]
  | append_singleton text c ih =>
      rw [endsEscaped_concat, backslashes_concat]
      by_cases hback : c = '\\'
      · simp [hback, Nat.odd_add_one, ← ih]
      · simp [hback]

theorem endsEscaped_eq_false_iff_even (text : List Char) :
    endsEscaped false text = false ↔ Even (backslashes text) := by
  rw [← Bool.not_eq_true, endsEscaped_iff_odd, Nat.not_odd_iff_even]

theorem getElem?_flagged (escaped : Bool) (text : List Char) (i : Nat) :
    (flagged escaped text)[i]? = text[i]?.map fun c => (c, endsEscaped escaped (text.take i)) := by
  induction text generalizing escaped i with
  | nil => rfl
  | cons c text ih =>
      cases i with
      | zero => rfl
      | succ i => exact ih _ i

theorem flagged_at {flag : Bool} {i : Nat} :
    (flagged false text)[i]? = some (quote, flag) ↔
      text[i]? = some quote ∧ endsEscaped false (text.take i) = flag := by
  rw [getElem?_flagged, Option.map_eq_some_iff]
  constructor
  · rintro ⟨c, hc, heq⟩
    obtain ⟨rfl, hflag⟩ := Prod.mk.inj heq
    exact ⟨hc, hflag⟩
  · rintro ⟨hc, hflag⟩
    exact ⟨quote, hc, by rw [hflag]⟩

theorem escaped_mem_flagged_iff :
    (quote, true) ∈ flagged false text ↔
      ∃ i, text[i]? = some quote ∧ Odd (backslashes (text.take i)) := by
  simp only [List.mem_iff_getElem?, flagged_at, endsEscaped_iff_odd]

theorem flagged_bareAt {i : Nat} :
    (flagged false text)[i]? = some (quote, false) ↔ BareAt quote text i := by
  rw [flagged_at, endsEscaped_eq_false_iff_even, BareAt]

/-- A text with an escaped quote is one without, up to the first of them. -/
theorem exists_first_escaped {escaped : Bool} (hmem : (quote, true) ∈ flagged escaped text) :
    ∃ front back, text = front ++ quote :: back ∧ (quote, true) ∉ flagged escaped front ∧
      endsEscaped escaped front = true := by
  induction text generalizing escaped with
  | nil => cases hmem
  | cons c text ih =>
      by_cases hfirst : (quote, true) = (c, escaped)
      · obtain ⟨rfl, rfl⟩ := Prod.mk.inj hfirst
        exact ⟨[], text, rfl, List.not_mem_nil, rfl⟩
      · obtain ⟨front, back, rfl, hclear, hends⟩ := ih (List.mem_of_ne_of_mem hfirst hmem)
        exact ⟨c :: front, back, rfl, not_or.mpr ⟨hfirst, hclear⟩ ∘ List.mem_cons.mp, hends⟩

/-- At most one quote of the kind is not escaped. -/
theorem count_flagged_le_one_iff :
    (flagged false text).count (quote, false) ≤ 1 ↔
      ∀ i j, BareAt quote text i → BareAt quote text j → i = j := by
  have hcount : (flagged false text).count (quote, false) ≤ 1 ↔
      ¬ List.Duplicate (quote, false) (flagged false text) := by
    rw [List.duplicate_iff_sublist, ← Nat.lt_succ_iff, ← Nat.not_le, ← List.replicate_sublist_iff]
    rfl
  rw [hcount, List.duplicate_iff_exists_distinct_get]
  simp only [← flagged_bareAt, List.getElem?_eq_some_iff]
  constructor
  · rintro hnone i j ⟨hi, hfirst⟩ ⟨hj, hsecond⟩
    by_contra hne
    rcases Nat.lt_or_gt_of_ne hne with hlt | hgt
    · exact hnone ⟨⟨i, hi⟩, ⟨j, hj⟩, hlt, hfirst.symm, hsecond.symm⟩
    · exact hnone ⟨⟨j, hj⟩, ⟨i, hi⟩, hgt, hsecond.symm, hfirst.symm⟩
  · rintro hone ⟨i, j, hlt, hfirst, hsecond⟩
    have hsame := hone i j ⟨i.isLt, hfirst.symm⟩ ⟨j.isLt, hsecond.symm⟩
    omega

theorem quotable_iff (text : String) :
    Quotable text ↔
      if text.toList.any fun c => c == '(' || c == ')' || isBlank c then
        ¬ Odd (backslashes text.toList) ∧
          ('"' ∈ text.toList → ∀ i, text.toList[i]? = some '\'' →
            ¬ Odd (backslashes (text.toList.take i)))
      else
        ∀ quote, isQuote quote = true →
          ∀ i j, BareAt quote text.toList i → BareAt quote text.toList j → i = j := by
  simp only [Quotable, needsQuotes, count_flagged_le_one_iff, escaped_mem_flagged_iff,
    not_exists, not_and, ← endsEscaped_iff_odd, Bool.not_eq_true]

end Parity

section Reading

variable {quote : Char} {text : List Char} {escaped : Bool}

theorem length_unquoteFrom_le (kept : List Char) (escaped : Bool) (open? : Option Char)
    (text : List Char) :
    (unquoteFrom kept escaped open? text).length ≤ kept.length + text.length := by
  induction text generalizing kept escaped open? with
  | nil => simp [unquoteFrom]
  | cons c text ih =>
      have hkept (escaped : Bool) (open? : Option Char) :
          (unquoteFrom (c :: kept) escaped open? text).length ≤
            kept.length + (text.length + 1) := by
        have := ih (c :: kept) escaped open?
        rw [List.length_cons] at this
        omega
      have hdropped (escaped : Bool) (open? : Option Char) :
          (unquoteFrom kept escaped open? text).length ≤ kept.length + (text.length + 1) :=
        Nat.le_succ_of_le (ih kept escaped open?)
      simp only [unquoteFrom, List.length_cons]
      split_ifs <;> simp only [hkept, hdropped]

/-- Of two quotes of a kind the first is taken off, if not one before it. -/
theorem length_unquoteFrom_lt (hquote : isQuote quote = true)
    (htwo : 2 ≤ (flagged escaped text).count (quote, false)) (kept : List Char) :
    (unquoteFrom kept escaped none text).length < kept.length + text.length := by
  induction text generalizing escaped kept with
  | nil => simp [flagged] at htwo
  | cons c text ih =>
      rw [unquoteFrom_outside, List.length_cons]
      split
      case isTrue => exact Nat.lt_succ_of_le (length_unquoteFrom_le kept false (some c) text)
      case isFalse hopen =>
        have hrest : 2 ≤ (flagged (!escaped && c == '\\') text).count (quote, false) := by
          by_cases hfirst : (c, escaped) = (quote, false)
          · -- A quote that nothing closes is the last of its kind.
            obtain ⟨rfl, rfl⟩ := Prod.mk.inj hfirst
            have hback := ne_backslash_of_isQuote hquote
            have hlast : (c, false) ∉ flagged false text := by
              rw [← closesLater_iff hback]
              simpa [hquote] using hopen
            rw [flagged, List.count_cons_self, beq_false_of_ne hback, Bool.and_false,
              List.count_eq_zero_of_not_mem hlast] at htwo
            omega
          · rwa [flagged, List.count_cons_of_ne hfirst] at htwo
        have hread := ih hrest (c :: kept)
        rw [List.length_cons] at hread
        omega

/-- Without blanks and brackets a tag is read back only if no quote of it has a
partner. -/
theorem count_le_one_of_unquoteFrom (hquote : isQuote quote = true)
    (hread : unquoteFrom [] escaped none text = text) :
    (flagged escaped text).count (quote, false) ≤ 1 := by
  by_contra htwo
  have hshorter := length_unquoteFrom_lt hquote (Nat.not_le.mp htwo) []
  rw [hread] at hshorter
  simp at hshorter

/-- A quote that nothing closes is left where it stands. -/
theorem unquoteFrom_ne_of_unclosed (hquote : isQuote quote = true)
    (hclear : (quote, true) ∉ flagged false text) (hends : endsEscaped false text = true) :
    unquoteFrom [] false none (quote :: (shielded quote text ++ [quote])) ≠ text := by
  have hescape := ne_backslash_of_isQuote hquote
  obtain ⟨hopen, hshielded⟩ := flagged_shielded hescape hclear
  have hnever : ¬ closesLater quote false (shielded quote text ++ [quote]) = true := by
    rw [closesLater_iff hescape, flagged_append, hshielded, hends, List.mem_append]
    simp [hopen, flagged]
  rw [unquoteFrom_quote hquote, if_neg hnever, unquoteFrom_kept]
  intro hread
  -- The tag would begin with the quote, and then with the escape put before it.
  cases text with
  | nil => cases hread
  | cons c tail =>
      obtain ⟨rfl, htail⟩ := List.cons.inj hread
      rw [shielded_cons_self] at htail
      have hescaped (rest : List Char) : unquoteFrom [] false none ('\\' :: quote :: rest) =
          '\\' :: quote :: unquoteFrom [] false none rest := by
        simp only [unquoteFrom]
        exact unquoteFrom_kept [quote, '\\'] false none rest
      have hfront : '\\' :: quote ::
          unquoteFrom [] false none (shielded quote tail ++ [quote]) = tail :=
        (hescaped _).symm.trans htail
      obtain ⟨others, rfl⟩ : ∃ others, tail = '\\' :: quote :: others := ⟨_, hfront.symm⟩
      simp [flagged, hescape] at hclear

/-- The backslash put before an escaped quote stays, and the quote closes. -/
theorem unquoteFrom_ne_of_escaped (hquote : isQuote quote = true) {front : List Char}
    (hclear : (quote, true) ∉ flagged false front) (hends : endsEscaped false front = true)
    (back more : List Char) :
    unquoteFrom [] false none (quote :: (shielded quote front ++ '\\' :: quote :: more)) ≠
      front ++ quote :: back := by
  have hescape := ne_backslash_of_isQuote hquote
  obtain ⟨-, hshielded⟩ := flagged_shielded hescape hclear
  have hcloses :
      closesLater quote false (shielded quote front ++ '\\' :: quote :: more) = true := by
    rw [closesLater_iff hescape, flagged_append, hshielded, hends]
    simp [flagged]
  have hnext : ('\\' :: quote :: more).head? ≠ some quote :=
    fun h => hescape (Option.some.inj h).symm
  rw [unquoteFrom_quote hquote, if_pos hcloses, unquoteFrom_inside hquote hclear fun _ => hnext,
    hends, unquoteFrom, if_pos rfl, unquoteFrom_kept]
  intro hread
  simp at hread
  exact hescape hread.1.symm

end Reading

/-- A word in progress is the start of the next word. -/
theorem wordsFrom_grows (room : Nat) (scan : Scan) {part : List Char} (hsome : part ≠ [])
    (text : List Char) :
    ∃ more others,
      wordsFrom (room + 1) scan part text = .ofList (part.reverse ++ more) :: others := by
  have hcompleted : completed part = [.ofList (part.reverse ++ [])] := by
    simp [completed, hsome]
  induction text generalizing scan part with
  | nil => exact ⟨[], [], hcompleted⟩
  | cons c text ih =>
      have hkept : ∃ more others, wordsFrom (room + 1) (scan.next c) (c :: part) text =
          .ofList (part.reverse ++ more) :: others := by
        obtain ⟨more, others, hread⟩ :=
          ih (scan.next c) (List.cons_ne_nil c part) (by simp [completed])
        refine ⟨c :: more, others, ?_⟩
        rw [hread, List.reverse_cons, List.append_assoc, List.singleton_append]
      rw [wordsFrom]
      cases scan.role c text.head? with
      | escaped => exact hkept
      | ordinary => exact hkept
      | separator | bracket => exact ⟨[], _, by rw [hcompleted]; rfl⟩

/-- The backslash put before an escaped quote is escaped itself, and the quote
behind it closes. -/
theorem wordsFrom_broken (room : Nat) {front : List Char}
    (hclear : ('\'', true) ∉ flagged false front) (hends : endsEscaped false front = true)
    (part rest : List Char) : ∃ more others,
      wordsFrom (room + 1) ⟨false, some '\'', false⟩ part
        (shielded '\'' front ++ '\\' :: '\'' :: rest) =
      .ofList (part.reverse ++ (shielded '\'' front ++ '\\' :: '\'' :: more)) :: others := by
  obtain ⟨hopen, hshielded⟩ := flagged_shielded (by decide) hclear
  obtain ⟨afterBlank, hread⟩ := wordsFrom_open hopen ('\\' :: '\'' :: rest) false
  obtain ⟨more, others, hgrows⟩ := wordsFrom_grows room ⟨false, none, false⟩
    (List.cons_ne_nil '\'' ('\\' :: ((shielded '\'' front).reverse ++ part))) rest
  rw [hshielded, hends] at hread
  refine ⟨more, others, hread.trans (hgrows.trans ?_)⟩
  simp

section RoundTrip

variable {tag : String}

/-- The query for the tag is a single term, and the term's operand is read as
the tag. -/
def ComesBack (tag : String) : Prop :=
  ∃ term, tokens (words (singleTagSearch tag) defaultMaxWords) = [.term term] ∧
    term.kind = .tagExact ∧ unquote term.operand = tag

/-- A word for a tag is a term, whatever is behind it. -/
theorem tokens_tag (operand : String) (others : List String) :
    tokens (("t=" ++ operand) :: others) =
      .term ⟨.tagExact, operand⟩ :: tokensAfter (some ("t=" ++ operand)) others := by
  have hfirst : ("t=" ++ operand).toList.head? = some 't' := by simp
  rw [tokens, (isMatch_of_head? hfirst (by decide)).tokensAfter_cons, Term.ofWord_tag]

/-- A query that starts with a word for a tag comes back only by this word. -/
theorem ComesBack.unquote_eq (hback : ComesBack tag) {operand : String} {others : List String}
    (hwords : words (singleTagSearch tag) defaultMaxWords = ("t=" ++ operand) :: others) :
    unquote operand = tag := by
  obtain ⟨term, htokens, -, hread⟩ := hback
  rw [hwords, tokens_tag] at htokens
  obtain ⟨hterm, -⟩ := List.cons.inj htokens
  rwa [← Token.term.inj hterm] at hread

/-- The query is one word unless an escaped quote of its kind breaks it up. -/
theorem ComesBack.unquote_quoted (hback : ComesBack tag)
    (hsingle : needsQuotes tag = true → '"' ∈ tag.toList →
      ('\'', true) ∉ flagged false tag.toList) : unquote (quoted tag) = tag := by
  have hwords : words (singleTagSearch tag) defaultMaxWords = ["t=" ++ quoted tag] :=
    words_lead_quoted (by decide) (by decide) hsingle 9
  exact hback.unquote_eq hwords

theorem comesBack_of_quotable (hquotable : Quotable tag) : ComesBack tag := by
  have hwords : words (singleTagSearch tag) defaultMaxWords = ["t=" ++ quoted tag] :=
    words_singleTagSearch hquotable 9
  exact ⟨⟨.tagExact, quoted tag⟩, by rw [hwords, tokens_tag]; rfl, rfl,
    Query.unquote_quoted hquotable⟩

/-- An escaped quote of the kind the tag is put in closes before its end. -/
theorem not_comesBack_of_escaped (hneeds : needsQuotes tag = true) (hdouble : '"' ∈ tag.toList)
    (hescaped : ('\'', true) ∈ flagged false tag.toList) : ¬ ComesBack tag := by
  obtain ⟨front, back, htag, hclear, hends⟩ := exists_first_escaped hescaped
  have hquoted : (singleTagSearch tag).toList =
      "t=".toList ++ '\'' :: (shielded '\'' front ++
        '\\' :: '\'' :: (shielded '\'' back ++ ['\''])) := by
    rw [singleTagSearch, String.toList_append, quoted_of_double hneeds hdouble, htag,
      shielded_append, shielded_cons_self, List.append_assoc]
    rfl
  obtain ⟨more, others, hread⟩ := wordsFrom_broken 9 hclear hends
    ('\'' :: ("t=".toList.reverse ++ [])) (shielded '\'' back ++ ['\''])
  have hwords : words (singleTagSearch tag) defaultMaxWords =
      ("t=" ++ .ofList ('\'' :: (shielded '\'' front ++ '\\' :: '\'' :: more))) :: others := by
    rw [words, hquoted, defaultMaxWords, wordsFrom_plain (by decide) _ _ (by simp),
      wordsFrom_opening rfl, hread, List.cons.injEq, ← String.toList_inj]
    simp
  intro hback
  have hread := hback.unquote_eq hwords
  rw [unquote, String.toList_ofList, ← String.toList_inj, String.toList_ofList, htag] at hread
  exact unquoteFrom_ne_of_escaped rfl hclear hends back more hread

theorem quotable_of_comesBack (hback : ComesBack tag) : Quotable tag := by
  rw [Quotable]
  split
  case isTrue hneeds =>
    have hsingle (hdouble : '"' ∈ tag.toList) : ('\'', true) ∉ flagged false tag.toList :=
      fun hescaped => not_comesBack_of_escaped hneeds hdouble hescaped hback
    refine ⟨?_, hsingle⟩
    have hread := hback.unquote_quoted fun _ => hsingle
    obtain ⟨quote, hquote, hquoted, hclear⟩ := quoted_eq_shielded hneeds hsingle
    rw [unquote, ← String.toList_inj, String.toList_ofList, hquoted] at hread
    by_contra hends
    exact unquoteFrom_ne_of_unclosed hquote hclear (by simpa using hends) hread
  case isFalse hneeds =>
    have hread := hback.unquote_quoted fun h => absurd h hneeds
    rw [quoted, if_neg hneeds, unquote, ← String.toList_inj, String.toList_ofList] at hread
    exact fun quote hquote => count_le_one_of_unquoteFrom hquote hread

/-- A tag with blanks or brackets comes back from its query exactly if no odd
run of backslashes ends it and, where it has a double quote, none stands before
a single quote. Any other tag comes back exactly if of each kind of quote it has
at most one with an even number of backslashes before it. -/
theorem singleTagSearch_roundTrip_iff (tag : String) :
    (∃ term, tokens (words (singleTagSearch tag) 10) = [.term term] ∧
        term.kind = .tagExact ∧ unquote term.operand = tag) ↔
      if tag.toList.any fun c => c == '(' || c == ')' || isBlank c then
        ¬ Odd (backslashes tag.toList) ∧
          ('"' ∈ tag.toList → ∀ i, tag.toList[i]? = some '\'' →
            ¬ Odd (backslashes (tag.toList.take i)))
      else
        ∀ quote, isQuote quote = true →
          ∀ i j, BareAt quote tag.toList i → BareAt quote tag.toList j → i = j := by
  rw [← quotable_iff]
  exact ⟨quotable_of_comesBack, comesBack_of_quotable⟩

end RoundTrip

end MediaCatalog.Query
