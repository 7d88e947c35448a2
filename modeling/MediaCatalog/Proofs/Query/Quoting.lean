import MediaCatalog.Proofs.Query.Bracketing
import MediaCatalog.Proofs.Query.Spelling
import MediaCatalog.Query.Phrase

/-!
How far quoting carries. A query for one tag is a single word, and the word is
read back as the tag, as long as the quotes and backslashes of the tag leave
the quoting alone. Without blanks and brackets the tag stands in the query as
it is, and two quotes of a kind that are not escaped would be taken off. With
them it stands in quotes, which a backslash at its end would leave open and an
escaped quote of the same kind would close.
-/

namespace MediaCatalog.Query

open Text

/-- The characters of a text, each with whether it is escaped: whether the
backslashes right before it are odd in number. -/
def flagged (escaped : Bool) : List Char → List (Char × Bool)
  | [] => []
  | c :: rest => (c, escaped) :: flagged (!escaped && c == '\\') rest

/-- Whether what follows the text is escaped. -/
def endsEscaped (escaped : Bool) : List Char → Bool
  | [] => escaped
  | c :: rest => endsEscaped (!escaped && c == '\\') rest

/-- The quotes and backslashes of the text leave its quoting alone. -/
def Quotable (text : String) : Prop :=
  if needsQuotes text then
    endsEscaped false text.toList = false ∧
      ('"' ∈ text.toList → ('\'', true) ∉ flagged false text.toList)
  else
    ∀ quote, isQuote quote = true → (flagged false text.toList).count (quote, false) ≤ 1

theorem Quotable.single {text : String} (hquotable : Quotable text)
    (hneeds : needsQuotes text = true) (hdouble : '"' ∈ text.toList) :
    ('\'', true) ∉ flagged false text.toList := by
  rw [Quotable, if_pos hneeds] at hquotable
  exact hquotable.2 hdouble

/-- The text with a backslash before each quote of the kind. -/
def shielded (quote : Char) (text : List Char) : List Char :=
  text.flatMap fun c => if c = quote then ['\\', quote] else [c]

section Flags

variable {quote : Char} {escaped : Bool}

theorem flagged_append (escaped : Bool) (text rest : List Char) :
    flagged escaped (text ++ rest) =
      flagged escaped text ++ flagged (endsEscaped escaped text) rest := by
  induction text generalizing escaped with
  | nil => rfl
  | cons c text ih => rw [List.cons_append, flagged, ih, flagged, endsEscaped, List.cons_append]

theorem endsEscaped_concat (escaped : Bool) (text : List Char) (c : Char) :
    endsEscaped escaped (text ++ [c]) = (!endsEscaped escaped text && c == '\\') := by
  induction text generalizing escaped with
  | nil => rfl
  | cons d text ih => exact ih _

/-- A quote closes where it stands unescaped. -/
theorem closesLater_iff (hquote : quote ≠ '\\') (escaped : Bool) (text : List Char) :
    closesLater quote escaped text = true ↔ (quote, false) ∈ flagged escaped text := by
  induction text generalizing escaped with
  | nil => simp [closesLater, flagged]
  | cons c text ih =>
      rw [closesLater, flagged, List.mem_cons]
      cases escaped with
      | true => simp [ih]
      | false =>
          by_cases hescape : c = '\\'
          · have hother : (quote, false) ≠ (c, false) := fun h => hquote (by simp_all)
            rw [or_iff_right hother, ← ih]
            simp [hescape]
          · have hsame : (c == quote) = true ↔ (quote, false) = (c, false) := by
              rw [beq_iff_eq, Prod.mk.injEq, eq_comm]
              simp
            simp [hescape, beq_false_of_ne hescape, ih, ← hsame]

theorem mem_flagged {c : Char} {flag : Bool} {text : List Char}
    (hmem : (c, flag) ∈ flagged escaped text) : c ∈ text := by
  induction text generalizing escaped with
  | nil => cases hmem
  | cons d text ih =>
      rcases List.mem_cons.mp hmem with heq | hrest
      · obtain ⟨rfl, -⟩ := Prod.mk.inj heq
        exact List.mem_cons_self
      · exact List.mem_cons_of_mem _ (ih hrest)

theorem shielded_cons_self (quote : Char) (text : List Char) :
    shielded quote (quote :: text) = '\\' :: quote :: shielded quote text := by
  simp [shielded]

theorem shielded_cons_of_ne {c : Char} (hc : c ≠ quote) (text : List Char) :
    shielded quote (c :: text) = c :: shielded quote text := by
  simp [shielded, hc]

theorem shielded_append (quote : Char) (text rest : List Char) :
    shielded quote (text ++ rest) = shielded quote text ++ shielded quote rest :=
  List.flatMap_append

theorem shielded_of_notMem {text : List Char} (hnone : quote ∉ text) :
    shielded quote text = text := by
  induction text with
  | nil => rfl
  | cons c text ih =>
      obtain ⟨hc, hrest⟩ := not_or.mp (mt List.mem_cons.mpr hnone)
      rw [shielded_cons_of_ne (Ne.symm hc), ih hrest]

/-- A quote that is not escaped has a backslash put before it, and none is
left unescaped. -/
theorem flagged_shielded (hquote : quote ≠ '\\') {text : List Char}
    (hclear : (quote, true) ∉ flagged escaped text) :
    (quote, false) ∉ flagged escaped (shielded quote text) ∧
      endsEscaped escaped (shielded quote text) = endsEscaped escaped text := by
  induction text generalizing escaped with
  | nil => exact ⟨List.not_mem_nil, rfl⟩
  | cons c text ih =>
      obtain ⟨hfirst, hrest⟩ := not_or.mp (mt List.mem_cons.mpr hclear)
      obtain ⟨hflagged, hends⟩ := ih hrest
      by_cases hc : c = quote
      · subst hc
        obtain rfl : escaped = false := by simpa using hfirst
        have hother : (c == '\\') = false := beq_false_of_ne hquote
        rw [shielded_cons_self]
        simp only [flagged, endsEscaped, hother, Bool.and_false] at hflagged hends ⊢
        simp [hquote, hflagged, hends]
      · have hother : (quote, false) ≠ (c, escaped) := fun h => hc (Prod.mk.inj h).1.symm
        rw [shielded_cons_of_ne hc, flagged, endsEscaped, hends, endsEscaped, List.mem_cons]
        exact ⟨not_or.mpr ⟨hother, hflagged⟩, rfl⟩

end Flags

section Reading

variable {quote : Char} {escaped : Bool} {text : List Char}

theorem ne_backslash_of_isQuote (hquote : isQuote quote = true) : quote ≠ '\\' := by
  rintro rfl
  cases hquote

/-- What was kept before only stands in front. -/
theorem unquoteFrom_kept (kept : List Char) (escaped : Bool) (quote : Option Char)
    (text : List Char) :
    unquoteFrom kept escaped quote text = kept.reverse ++ unquoteFrom [] escaped quote text := by
  induction text generalizing kept escaped quote with
  | nil => simp [unquoteFrom]
  | cons c text ih =>
      simp only [unquoteFrom, ih (c :: kept), ih [c], ih kept, List.reverse_cons]
      -- Each branch keeps the character or drops it, on both sides alike.
      split_ifs <;> simp

/-- Outside of quotes a character stands for itself, unless it is a quote that
is closed later. -/
theorem unquoteFrom_outside (kept : List Char) (escaped : Bool) (c : Char) (rest : List Char) :
    unquoteFrom kept escaped none (c :: rest) =
      if !escaped && isQuote c && closesLater c false rest then
        unquoteFrom kept false (some c) rest
      else unquoteFrom (c :: kept) (!escaped && c == '\\') none rest := by
  rw [unquoteFrom]
  cases escaped with
  | true => rfl
  | false =>
      by_cases hback : c = '\\'
      · subst hback
        rfl
      · rw [beq_false_of_ne hback]
        cases hquote : isQuote c <;> simp [hback]

/-- A quote opens where it is closed later, and is left as it is elsewhere. -/
theorem unquoteFrom_quote (hquote : isQuote quote = true) (kept rest : List Char) :
    unquoteFrom kept false none (quote :: rest) =
      if closesLater quote false rest then unquoteFrom kept false (some quote) rest
      else unquoteFrom (quote :: kept) false none rest := by
  rw [unquoteFrom_outside, hquote, beq_false_of_ne (ne_backslash_of_isQuote hquote)]
  rfl

/-- Plain characters stand for themselves. -/
theorem unquoteFrom_plain {lead : List Char} (hlead : lead.all isPlain = true)
    (kept rest : List Char) :
    unquoteFrom kept false none (lead ++ rest) =
      unquoteFrom (lead.reverse ++ kept) false none rest := by
  induction lead generalizing kept with
  | nil => rfl
  | cons c lead ih =>
      obtain ⟨hplain, hrest⟩ := Bool.and_eq_true_iff.mp hlead
      obtain ⟨hback, hquote⟩ : c ≠ '\\' ∧ isQuote c = false := by
        simp only [isPlain, Bool.and_eq_true, bne_iff_ne, Bool.not_eq_true'] at hplain
        exact ⟨hplain.1.1.1.1, hplain.1.1.1.2⟩
      rw [List.cons_append, unquoteFrom_outside, hquote, beq_false_of_ne hback,
        List.reverse_cons, List.append_assoc, List.singleton_append]
      exact ih hrest (c :: kept)

/-- Behind plain characters a word is read as it is by itself. -/
theorem unquote_lead {lead : String} (hlead : lead.toList.all isPlain = true)
    (word : String) : unquote (lead ++ word) = lead ++ unquote word := by
  rw [unquote, String.toList_append, unquoteFrom_plain hlead, unquoteFrom_kept, unquote,
    ← String.toList_inj]
  simp

/-- Inside quotes a shielded text is read back as it was. An escape at its end
looks at what is behind it. -/
theorem unquoteFrom_inside (hquote : isQuote quote = true)
    (hclear : (quote, true) ∉ flagged escaped text) {rest : List Char}
    (hnext : endsEscaped escaped text = true → rest.head? ≠ some quote) (kept : List Char) :
    unquoteFrom kept escaped (some quote) (shielded quote text ++ rest) =
      unquoteFrom (text.reverse ++ kept) (endsEscaped escaped text) (some quote) rest := by
  have hescape := ne_backslash_of_isQuote hquote
  induction text generalizing escaped kept with
  | nil => rfl
  | cons c text ih =>
      obtain ⟨hfirst, hrest⟩ := not_or.mp (mt List.mem_cons.mpr hclear)
      have hread := ih hrest hnext (c :: kept)
      rw [List.reverse_cons, List.append_assoc, List.singleton_append, endsEscaped, ← hread]
      by_cases hc : c = quote
      · subst hc
        obtain rfl : escaped = false := by simpa using hfirst
        rw [shielded_cons_self, beq_false_of_ne hescape]
        simp [unquoteFrom]
      · rw [shielded_cons_of_ne hc, List.cons_append, unquoteFrom]
        cases escaped with
        | true => rfl
        | false =>
            by_cases hback : c = '\\'
            · -- The quote behind an unescaped backslash would be escaped.
              have hbehind : ((shielded quote text ++ rest).head? == some quote) = false := by
                subst hback
                cases text with
                | nil => simpa [shielded] using hnext rfl
                | cons d text =>
                    have hd : d ≠ quote := by
                      rintro rfl
                      exact hrest List.mem_cons_self
                    rw [shielded_cons_of_ne hd]
                    simpa using hd
              subst hback
              simp only [hbehind, Bool.and_false]
              rfl
            · have hsame : quote ≠ c := Ne.symm hc
              rw [beq_false_of_ne hback]
              simp [hback, hsame]

theorem unquoteFrom_shielded (hquote : isQuote quote = true)
    (hclear : (quote, true) ∉ flagged escaped text) (hends : endsEscaped escaped text = false)
    (kept : List Char) :
    unquoteFrom kept escaped (some quote) (shielded quote text ++ [quote]) =
      kept.reverse ++ text := by
  rw [unquoteFrom_inside hquote hclear (by simp [hends]), hends]
  simp [unquoteFrom, ne_backslash_of_isQuote hquote, hquote]

/-- Outside of quotes a text is read back as it was, if no quote of it has a
partner. -/
theorem unquoteFrom_bare
    (hsingle : ∀ quote, isQuote quote = true → (flagged escaped text).count (quote, false) ≤ 1)
    (kept : List Char) : unquoteFrom kept escaped none text = kept.reverse ++ text := by
  induction text generalizing escaped kept with
  | nil => simp [unquoteFrom]
  | cons c text ih =>
      have hrest (quote : Char) (hquote : isQuote quote = true) :
          (flagged (!escaped && c == '\\') text).count (quote, false) ≤ 1 :=
        Nat.le_trans List.count_le_count_cons (hsingle quote hquote)
      have hlast : ¬ (!escaped && isQuote c && closesLater c false text) = true := by
        simp only [Bool.and_eq_true, Bool.not_eq_true', not_and]
        rintro ⟨rfl, hquote⟩ hcloses
        have hback := ne_backslash_of_isQuote hquote
        have hcount := hsingle c hquote
        rw [flagged, List.count_cons_self, beq_false_of_ne hback, Bool.and_false] at hcount
        rw [closesLater_iff hback, ← List.count_pos_iff] at hcloses
        omega
      rw [unquoteFrom_outside, if_neg hlast, ih hrest, List.reverse_cons, List.append_assoc,
        List.singleton_append]

/-- Single quotes serve for a text that has double ones. -/
theorem quoted_of_double {text : String} (hneeds : needsQuotes text = true)
    (hdouble : '"' ∈ text.toList) :
    (quoted text).toList = '\'' :: (shielded '\'' text.toList ++ ['\'']) := by
  simp [quoted, hneeds, hdouble, shielded]

/-- A text that needs quotes stands between two of one kind, of which it has
none that is escaped. -/
theorem quoted_eq_shielded {text : String} (hneeds : needsQuotes text = true)
    (hsingle : '"' ∈ text.toList → ('\'', true) ∉ flagged false text.toList) :
    ∃ quote, isQuote quote = true ∧
      (quoted text).toList = quote :: (shielded quote text.toList ++ [quote]) ∧
        (quote, true) ∉ flagged false text.toList := by
  by_cases hdouble : '"' ∈ text.toList
  · exact ⟨'\'', rfl, quoted_of_double hneeds hdouble, hsingle hdouble⟩
  · refine ⟨'"', rfl, ?_, fun hmem => hdouble (mem_flagged hmem)⟩
    rw [quoted, if_pos hneeds, shielded_of_notMem hdouble]
    simp [hdouble]

theorem unquote_quoted {text : String} (hquotable : Quotable text) :
    unquote (quoted text) = text := by
  rw [Quotable] at hquotable
  split at hquotable
  case isTrue hneeds =>
    obtain ⟨hends, hsingle⟩ := hquotable
    obtain ⟨quote, hquote, hquoted, hclear⟩ := quoted_eq_shielded hneeds hsingle
    obtain ⟨-, hclosed⟩ := flagged_shielded (ne_backslash_of_isQuote hquote) hclear
    have hcloses : closesLater quote false (shielded quote text.toList ++ [quote]) = true := by
      rw [closesLater_iff (ne_backslash_of_isQuote hquote), flagged_append, hclosed, hends]
      exact List.mem_append_right _ List.mem_cons_self
    rw [unquote, hquoted, unquoteFrom_quote hquote, if_pos hcloses,
      unquoteFrom_shielded hquote hclear hends]
    exact String.ofList_toList
  case isFalse hneeds =>
    rw [quoted, if_neg hneeds, unquote, unquoteFrom_bare hquotable]
    exact String.ofList_toList

end Reading

section Scanning

variable {room : Nat} {scan : Scan} {part text : List Char}

/-- Without blanks and brackets nothing ends the word. -/
theorem wordsFrom_unbroken (htext : ∀ c ∈ text, c ≠ '(' ∧ c ≠ ')' ∧ isBlank c = false) :
    wordsFrom (room + 1) scan part text = completed (text.reverse ++ part) := by
  induction text generalizing scan part with
  | nil => rfl
  | cons c text ih =>
      obtain ⟨hopening, hclosing, hblank⟩ := htext c List.mem_cons_self
      have hread : wordsFrom (room + 1) (scan.next c) (c :: part) text =
          completed (text.reverse ++ c :: part) :=
        ih fun d hd => htext d (List.mem_cons_of_mem _ hd)
      have hrole : scan.role c text.head? = .escaped ∨ scan.role c text.head? = .ordinary := by
        simp only [Scan.role]
        split
        · exact .inl rfl
        · simp [hopening, hclosing, hblank]
      rw [List.reverse_cons, List.append_assoc, List.singleton_append, wordsFrom]
      rcases hrole with hrole | hrole <;> rw [hrole] <;> exact hread

theorem wordsFrom_opening {quote : Char} (hquote : isQuote quote = true) :
    wordsFrom (room + 1) { afterBlank := false } part (quote :: text) =
      wordsFrom (room + 1) ⟨false, some quote, false⟩ (quote :: part) text := by
  obtain ⟨hnext, -⟩ := next_quote hquote false
  rw [wordsFrom, role_quote hquote, hnext]
  rfl

/-- Nothing ends the word while a quote is open. -/
theorem wordsFrom_open {quote : Char} {escaped : Bool}
    (hopen : (quote, false) ∉ flagged escaped text) (rest : List Char) (afterBlank : Bool) :
    ∃ afterBlank', wordsFrom (room + 1) ⟨escaped, some quote, afterBlank⟩ part (text ++ rest) =
      wordsFrom (room + 1) ⟨endsEscaped escaped text, some quote, afterBlank'⟩
        (text.reverse ++ part) rest := by
  induction text generalizing escaped afterBlank part with
  | nil => exact ⟨afterBlank, rfl⟩
  | cons c text ih =>
      obtain ⟨hfirst, hrest⟩ := not_or.mp (mt List.mem_cons.mpr hopen)
      rw [List.cons_append, wordsFrom, List.reverse_cons, List.append_assoc,
        List.singleton_append, endsEscaped]
      cases escaped with
      | true => exact ih hrest afterBlank
      | false =>
          have hc : quote ≠ c := fun h => hfirst (by rw [h])
          have hnext : Scan.next ⟨false, some quote, afterBlank⟩ c =
              ⟨c == '\\', some quote, isBlank c⟩ := by
            simp [Scan.next, hc]
          rw [hnext]
          exact ih hrest (isBlank c)

/-- The word goes on to the end of the query, whether the quote at the end
closes or is escaped itself. -/
theorem wordsFrom_closing {quote : Char} {escaped : Bool}
    (hopen : (quote, false) ∉ flagged escaped text) (afterBlank : Bool) :
    wordsFrom (room + 1) ⟨escaped, some quote, afterBlank⟩ part (text ++ [quote]) =
      completed ((text ++ [quote]).reverse ++ part) := by
  obtain ⟨afterBlank', hread⟩ := wordsFrom_open hopen [quote] afterBlank
  rw [hread, List.reverse_append]
  cases endsEscaped escaped text with
  | true | false => rfl

/-- Plain characters are read on to what is behind them. -/
theorem wordsFrom_plain {lead : List Char} (hlead : lead.all isPlain = true)
    (rest part : List Char) {afterBlank : Bool} (hsome : lead = [] → afterBlank = false) :
    wordsFrom (room + 1) { afterBlank } part (lead ++ rest) =
      wordsFrom (room + 1) { afterBlank := false } (lead.reverse ++ part) rest := by
  induction lead generalizing part afterBlank with
  | nil =>
      obtain rfl := hsome rfl
      rfl
  | cons c lead ih =>
      obtain ⟨hplain, hrest⟩ := Bool.and_eq_true_iff.mp hlead
      obtain ⟨hback, hquote, hblank, hopening, hclosing⟩ :
          c ≠ '\\' ∧ isQuote c = false ∧ isBlank c = false ∧ c ≠ '(' ∧ c ≠ ')' := by
        simpa [isPlain, and_assoc] using hplain
      have hrole : Scan.role { afterBlank } c (lead ++ rest).head? = .ordinary := by
        simp [Scan.role, hopening, hclosing, hblank]
      have hnext : Scan.next { afterBlank } c = { afterBlank := false } := by
        simp [Scan.next, hback, hquote, hblank]
      have hread : wordsFrom (room + 1) { afterBlank := false } (c :: part) (lead ++ rest) =
          wordsFrom (room + 1) { afterBlank := false } (lead.reverse ++ c :: part) rest :=
        ih hrest (c :: part) fun _ => rfl
      rw [List.cons_append, wordsFrom, hrole, hnext, List.reverse_cons, List.append_assoc,
        List.singleton_append]
      exact hread

/-- Behind plain characters a quoted text is part of one word, unless a quote
within it closes before its end. -/
theorem words_lead_quoted {lead text : String} (hlead : lead.toList.all isPlain = true)
    (hsome : lead ≠ "")
    (hsingle : needsQuotes text = true → '"' ∈ text.toList →
      ('\'', true) ∉ flagged false text.toList) (room : Nat) :
    words (lead ++ quoted text) (room + 1) = [lead ++ quoted text] := by
  have hsome' : lead.toList ≠ [] := by simpa using hsome
  have hcompleted : completed (lead ++ quoted text).toList.reverse = [lead ++ quoted text] := by
    rw [completed, if_neg (by simp [hsome]), List.reverse_reverse, String.ofList_toList]
  rw [words, ← hcompleted, String.toList_append,
    wordsFrom_plain hlead _ [] fun h => absurd h hsome', List.append_nil]
  by_cases hneeds : needsQuotes text = true
  · obtain ⟨quote, hquote, hquoted, hclear⟩ := quoted_eq_shielded hneeds (hsingle hneeds)
    obtain ⟨hopen, -⟩ := flagged_shielded (ne_backslash_of_isQuote hquote) hclear
    rw [hquoted, wordsFrom_opening hquote, wordsFrom_closing hopen]
    simp
  · have htext : ∀ c ∈ text.toList, c ≠ '(' ∧ c ≠ ')' ∧ isBlank c = false := by
      simpa [needsQuotes, and_assoc] using hneeds
    rw [quoted, if_neg hneeds, wordsFrom_unbroken htext, List.reverse_append]

/-- The query for a tag is one word. -/
theorem words_singleTagSearch {tag : String} (hquotable : Quotable tag) (room : Nat) :
    words (singleTagSearch tag) (room + 1) = [singleTagSearch tag] :=
  words_lead_quoted (by decide) (by decide) hquotable.single room

end Scanning

/-- A word that begins like no operator and no bracket is none. -/
theorem isMatch_of_head? {word : String} {c : Char} (hfirst : word.toList.head? = some c)
    (hc : c ∉ ['A', 'O', '(', ')']) : IsMatch word := by
  have hne {other : String} (hother : other.toList.head?.any (· ∈ ['A', 'O', '(', ')']) = true) :
      word ≠ other := by
    rintro rfl
    rw [hfirst, Option.any_some, decide_eq_true_eq] at hother
    exact hc hother
  refine ⟨?_, hne (by decide), hne (by decide)⟩
  rw [Joiner.ofWord?, if_neg (hne (by decide)), if_neg (hne (by decide))]

/-- A query that is one word asks what the word asks. -/
theorem clauses_of_word {query word : String} (hwords : words query defaultMaxWords = [word])
    (hmatch : IsMatch word) :
    (compile query).clauses = [.test .and (Term.ofWord word).condition] := by
  rw [compile, compileWithin, hwords]
  change nonempty (grouped (tokens [word])) = _
  rw [hmatch.grouped_cons]
  rfl

/-- What follows a lead is the operand of a term of its kind. -/
theorem Term.ofWord_lead {lead : String} {kind : TermKind} (hlead : (lead, kind) ∈ leads)
    (operand : String) : Term.ofWord (lead ++ operand) = ⟨kind, operand⟩ := by
  simp only [leads, List.mem_cons, List.not_mem_nil, or_false, Prod.mk.injEq] at hlead
  rcases hlead with ⟨rfl, rfl⟩ | ⟨rfl, rfl⟩ | ⟨rfl, rfl⟩ | ⟨rfl, rfl⟩ | ⟨rfl, rfl⟩ | ⟨rfl, rfl⟩ |
    ⟨rfl, rfl⟩ | ⟨rfl, rfl⟩ | ⟨rfl, rfl⟩ <;>
  simp [Term.ofWord, leads, afterCaseless, fold]

theorem Term.ofWord_tag (operand : String) :
    Term.ofWord ("t=" ++ operand) = ⟨.tagExact, operand⟩ :=
  Term.ofWord_lead (by decide) operand

/-- The query for a tag asks for the tag, character for character. -/
theorem clauses_singleTagSearch {tag : String} (hquotable : Quotable tag) :
    (compile (singleTagSearch tag)).clauses =
      [.test .and ⟨false, .tagLike (escapeLike tag)⟩] := by
  have hfirst : (singleTagSearch tag).toList.head? = some 't' := by simp [singleTagSearch]
  have hcondition : (Term.ofWord (singleTagSearch tag)).condition =
      ⟨false, .tagLike (escapeLike tag)⟩ := by
    rw [singleTagSearch, Term.ofWord_tag, Term.condition, Term.literal, unquote_quoted hquotable]
  rw [clauses_of_word (words_singleTagSearch hquotable 9) (isMatch_of_head? hfirst (by decide)),
    hcondition]

end MediaCatalog.Query
