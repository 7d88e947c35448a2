import MediaCatalog.Query.Words

/-!
Queries that are put together word by word. A word stays together if its blanks
are quoted or escaped, and it is no bracket if it neither begins nor ends like
one. Printed with blanks between them, such words and single brackets are found
again as they were.
-/

namespace MediaCatalog.Query

open Text

/-- A character by itself or behind a backslash. -/
inductive Letter where
  | bare (c : Char)
  | escaped (c : Char)
deriving DecidableEq

/-- A stretch of a word: a letter, or letters between two quotes of one kind. -/
inductive Stretch where
  | single (letter : Letter)
  | quoted (quote : Char) (inside : List Letter)
deriving DecidableEq

def Letter.chars : Letter → List Char
  | .bare c => [c]
  | .escaped c => ['\\', c]

def Stretch.chars : Stretch → List Char
  | .single letter => letter.chars
  | .quoted quote inside => quote :: (inside.flatMap Letter.chars ++ [quote])

/-- Whether the letter can stand outside of quotes. -/
def Letter.Outside : Letter → Prop
  | .bare c => c ≠ '\\' ∧ isQuote c = false ∧ isBlank c = false
  | .escaped _ => True

/-- Whether the letter can stand between two such quotes. -/
def Letter.Inside (quote : Char) : Letter → Prop
  | .bare c => c ≠ '\\' ∧ c ≠ quote
  | .escaped _ => True

def Stretch.Proper : Stretch → Prop
  | .single letter => letter.Outside
  | .quoted quote inside => isQuote quote = true ∧ ∀ letter ∈ inside, letter.Inside quote

instance (letter : Letter) : Decidable letter.Outside :=
  match letter with
  | .bare c => inferInstanceAs (Decidable (c ≠ '\\' ∧ isQuote c = false ∧ isBlank c = false))
  | .escaped _ => inferInstanceAs (Decidable True)

instance (quote : Char) (letter : Letter) : Decidable (letter.Inside quote) :=
  match letter with
  | .bare c => inferInstanceAs (Decidable (c ≠ '\\' ∧ c ≠ quote))
  | .escaped _ => inferInstanceAs (Decidable True)

instance (stretch : Stretch) : Decidable stretch.Proper :=
  match stretch with
  | .single letter => inferInstanceAs (Decidable letter.Outside)
  | .quoted quote inside =>
      inferInstanceAs (Decidable (isQuote quote = true ∧ ∀ letter ∈ inside, letter.Inside quote))

/-- A word that stays together: its quotes and escapes are closed, its blanks
are within them, and no bracket at its start or end could be taken off. -/
def IsWord (word : String) : Prop :=
  ∃ stretches : List Stretch, stretches ≠ [] ∧ (∀ stretch ∈ stretches, stretch.Proper) ∧
    stretches.head? ≠ some (.single (.bare '(')) ∧
    stretches.getLast? ≠ some (.single (.bare ')')) ∧
    word.toList = stretches.flatMap Stretch.chars

/-- The words with blanks around them, and at least one between any two. -/
inductive Printed : List String → List Char → Prop
  | blanks {text : List Char} : (∀ c ∈ text, isBlank c = true) → Printed [] text
  | word {word : String} {rest : List String} {lead tail : List Char} :
      (∀ c ∈ lead, isBlank c = true) → tail.head?.all isBlank = true → Printed rest tail →
        Printed (word :: rest) (lead ++ word.toList ++ tail)

/-- One blank in front of each word is enough. -/
theorem printed_spaced (list : List String) :
    Printed list (list.flatMap fun word => ' ' :: word.toList) := by
  induction list with
  | nil => exact .blanks nofun
  | cons word rest ih =>
      have hlead : ∀ c ∈ [' '], isBlank c = true := by
        intro c hc
        obtain rfl := List.mem_singleton.mp hc
        decide
      have htail : (rest.flatMap fun word => ' ' :: word.toList).head?.all isBlank = true := by
        cases rest with
        | nil => rfl
        | cons next more => rfl
      exact .word hlead htail ih

section Scanning

variable {room : Nat} {part rest : List Char}

theorem eq_of_isQuote {quote : Char} (hquote : isQuote quote = true) :
    quote = '"' ∨ quote = '\'' := by
  simpa [isQuote] using hquote

theorem role_quote {quote : Char} (hquote : isQuote quote = true) (afterBlank : Bool)
    (next : Option Char) : Scan.role { afterBlank } quote next = .ordinary := by
  rcases eq_of_isQuote hquote with rfl | rfl
  · rfl
  · rfl

theorem next_quote {quote : Char} (hquote : isQuote quote = true) (afterBlank : Bool) :
    Scan.next { afterBlank } quote = ⟨false, some quote, false⟩ ∧
      Scan.next ⟨false, some quote, afterBlank⟩ quote = { afterBlank := false } := by
  rcases eq_of_isQuote hquote with rfl | rfl
  · exact ⟨rfl, rfl⟩
  · exact ⟨rfl, rfl⟩

/-- A blank outside of quotes separates. -/
theorem scan_blank {c : Char} (hblank : isBlank c = true) (afterBlank : Bool)
    (next : Option Char) :
    Scan.role { afterBlank } c next = .separator ∧ Scan.next { afterBlank } c = {} := by
  have hopening : c ≠ '(' := by
    rintro rfl
    cases hblank
  have hclosing : c ≠ ')' := by
    rintro rfl
    cases hblank
  have hescape : c ≠ '\\' := by
    rintro rfl
    cases hblank
  have hquote : isQuote c = false := by
    cases hquote : isQuote c with
    | false => rfl
    | true => rcases eq_of_isQuote hquote with rfl | rfl <;> cases hblank
  constructor
  · simp [Scan.role, hopening, hclosing, hblank]
  · simp [Scan.next, hescape, hquote, hblank]

/-- An escape is part of the word, in quotes or not. -/
theorem wordsFrom_escaped (quote : Option Char) (afterBlank : Bool) (c : Char) :
    wordsFrom (room + 1) ⟨false, quote, afterBlank⟩ part ('\\' :: c :: rest) =
      wordsFrom (room + 1) ⟨false, quote, false⟩ (c :: '\\' :: part) rest := by
  have hrole : Scan.role ⟨false, quote, afterBlank⟩ '\\' (some c) = .ordinary := by
    cases quote with
    | none => cases afterBlank <;> rfl
    | some quote => rfl
  have hnext : Scan.next ⟨false, quote, afterBlank⟩ '\\' = ⟨true, quote, false⟩ := rfl
  rw [wordsFrom, List.head?_cons, hrole, hnext]
  rfl

theorem wordsFrom_inside (room : Nat) {quote : Char} {inside : List Letter}
    (hinside : ∀ letter ∈ inside, letter.Inside quote) (afterBlank : Bool)
    (part rest : List Char) : ∃ afterBlank',
      wordsFrom (room + 1) ⟨false, some quote, afterBlank⟩ part
        (inside.flatMap Letter.chars ++ rest) =
      wordsFrom (room + 1) ⟨false, some quote, afterBlank'⟩
        ((inside.flatMap Letter.chars).reverse ++ part) rest := by
  induction inside generalizing afterBlank part with
  | nil => exact ⟨afterBlank, rfl⟩
  | cons letter inside ih =>
      have hrest : ∀ letter ∈ inside, letter.Inside quote :=
        fun letter hmem => hinside letter (List.mem_cons_of_mem _ hmem)
      cases letter with
      | escaped c =>
          obtain ⟨afterBlank', hread⟩ := ih hrest false (c :: '\\' :: part)
          refine ⟨afterBlank', ?_⟩
          simp only [List.flatMap_cons, Letter.chars, List.cons_append, List.nil_append,
            wordsFrom_escaped, hread, List.reverse_cons, List.append_assoc]
      | bare c =>
          obtain ⟨hescape, hquote⟩ : c ≠ '\\' ∧ c ≠ quote := hinside _ List.mem_cons_self
          obtain ⟨afterBlank', hread⟩ := ih hrest (isBlank c) (c :: part)
          refine ⟨afterBlank', ?_⟩
          have hnext : Scan.next ⟨false, some quote, afterBlank⟩ c =
              ⟨false, some quote, isBlank c⟩ := by
            simp [Scan.next, hescape, Ne.symm hquote]
          have hstep : wordsFrom (room + 1) ⟨false, some quote, afterBlank⟩ part
              (c :: (inside.flatMap Letter.chars ++ rest)) =
              wordsFrom (room + 1) ⟨false, some quote, isBlank c⟩ (c :: part)
                (inside.flatMap Letter.chars ++ rest) := by
            rw [wordsFrom, ← hnext]
            rfl
          simp only [List.flatMap_cons, Letter.chars, List.cons_append, List.nil_append,
            hstep, hread, List.reverse_cons, List.append_assoc]

/-- A stretch is read to its end, unless it is a bracket that stands alone. -/
theorem wordsFrom_stretch {stretch : Stretch} (hproper : stretch.Proper) {afterBlank : Bool}
    (hopening : stretch = .single (.bare '(') → afterBlank = false)
    (hclosing : stretch = .single (.bare ')') → rest.head?.all isBlank = false) :
    wordsFrom (room + 1) { afterBlank } part (stretch.chars ++ rest) =
      wordsFrom (room + 1) { afterBlank := false } (stretch.chars.reverse ++ part) rest := by
  match stretch, hproper with
  | .single (.escaped c), _ => exact wordsFrom_escaped none afterBlank c
  | .single (.bare c), ⟨hescape, hquote, hblank⟩ =>
      have hnotOpening : (c == '(' && afterBlank) = false := by
        rw [Bool.and_eq_false_imp, beq_iff_eq]
        rintro rfl
        exact hopening rfl
      have hnotClosing : (c == ')' && rest.head?.all isBlank) = false := by
        rw [Bool.and_eq_false_imp, beq_iff_eq]
        rintro rfl
        exact hclosing rfl
      have hrole : Scan.role { afterBlank } c rest.head? = .ordinary := by
        simp [Scan.role, hnotOpening, hnotClosing, hblank]
      have hnext : Scan.next { afterBlank } c = { afterBlank := false } := by
        simp [Scan.next, hescape, hquote, hblank]
      simp only [Stretch.chars, Letter.chars, List.cons_append, List.nil_append]
      rw [wordsFrom, hrole, hnext]
      rfl
  | .quoted quote inside, ⟨hquote, hinside⟩ =>
      obtain ⟨hopen, -⟩ := next_quote hquote afterBlank
      obtain ⟨afterBlank', hread⟩ :=
        wordsFrom_inside room hinside false (quote :: part) (quote :: rest)
      obtain ⟨-, hclose⟩ := next_quote hquote afterBlank'
      have hend (part : List Char) :
          wordsFrom (room + 1) ⟨false, some quote, afterBlank'⟩ part (quote :: rest) =
            wordsFrom (room + 1) { afterBlank := false } (quote :: part) rest := by
        rw [wordsFrom, ← hclose]
        rfl
      simp only [Stretch.chars, List.cons_append, List.append_assoc, List.nil_append,
        List.reverse_cons, List.reverse_append, List.reverse_nil]
      rw [wordsFrom, role_quote hquote, hopen, ← hend, ← hread]
      rfl

/-- No stretch begins with a blank. -/
theorem Stretch.Proper.front {stretch : Stretch} (hproper : stretch.Proper) :
    ∃ c others, stretch.chars = c :: others ∧ isBlank c = false := by
  match stretch, hproper with
  | .single (.escaped c), _ => exact ⟨'\\', [c], rfl, by decide⟩
  | .single (.bare c), ⟨_, _, hblank⟩ => exact ⟨c, [], rfl, hblank⟩
  | .quoted quote inside, ⟨hquote, _⟩ =>
      refine ⟨quote, _, rfl, ?_⟩
      rcases eq_of_isQuote hquote with rfl | rfl
      · decide
      · decide

theorem IsWord.front {word : String} (hword : IsWord word) :
    ∃ c others, word.toList = c :: others ∧ isBlank c = false := by
  obtain ⟨stretches, hsome, hproper, -, -, hchars⟩ := hword
  obtain ⟨stretch, others, rfl⟩ := List.exists_cons_of_ne_nil hsome
  obtain ⟨c, chars, hfront, hblank⟩ := (hproper stretch List.mem_cons_self).front
  rw [hchars, List.flatMap_cons, hfront]
  exact ⟨c, _, rfl, hblank⟩

theorem IsWord.ne_bracket {word : String} (hword : IsWord word) : word ≠ "(" ∧ word ≠ ")" := by
  obtain ⟨stretches, hsome, hproper, hfirst, hlast, hchars⟩ := hword
  obtain ⟨stretch, others, rfl⟩ := List.exists_cons_of_ne_nil hsome
  rw [List.flatMap_cons] at hchars
  constructor
  · rintro rfl
    match stretch with
    | .single (.bare c) =>
        obtain rfl : '(' = c := (List.cons.inj hchars).1
        exact hfirst rfl
    | .single (.escaped c) => cases (List.cons.inj hchars).1
    | .quoted quote inside =>
        obtain ⟨hquote, -⟩ := hproper _ List.mem_cons_self
        obtain rfl : '(' = quote := (List.cons.inj hchars).1
        cases hquote
  · rintro rfl
    match stretch with
    | .single (.bare c) =>
        obtain ⟨hc, hothers⟩ := List.cons.inj hchars
        obtain rfl : ')' = c := hc
        cases others with
        | nil => exact hlast rfl
        | cons next more =>
            obtain ⟨c, chars, hfront, -⟩ :=
              (hproper next (List.mem_cons_of_mem _ List.mem_cons_self)).front
            have hchars : next.chars ++ more.flatMap Stretch.chars = [] := hothers.symm
            rw [hfront] at hchars
            cases hchars
    | .single (.escaped c) => cases (List.cons.inj hchars).1
    | .quoted quote inside =>
        obtain ⟨hquote, -⟩ := hproper _ List.mem_cons_self
        obtain rfl : ')' = quote := (List.cons.inj hchars).1
        cases hquote

/-- A character that means nothing but itself. -/
def isPlain (c : Char) : Bool :=
  c != '\\' && !isQuote c && !isBlank c && c != '(' && c != ')'

theorem isWord_of_plain {letters : List Char} (hsome : letters ≠ [])
    (hplain : letters.all isPlain = true) : IsWord (.ofList letters) := by
  have hletter (c : Char) (hc : c ∈ letters) :
      c ≠ '\\' ∧ isQuote c = false ∧ isBlank c = false ∧ c ≠ '(' ∧ c ≠ ')' := by
    simpa [isPlain, and_assoc] using List.all_eq_true.mp hplain c hc
  refine ⟨letters.map fun c => .single (.bare c), by simpa using hsome, ?_, ?_, ?_, ?_⟩
  · intro stretch hmem
    obtain ⟨c, hc, rfl⟩ := List.mem_map.mp hmem
    obtain ⟨hescape, hquote, hblank, -⟩ := hletter c hc
    exact ⟨hescape, hquote, hblank⟩
  · rw [List.head?_map]
    intro hfirst
    obtain ⟨c, hc, heq⟩ := Option.map_eq_some_iff.mp hfirst
    cases heq
    exact (hletter '(' (List.mem_of_head? hc)).2.2.2.1 rfl
  · rw [List.getLast?_map]
    intro hlast
    obtain ⟨c, hc, heq⟩ := Option.map_eq_some_iff.mp hlast
    cases heq
    exact (hletter ')' (List.mem_of_getLast? hc)).2.2.2.2 rfl
  · rw [String.toList_ofList, List.flatMap_map]
    exact (List.flatMap_singleton' letters).symm

/-- A word is read on to its end. -/
theorem wordsFrom_stretches {stretches : List Stretch}
    (hproper : ∀ stretch ∈ stretches, stretch.Proper)
    (hlast : stretches.getLast? ≠ some (.single (.bare ')'))) (part : List Char)
    {afterBlank : Bool}
    (hfirst : stretches.head? = some (.single (.bare '(')) → afterBlank = false)
    (hsome : stretches = [] → afterBlank = false) :
    wordsFrom (room + 1) { afterBlank } part (stretches.flatMap Stretch.chars ++ rest) =
      wordsFrom (room + 1) { afterBlank := false }
        ((stretches.flatMap Stretch.chars).reverse ++ part) rest := by
  induction stretches generalizing part afterBlank with
  | nil => rw [hsome rfl]; rfl
  | cons stretch others ih =>
      have hothers : ∀ stretch ∈ others, stretch.Proper :=
        fun stretch hmem => hproper stretch (List.mem_cons_of_mem _ hmem)
      have hlastOthers : others.getLast? ≠ some (.single (.bare ')')) := by
        cases others with
        | nil => exact nofun
        | cons next more => rwa [List.getLast?_cons_cons] at hlast
      have hclosing : stretch = .single (.bare ')') →
          (others.flatMap Stretch.chars ++ rest).head?.all isBlank = false := by
        rintro rfl
        cases others with
        | nil => exact absurd rfl hlast
        | cons next more =>
            obtain ⟨c, chars, hfront, hblank⟩ := (hothers next List.mem_cons_self).front
            rw [List.flatMap_cons, hfront]
            exact hblank
      have hopening : stretch = .single (.bare '(') → afterBlank = false := by
        rintro rfl
        exact hfirst rfl
      rw [List.flatMap_cons, List.append_assoc,
        wordsFrom_stretch (hproper _ List.mem_cons_self) hopening hclosing,
        ih hothers hlastOthers _ (fun _ => rfl) (fun _ => rfl), List.reverse_append,
        List.append_assoc]

/-- Between two words: what comes next, if anything, is a blank. -/
theorem wordsFrom_gap (hrest : rest.head?.all isBlank = true) (word : List Char)
    (hword : word ≠ []) :
    wordsFrom (room + 1) { afterBlank := false } word.reverse rest =
      .ofList word :: wordsFrom room { afterBlank := false } [] rest := by
  have hcompleted : completed word.reverse = [.ofList word] := by
    simp [completed, hword]
  cases rest with
  | nil => exact hcompleted
  | cons c rest =>
      have hblank : isBlank c = true := hrest
      obtain ⟨hrole, -⟩ := scan_blank hblank false rest.head?
      simp only [wordsFrom, hrole, hcompleted, List.length_singleton, Nat.add_sub_cancel]
      rfl

theorem wordsFrom_word {word : String} (hword : IsWord word)
    (hrest : rest.head?.all isBlank = true) :
    wordsFrom (room + 1) {} [] (word.toList ++ rest) =
      word :: wordsFrom room { afterBlank := false } [] rest := by
  obtain ⟨c, chars, hfront, -⟩ := hword.front
  have hne : word.toList ≠ [] := by
    rw [hfront]
    exact List.cons_ne_nil _ _
  obtain ⟨stretches, hsome, hproper, hfirst, hlast, hchars⟩ := hword
  rw [hchars, wordsFrom_stretches hproper hlast [] (fun h => absurd h hfirst)
    (fun h => absurd h hsome), ← hchars, List.append_nil, wordsFrom_gap hrest _ hne,
    String.ofList_toList]

/-- A single bracket is a word of its own. -/
theorem wordsFrom_bracket {word : String} (hword : word = "(" ∨ word = ")")
    (hrest : rest.head?.all isBlank = true) :
    wordsFrom (room + 1) {} [] (word.toList ++ rest) =
      word :: wordsFrom room { afterBlank := false } [] rest := by
  rcases hword with rfl | rfl
  · rfl
  · have hrole : Scan.role {} ')' rest.head? = .bracket := by simp [Scan.role, hrest]
    change wordsFrom (room + 1) {} [] (')' :: rest) = _
    rw [wordsFrom, hrole]
    rfl

theorem wordsFrom_lead {lead : List Char} (hlead : ∀ c ∈ lead, isBlank c = true)
    {afterBlank : Bool} (hafter : lead = [] → afterBlank = true) :
    wordsFrom (room + 1) { afterBlank } [] (lead ++ rest) = wordsFrom (room + 1) {} [] rest := by
  induction lead generalizing afterBlank with
  | nil => rw [hafter rfl]; rfl
  | cons c lead ih =>
      have hblank := hlead c List.mem_cons_self
      have hlead' : ∀ c ∈ lead, isBlank c = true :=
        fun c hmem => hlead c (List.mem_cons_of_mem _ hmem)
      have hstep : wordsFrom (room + 1) { afterBlank } [] (c :: (lead ++ rest)) =
          wordsFrom (room + 1) {} [] (lead ++ rest) := by
        obtain ⟨hrole, hnext⟩ := scan_blank hblank afterBlank (lead ++ rest).head?
        rw [wordsFrom, hrole, hnext]
        rfl
      rw [List.cons_append, hstep]
      exact ih hlead' fun _ => rfl

theorem wordsFrom_blanks {text : List Char} (htext : ∀ c ∈ text, isBlank c = true)
    (afterBlank : Bool) : wordsFrom room { afterBlank } [] text = [] := by
  induction text generalizing afterBlank with
  | nil => rfl
  | cons c rest ih =>
      obtain ⟨hrole, hnext⟩ := scan_blank (htext c List.mem_cons_self) afterBlank rest.head?
      have hrest : wordsFrom room {} [] rest = [] :=
        ih (fun c hmem => htext c (List.mem_cons_of_mem _ hmem)) true
      rw [wordsFrom, hrole, hnext]
      simp [completed, hrest]

theorem Printed.wordsFrom_eq {list : List String} {text : List Char} (hprinted : Printed list text)
    (hwords : ∀ word ∈ list, IsWord word ∨ word = "(" ∨ word = ")") (hroom : list.length ≤ room)
    {afterBlank : Bool} (hstart : afterBlank = false → text.head?.all isBlank = true) :
    wordsFrom room { afterBlank } [] text = list := by
  induction hprinted generalizing room afterBlank with
  | blanks htext => exact wordsFrom_blanks htext afterBlank
  | @word word rest lead tail hlead htail _ ih =>
      obtain ⟨room, rfl⟩ := Nat.exists_eq_succ_of_ne_zero (Nat.ne_of_gt (Nat.lt_of_lt_of_le
        (Nat.succ_pos _) hroom))
      have hrest : wordsFrom room { afterBlank := false } [] tail = rest := by
        apply ih _ _ (fun _ => htail)
        · intro word hmem
          exact hwords word (List.mem_cons_of_mem _ hmem)
        · exact Nat.le_of_succ_le_succ hroom
      have hfront : ∃ c others, word.toList = c :: others ∧ isBlank c = false := by
        rcases hwords word List.mem_cons_self with hword | rfl | rfl
        · exact hword.front
        · exact ⟨'(', [], rfl, by decide⟩
        · exact ⟨')', [], rfl, by decide⟩
      have hafter : lead = [] → afterBlank = true := by
        rintro rfl
        obtain ⟨c, others, hchars, hblank⟩ := hfront
        rw [List.nil_append, hchars, List.cons_append, List.head?_cons, Option.all_some,
          hblank] at hstart
        cases afterBlank with
        | true => rfl
        | false => exact hstart rfl
      rw [List.append_assoc, wordsFrom_lead hlead hafter]
      rcases hwords word List.mem_cons_self with hword | hbracket
      · rw [wordsFrom_word hword htail, hrest]
      · rw [wordsFrom_bracket hbracket htail, hrest]

end Scanning

/-- The words of a text that was printed from words are these words. -/
theorem Printed.words_eq {list : List String} {query : String}
    (hprinted : Printed list query.toList)
    (hwords : ∀ word ∈ list, IsWord word ∨ word = "(" ∨ word = ")") {maxWords : Nat}
    (hroom : list.length ≤ maxWords) : words query maxWords = list :=
  hprinted.wordsFrom_eq hwords hroom nofun

end MediaCatalog.Query
