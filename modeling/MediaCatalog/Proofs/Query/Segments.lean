import Mathlib.Algebra.BigOperators.Group.List.Basic
import Mathlib.Data.List.SplitBy
import MediaCatalog.Proofs.Query.Quoting

/-!
Where the words of a query are. What a character means in a query is decided by
what is in front of it, and for a closing bracket by what is behind it: a blank
separates, and a bracket stands alone, only where they are neither escaped nor
inside quotes. The words are the longest runs of places without a separator,
and a bracket that stands alone is a run by itself. So every character but the
separators is part of one word, where it was. A greatest number of words has no
part in where they begin and end: it takes the first of them, each as a whole.
-/

namespace MediaCatalog.Query

open Text

/-- The quote that is open behind the text. Only a quote of the same kind closes
it, and an escaped quote does neither. -/
def quoteBehind (escaped : Bool) (quote : Option Char) : List Char → Option Char
  | [] => quote
  | c :: rest =>
      quoteBehind (!escaped && c == '\\')
        (if escaped || !isQuote c then quote
          else if quote = none then some c
          else if quote = some c then none
          else quote)
        rest

section Places

variable (text : List Char) (i : Nat)

/-- Whether the character is neither escaped nor inside quotes. -/
def isExposed : Bool :=
  !endsEscaped false (text.take i) && (quoteBehind false none (text.take i)).isNone

def isSeparator : Bool :=
  text[i]?.any isBlank && isExposed text i

/-- Whether the place is the first or follows a blank that is not escaped. -/
def isFront : Bool :=
  i == 0 || text[i - 1]?.any isBlank && !endsEscaped false (text.take (i - 1))

/-- Whether the character is a bracket that is a word by itself. -/
def isSolo : Bool :=
  isExposed text i &&
    (text[i]? == some '(' && isFront text i || text[i]? == some ')' && text[i + 1]?.all isBlank)

/-- Whether a word goes on from one place to the other. -/
def isJoined (j : Nat) : Bool :=
  i + 1 == j && !isSolo text i && !isSolo text j

/-- The longest runs of places that are left without the separators, with a cut
on both sides of each bracket that stands alone. -/
def runs : List (List Nat) :=
  ((List.range text.length).filter fun i => !isSeparator text i).splitBy (isJoined text)

/-- The text at the places. -/
def textAt (places : List Nat) : String :=
  .ofList (places.filterMap (text[·]?))

end Places

section Scanning

variable {before rest : List Char} {c : Char}

/-- What the scan knows behind a text. -/
def scanBehind (before : List Char) : Scan :=
  ⟨endsEscaped false before, quoteBehind false none before, isFront before before.length⟩

theorem quoteBehind_concat (escaped : Bool) (quote : Option Char) (text : List Char) (c : Char) :
    quoteBehind escaped quote (text ++ [c]) =
      if endsEscaped escaped text || !isQuote c then quoteBehind escaped quote text
      else if quoteBehind escaped quote text = none then some c
      else if quoteBehind escaped quote text = some c then none
      else quoteBehind escaped quote text := by
  induction text generalizing escaped quote with
  | nil => rfl
  | cons d text ih => exact ih _ _

theorem isFront_concat (before : List Char) (c : Char) :
    isFront (before ++ [c]) (before ++ [c]).length =
      (isBlank c && !endsEscaped false before) := by
  simp [isFront]

/-- A backslash is no blank, and so an escape is at no front. -/
theorem isFront_of_endsEscaped (hends : endsEscaped false before = true) :
    isFront before before.length = false := by
  induction before using List.reverseRecOn with
  | nil => cases hends
  | append_singleton before c =>
      rw [endsEscaped_concat, Bool.and_eq_true, beq_iff_eq] at hends
      rw [isFront_concat, hends.2]
      rfl

theorem next_scanBehind (before : List Char) (c : Char) :
    (scanBehind before).next c = scanBehind (before ++ [c]) := by
  rw [scanBehind, scanBehind, endsEscaped_concat, quoteBehind_concat, isFront_concat, Scan.next]
  cases hends : endsEscaped false before with
  | true => simp [isFront_of_endsEscaped hends]
  | false =>
      cases hquote : quoteBehind false none before with
      | none | some quote => cases hc : isQuote c <;> simp

/-- What the scan makes of a character is what the character is where it
stands. -/
theorem role_scanBehind {text : List Char} (htext : text = before ++ c :: rest) :
    (scanBehind before).role c rest.head? =
      if endsEscaped false before then .escaped
      else if isSolo text before.length then .bracket
      else if isSeparator text before.length then .separator
      else .ordinary := by
  have hexposed : isExposed text before.length =
      (!endsEscaped false before && (quoteBehind false none before).isNone) := by
    simp [isExposed, htext]
  have hfront : isFront text before.length = isFront before before.length := by
    induction before using List.reverseRecOn with
    | nil => rfl
    | append_singleton before d => simp [isFront, htext]
  have hsolo : isSolo text before.length = (isExposed text before.length &&
      (c == '(' && isFront before before.length || c == ')' && rest.head?.all isBlank)) := by
    rw [isSolo, hfront]
    cases rest <;> simp [htext]
  have hseparator : isSeparator text before.length =
      (isBlank c && isExposed text before.length) := by
    simp [isSeparator, htext]
  rw [hsolo, hseparator, hexposed, scanBehind, Scan.role]
  cases endsEscaped false before with
  | true => rfl
  | false =>
      cases quoteBehind false none before with
      | none => simp [ite_or]
      | some quote => simp

end Scanning

section Runs

variable {text : List Char} {start count : Nat}

/-- Only a bracket stands alone, and so no separator and no backslash. -/
theorem char_of_isSolo {i : Nat} (hsolo : isSolo text i = true) :
    text[i]? = some '(' ∨ text[i]? = some ')' := by
  simp only [isSolo, Bool.and_eq_true, Bool.or_eq_true, beq_iff_eq] at hsolo
  rcases hsolo.2 with ⟨hopening, -⟩ | ⟨hclosing, -⟩
  · exact .inl hopening
  · exact .inr hclosing

theorem isSeparator_of_isSolo {i : Nat} (hsolo : isSolo text i = true) :
    isSeparator text i = false := by
  rcases char_of_isSolo hsolo with hchar | hchar <;> rw [isSeparator, hchar] <;> rfl

/-- The runs among `count` places from `start` on. -/
def runsFrom (text : List Char) (start count : Nat) : List (List Nat) :=
  ((List.range' start count).filter fun i => !isSeparator text i).splitBy (isJoined text)

theorem runs_eq_runsFrom (text : List Char) : runs text = runsFrom text 0 text.length := by
  rw [runs, runsFrom, List.range_eq_range']

/-- No run goes across a separator or a bracket that stands alone. -/
theorem runsFrom_add {more : Nat}
    (hcut : ∀ i j, i + 1 = j → j = start + count →
      isSeparator text i = true ∨ isSeparator text j = true ∨ isJoined text i j = false) :
    runsFrom text start (count + more) =
      runsFrom text start count ++ runsFrom text (start + count) more := by
  rw [runsFrom, ← List.range'_append_1, List.filter_append, List.splitBy_append]
  · rfl
  · intro i hi j hj
    obtain ⟨hbefore, hi⟩ := List.mem_filter.mp (List.mem_of_getLast? hi)
    obtain ⟨hbehind, hj⟩ := List.mem_filter.mp (List.mem_of_head? hj)
    rw [List.mem_range'_1] at hbefore hbehind
    rw [Bool.not_eq_true'] at hi hj
    by_cases hnext : i + 1 = j
    · simpa [hi, hj] using hcut i j hnext (by omega)
    · simp [isJoined, hnext]

theorem runsFrom_letters (hsome : count ≠ 0)
    (hletters : ∀ i, start ≤ i → i < start + count →
      isSeparator text i = false ∧ isSolo text i = false) :
    runsFrom text start count = [List.range' start count] := by
  have hkept : (List.range' start count).filter (fun i => !isSeparator text i) =
      List.range' start count := by
    rw [List.filter_eq_self]
    intro i hi
    rw [List.mem_range'_1] at hi
    simp [hletters i hi.1 hi.2]
  rw [runsFrom, hkept]
  refine List.splitBy_of_isChain (by simpa using hsome) (List.isChain_iff_getElem.mpr ?_)
  intro i hi
  rw [List.length_range'] at hi
  rw [List.getElem_range', List.getElem_range', Nat.one_mul, Nat.one_mul, isJoined,
    (hletters (start + i) (by omega) (by omega)).2,
    (hletters (start + (i + 1)) (by omega) (by omega)).2]
  simp [Nat.add_assoc]

/-- Such a place has a cut on both sides. -/
theorem runsFrom_cut {more : Nat}
    (hcut : isSeparator text (start + count) = true ∨ isSolo text (start + count) = true) :
    runsFrom text start (count + (more + 1)) =
      runsFrom text start count ++
        (runsFrom text (start + count) 1 ++ runsFrom text (start + count + 1) more) := by
  rw [Nat.add_comm more, runsFrom_add, runsFrom_add]
  · rintro i j rfl hj
    obtain rfl : i = start + count := by omega
    rcases hcut with hseparator | hsolo
    · exact .inl hseparator
    · exact .inr (.inr (by simp [isJoined, hsolo]))
  · rintro i j - rfl
    rcases hcut with hseparator | hsolo
    · exact .inr (.inl hseparator)
    · exact .inr (.inr (by simp [isJoined, hsolo]))

/-- A separator is part of no run. -/
theorem runsFrom_separator (hseparator : isSeparator text (start + count) = true) (more : Nat) :
    runsFrom text start (count + (more + 1)) =
      runsFrom text start count ++ runsFrom text (start + count + 1) more := by
  have hnone : runsFrom text (start + count) 1 = [] := by simp [runsFrom, hseparator]
  rw [runsFrom_cut (.inl hseparator), hnone, List.nil_append]

/-- A bracket that stands alone is a run by itself. -/
theorem runsFrom_solo (hsolo : isSolo text (start + count) = true) (more : Nat) :
    runsFrom text start (count + (more + 1)) =
      runsFrom text start count ++ [start + count] :: runsFrom text (start + count + 1) more := by
  have hone : runsFrom text (start + count) 1 = [[start + count]] := by
    simp [runsFrom, isSeparator_of_isSolo hsolo, List.splitBy, List.splitBy.loop]
  rw [runsFrom_cut (.inr hsolo), hone, List.singleton_append]

theorem textAt_range' (front word rest : List Char) :
    textAt (front ++ word ++ rest) (List.range' front.length word.length) = .ofList word := by
  rw [textAt]
  congr 1
  induction word generalizing front with
  | nil => rfl
  | cons c word ih =>
      have hread := ih (front ++ [c])
      have hchar : (front ++ c :: word ++ rest)[front.length]? = some c := by simp
      rw [List.length_append, List.append_assoc front, List.singleton_append] at hread
      rw [List.length_cons, List.range'_succ, List.filterMap_cons, hchar]
      exact congrArg (c :: ·) hread

end Runs

theorem length_completed_le {part : List Char} {room : Nat} (hroom : room = 0 → part = []) :
    (completed part).length ≤ room := by
  rw [completed]
  split
  · exact Nat.zero_le _
  case isFalse hsome => exact Nat.one_le_iff_ne_zero.mpr fun h => hsome (by simp [hroom h])

section Words

variable {text front part rest : List Char} {c : Char}

/-- The scan has a word in progress: a part without separators and brackets that
stand alone. -/
structure InProgress (text front part rest : List Char) : Prop where
  text_eq : text = front ++ part.reverse ++ rest
  letters : ∀ i, front.length ≤ i → i < front.length + part.length →
    isSeparator text i = false ∧ isSolo text i = false

namespace InProgress

theorem length_behind (front part : List Char) :
    (front ++ part.reverse).length = front.length + part.length := by
  rw [List.length_append, List.length_reverse]

theorem start (text : List Char) : InProgress text [] [] text :=
  ⟨rfl, fun i _ hi => absurd hi (Nat.not_lt_zero i)⟩

theorem next (hprogress : InProgress text front part (c :: rest))
    (hletter : isSeparator text (front.length + part.length) = false ∧
      isSolo text (front.length + part.length) = false) :
    InProgress text front (c :: part) rest where
  text_eq := by simp [hprogress.text_eq]
  letters := by
    intro i hfrom hto
    rcases Nat.lt_or_eq_of_le (Nat.le_of_lt_succ hto) with hlt | rfl
    · exact hprogress.letters i hfrom hlt
    · exact hletter

theorem stop (hprogress : InProgress text front part (c :: rest)) :
    InProgress text (front ++ part.reverse ++ [c]) [] rest where
  text_eq := by simp [hprogress.text_eq]
  letters := fun i hfrom hto => absurd hto (Nat.not_lt.mpr hfrom)

/-- The part is one run of its own, if there is any. -/
theorem completed_eq (hprogress : InProgress text front part rest) :
    (runsFrom text front.length part.length).map (textAt text) = completed part := by
  by_cases hsome : part = []
  · rw [hsome]
    rfl
  · have hread := textAt_range' front part.reverse rest
    rw [List.length_reverse, ← hprogress.text_eq] at hread
    rw [runsFrom_letters (by simpa using hsome) hprogress.letters, List.map_singleton, hread,
      completed, if_neg (by simpa using hsome)]

theorem char_eq (hprogress : InProgress text front part (c :: rest)) :
    text[front.length + part.length]? = some c := by
  simp [hprogress.text_eq]

theorem role_eq (hprogress : InProgress text front part (c :: rest)) :
    (scanBehind (front ++ part.reverse)).role c rest.head? =
      if endsEscaped false (front ++ part.reverse) then .escaped
      else if isSolo text (front.length + part.length) then .bracket
      else if isSeparator text (front.length + part.length) then .separator
      else .ordinary := by
  rw [role_scanBehind hprogress.text_eq, length_behind]

/-- An escaped character is neither. -/
theorem letter_of_endsEscaped (hprogress : InProgress text front part (c :: rest))
    (hends : endsEscaped false (front ++ part.reverse) = true) :
    isSeparator text (front.length + part.length) = false ∧
      isSolo text (front.length + part.length) = false := by
  have hexposed : isExposed text (front.length + part.length) = false := by
    rw [isExposed, hprogress.text_eq, List.take_left' (length_behind front part), hends]
    rfl
  simp [isSeparator, isSolo, hexposed]

theorem role_of_solo (hprogress : InProgress text front part (c :: rest))
    (hsolo : isSolo text (front.length + part.length) = true) :
    (scanBehind (front ++ part.reverse)).role c rest.head? = .bracket := by
  rw [hprogress.role_eq, if_neg, if_pos hsolo]
  intro hends
  rw [(hprogress.letter_of_endsEscaped hends).2] at hsolo
  cases hsolo

theorem role_of_separator (hprogress : InProgress text front part (c :: rest))
    (hseparator : isSeparator text (front.length + part.length) = true) :
    (scanBehind (front ++ part.reverse)).role c rest.head? = .separator := by
  rw [hprogress.role_eq, if_neg, if_neg, if_pos hseparator]
  · intro hsolo
    rw [isSeparator_of_isSolo hsolo] at hseparator
    cases hseparator
  · intro hends
    rw [(hprogress.letter_of_endsEscaped hends).1] at hseparator
    cases hseparator

theorem endsEscaped_of_isSolo (hprogress : InProgress text front part (c :: rest))
    (hsolo : isSolo text (front.length + part.length) = true) :
    endsEscaped false (front ++ part.reverse ++ [c]) = false := by
  have hchar := char_of_isSolo hsolo
  rw [hprogress.char_eq, Option.some_inj, Option.some_inj] at hchar
  rw [endsEscaped_concat]
  rcases hchar with rfl | rfl <;> exact Bool.and_false _

theorem textAt_one (hprogress : InProgress text front part (c :: rest)) :
    textAt text [front.length + part.length] = .singleton c := by
  rw [textAt, List.filterMap_cons, hprogress.char_eq]
  rfl

end InProgress

/-- With a part in progress the scan goes on to the words that the runs from
there on are, as many as there is room for. -/
def Reads (text front part rest : List Char) : Prop :=
  ∀ room, (room = 0 → part = [] ∧ endsEscaped false (front ++ part.reverse) = false) →
    wordsFrom room (scanBehind (front ++ part.reverse)) part rest =
      ((runsFrom text front.length (part.length + rest.length)).map (textAt text)).take room

namespace InProgress

theorem reads_nil (hprogress : InProgress text front part []) : Reads text front part [] := by
  intro room hroom
  rw [wordsFrom, List.length_nil, Nat.add_zero, hprogress.completed_eq,
    List.take_of_length_le (length_completed_le fun h => (hroom h).1)]

/-- A letter joins the part. -/
theorem reads_letter (hprogress : InProgress text front part (c :: rest))
    (hletter : isSeparator text (front.length + part.length) = false ∧
      isSolo text (front.length + part.length) = false)
    (hrest : Reads text front (c :: part) rest) : Reads text front part (c :: rest) := by
  intro room hroom
  have hkept (hsome : room ≠ 0) :
      wordsFrom room (scanBehind (front ++ part.reverse ++ [c])) (c :: part) rest =
        ((runsFrom text front.length (part.length + (rest.length + 1))).map
          (textAt text)).take room := by
    have hread := hrest room fun h => absurd h hsome
    rwa [List.reverse_cons, ← List.append_assoc, List.length_cons, Nat.add_assoc,
      Nat.add_comm 1] at hread
  rw [wordsFrom, hprogress.role_eq, next_scanBehind, List.length_cons]
  by_cases hends : endsEscaped false (front ++ part.reverse) = true
  · rw [if_pos hends]
    refine hkept fun h => ?_
    rw [(hroom h).2] at hends
    cases hends
  · rw [if_neg hends, hletter.1, hletter.2]
    change (if room = 0 then [] else _) = _
    split
    case isTrue h => rw [h, List.take_zero]
    case isFalse h => exact hkept h

/-- Behind a place with a cut the scan goes on with no part. -/
theorem wordsFrom_stopped {room : Nat}
    (hrest : Reads text (front ++ part.reverse ++ [c]) [] rest)
    (hroom : room = 0 → endsEscaped false (front ++ part.reverse ++ [c]) = false) :
    wordsFrom room (scanBehind (front ++ part.reverse ++ [c])) [] rest =
      ((runsFrom text (front.length + part.length + 1) rest.length).map
        (textAt text)).take room := by
  have hread := hrest room fun h => ⟨rfl, by simpa using hroom h⟩
  rwa [List.reverse_nil, List.append_nil, List.length_append, length_behind,
    List.length_singleton, List.length_nil, Nat.zero_add] at hread

theorem reads_separator (hprogress : InProgress text front part (c :: rest))
    (hseparator : isSeparator text (front.length + part.length) = true)
    (hrest : Reads text (front ++ part.reverse ++ [c]) [] rest) :
    Reads text front part (c :: rest) := by
  intro room hroom
  have hcompleted := List.take_of_length_le (length_completed_le fun h => (hroom h).1)
  rw [wordsFrom, hprogress.role_of_separator hseparator, next_scanBehind, List.length_cons,
    runsFrom_separator hseparator, List.map_append, hprogress.completed_eq, List.take_append,
    hcompleted]
  dsimp only
  congr 1
  split
  case isTrue h => rw [h, List.take_zero]
  case isFalse h => exact wordsFrom_stopped hrest fun hzero => absurd hzero h

theorem reads_solo (hprogress : InProgress text front part (c :: rest))
    (hsolo : isSolo text (front.length + part.length) = true)
    (hrest : Reads text (front ++ part.reverse ++ [c]) [] rest) :
    Reads text front part (c :: rest) := by
  intro room hroom
  have hcompleted := List.take_of_length_le (length_completed_le fun h => (hroom h).1)
  rw [wordsFrom, hprogress.role_of_solo hsolo, next_scanBehind, List.length_cons,
    runsFrom_solo hsolo, List.map_append, hprogress.completed_eq, List.take_append, hcompleted,
    List.map_cons, hprogress.textAt_one]
  dsimp only
  congr 1
  generalize room - (completed part).length = left
  cases left with
  | zero => rfl
  | succ left =>
      exact congrArg (_ :: ·)
        (wordsFrom_stopped hrest fun _ => hprogress.endsEscaped_of_isSolo hsolo)

/-- By the role of each character in turn. -/
theorem reads (hprogress : InProgress text front part rest) : Reads text front part rest := by
  induction rest generalizing front part with
  | nil => exact hprogress.reads_nil
  | cons c rest ih =>
      by_cases hsolo : isSolo text (front.length + part.length) = true
      · exact hprogress.reads_solo hsolo (ih hprogress.stop)
      by_cases hseparator : isSeparator text (front.length + part.length) = true
      · exact hprogress.reads_separator hseparator (ih hprogress.stop)
      have hletter : isSeparator text (front.length + part.length) = false ∧
          isSolo text (front.length + part.length) = false :=
        ⟨Bool.eq_false_iff.mpr hseparator, Bool.eq_false_iff.mpr hsolo⟩
      exact hprogress.reads_letter hletter (ih (hprogress.next hletter))

end InProgress

end Words

/-- The words of a query are the texts of its runs, as many as are asked for. -/
theorem words_eq_take (query : String) (maxWords : Nat) :
    words query maxWords = ((runs query.toList).map (textAt query.toList)).take maxWords := by
  rw [words, runs_eq_runsFrom]
  have hread := (InProgress.start query.toList).reads maxWords fun _ => ⟨rfl, rfl⟩
  rwa [List.length_nil, Nat.zero_add] at hread

theorem length_words (query : String) (maxWords : Nat) :
    (words query maxWords).length = min maxWords (runs query.toList).length := by
  rw [words_eq_take, List.length_take, List.length_map]

theorem take_words (query : String) (count maxWords : Nat) :
    (words query maxWords).take count = words query (min count maxWords) := by
  rw [words_eq_take, words_eq_take, List.take_take]

/-- There are no more runs than characters. -/
theorem length_runs_le (text : List Char) : (runs text).length ≤ text.length := by
  have hruns : (runs text).length ≤ (runs text).flatten.length := by
    rw [List.length_flatten, ← List.length_map List.length]
    refine List.length_le_sum_of_one_le _ fun count hcount => ?_
    obtain ⟨run, hrun, rfl⟩ := List.mem_map.mp hcount
    exact List.length_pos_iff.mpr (List.ne_nil_of_mem_splitBy hrun)
  rw [runs, List.flatten_splitBy] at hruns
  calc (runs text).length
    _ ≤ _ := hruns
    _ ≤ (List.range text.length).length := List.length_filter_le _ _
    _ = text.length := List.length_range

/-- What is left of a text is the text of its runs together. -/
theorem flatMap_textAt_runs (text : List Char) :
    ((runs text).map (textAt text)).flatMap String.toList =
      ((List.range text.length).filter fun i => !isSeparator text i).filterMap (text[·]?) := by
  rw [← List.flatten_splitBy (isJoined text) (List.filter _ _), List.filterMap_flatten,
    List.flatMap_map, List.flatMap]
  congr 1
  refine List.map_congr_left fun run _ => ?_
  rw [textAt, String.toList_ofList]

/-- With room for all of them the words of a query are the texts of its runs.
Together they have every character but the separators, in order. -/
theorem words_eq_runs (query : String) {maxWords : Nat} (hroom : query.toList.length ≤ maxWords) :
    words query maxWords = (runs query.toList).map (textAt query.toList) ∧
      (words query maxWords).flatMap String.toList =
        ((List.range query.toList.length).filter fun i =>
          !isSeparator query.toList i).filterMap (query.toList[·]?) := by
  have hwords : words query maxWords = (runs query.toList).map (textAt query.toList) := by
    rw [words_eq_take, List.take_of_length_le]
    rw [List.length_map]
    exact Nat.le_trans (length_runs_le _) hroom
  exact ⟨hwords, by rw [hwords, flatMap_textAt_runs]⟩

/-- Blanks in quotes and behind a backslash separate no words, and the brackets
next to them do not stand alone. -/
theorem words_of_mixed :
    "( a\\ (\"b )\" )".toList.length ≤ 13 ∧
      words "( a\\ (\"b )\" )" 13 =
        (runs "( a\\ (\"b )\" )".toList).map (textAt "( a\\ (\"b )\" )".toList) ∧
      (runs "( a\\ (\"b )\" )".toList).map (textAt "( a\\ (\"b )\" )".toList) =
        ["(", "a\\ (\"b )\"", ")"] :=
  ⟨by decide, (words_eq_runs _ (by decide)).1, by decide⟩

/-- With room for fewer words these are the first of those that there are with
room for more. No word is left out that there is room for, and each is the
whole text of its run: the last one is neither cut short nor joined to what
comes behind it. -/
theorem words_eq_first (query : String) {fewer maxWords : Nat} (hfewer : fewer ≤ maxWords) :
    words query fewer = (words query maxWords).take (min fewer (words query maxWords).length) ∧
      (words query fewer).length = min fewer (runs query.toList).length ∧
      words query fewer <+: (runs query.toList).map (textAt query.toList) := by
  -- both are cut from the runs, which are told by the text alone
  have hfirst : (words query maxWords).take fewer = words query fewer := by
    rw [take_words, Nat.min_eq_left hfewer]
  have hwhole : words query fewer <+: (runs query.toList).map (textAt query.toList) := by
    rw [words_eq_take]
    exact List.take_prefix _ _
  refine ⟨?_, length_words query fewer, hwhole⟩
  rw [← List.take_eq_take_min, hfirst]

/-- The third word ends where a bracket is met that is a word too many, and not
at the blank that is escaped. -/
theorem words_of_three :
    3 ≤ 10 ∧
      (words "a (b\\ c) d" 3 =
          (words "a (b\\ c) d" 10).take (min 3 (words "a (b\\ c) d" 10).length) ∧
        (words "a (b\\ c) d" 3).length = min 3 (runs "a (b\\ c) d".toList).length ∧
        words "a (b\\ c) d" 3 <+:
          (runs "a (b\\ c) d".toList).map (textAt "a (b\\ c) d".toList)) ∧
      words "a (b\\ c) d" 3 = ["a", "(", "b\\ c"] ∧
      words "a (b\\ c) d" 10 = ["a", "(", "b\\ c", ")", "d"] :=
  ⟨by decide, words_eq_first _ (by decide), by decide, by decide⟩

end MediaCatalog.Query
