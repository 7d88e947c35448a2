import MediaCatalog.Proofs.Query.Segments

/-!
Quotes are looked for twice: where a query is split into words, and where they
are taken off a word. Splitting opens a quote wherever one stands; taking off
leaves it alone unless it is closed later. So they agree on a word that ends
outside quotes, and all words but the last do: what is taken off are the quotes
that opened or closed in the query, and the backslashes that kept one from
closing.
-/

namespace MediaCatalog.Query

open Text

/-- The quote opens or closes at the character. -/
def Scan.turns (scan : Scan) (c : Char) : Bool :=
  (scan.next c).quote != scan.quote

/-- The character is a backslash that keeps the quote behind it from closing. -/
def Scan.shields (scan : Scan) (c : Char) (next : Option Char) : Bool :=
  !scan.escaped && c == '\\' && scan.quote.isSome && next == scan.quote

/-- The character is part of the quoting, and not of what is quoted. -/
def Scan.takes (scan : Scan) (c : Char) (next : Option Char) : Bool :=
  scan.turns c || scan.shields c next

/-- The characters that are left without the quoting. -/
def Scan.leaves (scan : Scan) : List Char → List Char
  | [] => []
  | c :: rest =>
      if scan.takes c rest.head? then (scan.next c).leaves rest
      else c :: (scan.next c).leaves rest

/-- What the scan knows in front of a place. -/
def scanTo (text : List Char) (i : Nat) : Scan :=
  (text.take i).foldl Scan.next {}

/-- Whether the character at the place is part of the quoting. -/
def isTaken (text : List Char) (i : Nat) : Bool :=
  text[i]?.any fun c => (scanTo text i).takes c text[i + 1]?

section Stripping

variable {scan : Scan} {c quote : Char} {rest : List Char}

theorem next_of_escaped (hescaped : scan.escaped = true) (c : Char) :
    scan.next c = { scan with escaped := false } := by
  rw [Scan.next, if_pos hescaped]

theorem next_escaped (hescaped : scan.escaped = false) (c : Char) :
    (scan.next c).escaped = (c == '\\') := by
  simp [Scan.next, hescaped]

/-- Only a quote of the same kind closes a quote. -/
theorem next_quote_of_ne (hquote : scan.quote = some quote)
    (hc : scan.escaped = false → c ≠ quote) : (scan.next c).quote = some quote := by
  cases hescaped : scan.escaped with
  | true => rw [next_of_escaped hescaped, hquote]
  | false => simp [Scan.next, hescaped, hquote, Ne.symm (hc hescaped)]

/-- A quote that is open and does not stay so is closed later. -/
theorem closesLater_of_closed (hback : quote ≠ '\\') (hquote : scan.quote = some quote)
    (hclosed : (rest.foldl Scan.next scan).quote = none) :
    closesLater quote scan.escaped rest = true := by
  induction rest generalizing scan with
  | nil =>
      rw [List.foldl_nil, hquote] at hclosed
      cases hclosed
  | cons c rest ih =>
      rw [closesLater]
      have hrest (hc : scan.escaped = false → c ≠ quote) :
          closesLater quote (scan.next c).escaped rest = true :=
        ih (next_quote_of_ne hquote hc) hclosed
      cases hescaped : scan.escaped with
      | true =>
          rw [next_of_escaped hescaped] at hrest
          exact hrest (by simp [hescaped])
      | false =>
          rw [next_escaped hescaped] at hrest
          by_cases hc : c = quote
          · simp [hc, hback]
          · have hlater := hrest fun _ => hc
            by_cases hescape : c = '\\'
            · simpa [hescape] using hlater
            · simpa [hescape, hc, beq_false_of_ne hescape] using hlater

/-- Taking off the quotes goes along with the scan, where it does not meet a quote
that stays open. -/
theorem unquoteFrom_cons
    (hcloses : isQuote c = true → scan.escaped = false → scan.quote = none →
      closesLater c false rest = true) (kept : List Char) :
    unquoteFrom kept scan.escaped scan.quote (c :: rest) =
      unquoteFrom (if scan.takes c rest.head? then kept else c :: kept)
        (scan.next c).escaped (scan.next c).quote rest := by
  obtain ⟨escaped, quote, afterBlank⟩ := scan
  rw [unquoteFrom]
  cases escaped with
  | true => simp [Scan.takes, Scan.turns, Scan.shields, Scan.next]
  | false =>
      by_cases hescape : c = '\\'
      · subst hescape
        cases hshields : quote.isSome && rest.head? == quote <;>
          simp [Scan.takes, Scan.turns, Scan.shields, Scan.next, isQuote, hshields]
      · cases hquote : isQuote c with
        | false =>
            simp [Scan.takes, Scan.turns, Scan.shields, Scan.next, hquote, hescape,
              beq_false_of_ne hescape]
        | true =>
            cases quote with
            | none =>
                have hlater := hcloses hquote rfl rfl
                simp [Scan.takes, Scan.turns, Scan.shields, Scan.next, hquote, hescape, hlater,
                  beq_false_of_ne hescape]
            | some quote =>
                by_cases hsame : quote = c <;>
                  simp [Scan.takes, Scan.turns, Scan.shields, Scan.next, hquote, hescape, hsame,
                    beq_false_of_ne hescape]

/-- Taking off the quotes leaves what the scan leaves, if it ends outside quotes. -/
theorem unquoteFrom_eq (hclosed : (rest.foldl Scan.next scan).quote = none) (kept : List Char) :
    unquoteFrom kept scan.escaped scan.quote rest = kept.reverse ++ scan.leaves rest := by
  induction rest generalizing scan kept with
  | nil => simp [unquoteFrom, Scan.leaves]
  | cons c rest ih =>
      rw [List.foldl_cons] at hclosed
      have hcloses (hquote : isQuote c = true) (hescaped : scan.escaped = false)
          (hnone : scan.quote = none) : closesLater c false rest = true := by
        have hopen : (scan.next c).quote = some c := by
          simp [Scan.next, hescaped, hnone, hquote]
        have hlater := closesLater_of_closed (ne_backslash_of_isQuote hquote) hopen hclosed
        rwa [next_escaped hescaped, beq_false_of_ne (ne_backslash_of_isQuote hquote)] at hlater
      rw [unquoteFrom_cons hcloses, ih hclosed, Scan.leaves]
      split
      case isTrue => rfl
      case isFalse => simp

end Stripping

section Places

variable {text before rest : List Char} {c : Char} {i : Nat}

theorem scanTo_succ (hchar : text[i]? = some c) : scanTo text (i + 1) = (scanTo text i).next c := by
  rw [scanTo, List.take_add_one, hchar, List.foldl_append]
  rfl

/-- What the scan leaves are the characters at the places it does not take. -/
theorem leaves_eq (htext : text = before ++ rest) :
    (scanTo text before.length).leaves rest =
      ((List.range' before.length rest.length).filter fun i => !isTaken text i).filterMap
        (text[·]?) := by
  induction rest generalizing before with
  | nil => rfl
  | cons c rest ih =>
      have hchar : text[before.length]? = some c := by simp [htext]
      have htaken : isTaken text before.length =
          (scanTo text before.length).takes c rest.head? := by
        cases rest <;> simp [isTaken, htext]
      have hsplit : text = (before ++ [c]) ++ rest := by simp [htext]
      have hbehind := ih hsplit
      rw [List.length_append, List.length_singleton, scanTo_succ hchar] at hbehind
      rw [Scan.leaves, List.length_cons, List.range'_succ, List.filter_cons, htaken, hbehind]
      cases (scanTo text before.length).takes c rest.head? with
      | true => rfl
      | false => simp [hchar]

/-- Taking the quotes off a word that ends outside quotes leaves the places that
the scan does not take. -/
theorem unquote_eq {word : String}
    (hclosed : (scanTo word.toList word.toList.length).quote = none) :
    unquote word = textAt word.toList
      ((List.range word.toList.length).filter fun i => !isTaken word.toList i) := by
  rw [scanTo, List.take_length] at hclosed
  have hleft : unquoteFrom [] false none word.toList = Scan.leaves {} word.toList :=
    unquoteFrom_eq hclosed []
  rw [unquote, hleft, textAt, List.range_eq_range']
  exact congrArg String.ofList (leaves_eq (List.nil_append _).symm)

theorem scanTo_eq (text : List Char) (i : Nat) : scanTo text i = scanBehind (text.take i) := by
  have hbehind (before : List Char) : before.foldl Scan.next {} = scanBehind before := by
    induction before using List.reverseRecOn with
    | nil => rfl
    | append_singleton before c ih =>
        rw [List.foldl_append, ih, List.foldl_cons, List.foldl_nil, next_scanBehind]
  exact hbehind _

/-- The scan is neither escaped nor inside quotes in front of an exposed place. -/
theorem isExposed_iff :
    isExposed text i = true ↔
      (scanTo text i).escaped = false ∧ (scanTo text i).quote = none := by
  rw [isExposed, scanTo_eq, scanBehind, Bool.and_eq_true, Bool.not_eq_true',
    Option.isNone_iff_eq_none]

/-- A blank or a bracket leaves the scan outside quotes. -/
theorem isExposed_succ (hexposed : isExposed text i = true) (hchar : text[i]? = some c)
    (hc : isBlank c = true ∨ c = '(' ∨ c = ')') : isExposed text (i + 1) = true := by
  obtain ⟨hescaped, hquote⟩ := isExposed_iff.mp hexposed
  have hback : c ≠ '\\' := by
    rintro rfl
    exact absurd hc (by decide)
  have hother : isQuote c = false := by
    rw [Bool.eq_false_iff]
    intro hisQuote
    rcases eq_of_isQuote hisQuote with rfl | rfl <;> exact absurd hc (by decide)
  rw [isExposed_iff, scanTo_succ hchar]
  simp [Scan.next, hescaped, hquote, hback, hother]

end Places

section Stretches

variable {text front part rest : List Char} {run : List Nat} {start count : Nat} {c : Char}

/-- A run is a stretch of places, and the scan is outside quotes in front of it. -/
structure IsStretch (text : List Char) (run : List Nat) (start count : Nat) : Prop where
  run_eq : run = List.range' start count
  inside : start + count ≤ text.length
  exposed : isExposed text start = true

/-- Runs of which all but the last have the scan outside quotes behind them too. -/
def Stretched (text : List Char) (list : List (List Nat)) : Prop :=
  ∃ ended last, list = ended ++ last ∧ last.length ≤ 1 ∧
    (∀ run ∈ ended, ∃ start count, IsStretch text run start count ∧
      isExposed text (start + count) = true) ∧
    ∀ run ∈ last, ∃ start count, IsStretch text run start count

theorem Stretched.append {list ended : List (List Nat)} (hlist : Stretched text list)
    (hended : ∀ run ∈ ended, ∃ start count, IsStretch text run start count ∧
      isExposed text (start + count) = true) : Stretched text (ended ++ list) := by
  obtain ⟨others, last, rfl, hone, hothers, hlast⟩ := hlist
  refine ⟨ended ++ others, last, (List.append_assoc ..).symm, hone, ?_, hlast⟩
  rw [List.forall_mem_append]
  exact ⟨hended, hothers⟩

theorem Stretched.get {list : List (List Nat)} {k : Nat} (hlist : Stretched text list)
    (hrun : list[k]? = some run) :
    ∃ start count, IsStretch text run start count ∧
      (k + 1 < list.length → isExposed text (start + count) = true) := by
  obtain ⟨ended, last, rfl, hone, hended, hlast⟩ := hlist
  by_cases hk : k < ended.length
  · rw [List.getElem?_append_left hk] at hrun
    obtain ⟨start, count, hstretch, hexposed⟩ := hended run (List.mem_of_getElem? hrun)
    exact ⟨start, count, hstretch, fun _ => hexposed⟩
  · rw [List.getElem?_append_right (Nat.not_lt.mp hk)] at hrun
    obtain ⟨start, count, hstretch⟩ := hlast run (List.mem_of_getElem? hrun)
    refine ⟨start, count, hstretch, fun hnext => ?_⟩
    rw [List.length_append] at hnext
    omega

namespace InProgress

theorem runsFrom_part (hprogress : InProgress text front part rest) :
    runsFrom text front.length part.length =
      if part = [] then [] else [List.range' front.length part.length] := by
  split
  case isTrue hnone =>
    rw [hnone]
    rfl
  case isFalse hsome => exact runsFrom_letters (by simpa using hsome) hprogress.letters

theorem isStretch_part (hprogress : InProgress text front part rest)
    (hexposed : isExposed text front.length = true)
    (hrun : run ∈ runsFrom text front.length part.length) :
    IsStretch text run front.length part.length where
  run_eq := by
    rw [hprogress.runsFrom_part] at hrun
    split at hrun
    · cases hrun
    · exact List.mem_singleton.mp hrun
  inside := by simp [hprogress.text_eq]
  exposed := hexposed

/-- A cut ends the part, and the scan is outside quotes in front of it and behind. -/
theorem stretched_cut (hprogress : InProgress text front part (c :: rest))
    (hexposed : isExposed text front.length = true)
    (hcut : isSeparator text (front.length + part.length) = true ∨
      isSolo text (front.length + part.length) = true)
    (hrest : isExposed text (front.length + part.length + 1) = true →
      Stretched text (runsFrom text (front.length + part.length + 1) rest.length)) :
    Stretched text (runsFrom text front.length (part.length + (rest.length + 1))) := by
  have hplace : isExposed text (front.length + part.length) = true ∧
      (isBlank c = true ∨ c = '(' ∨ c = ')') := by
    rcases hcut with hseparator | hsolo
    · rw [isSeparator, hprogress.char_eq, Option.any_some, Bool.and_eq_true] at hseparator
      exact ⟨hseparator.2, .inl hseparator.1⟩
    · have hchar := char_of_isSolo hsolo
      rw [hprogress.char_eq, Option.some_inj, Option.some_inj] at hchar
      rw [isSolo, Bool.and_eq_true] at hsolo
      exact ⟨hsolo.1, .inr hchar⟩
  have hbehind := isExposed_succ hplace.1 hprogress.char_eq hplace.2
  have hpart : ∀ run ∈ runsFrom text front.length part.length,
      ∃ start count, IsStretch text run start count ∧ isExposed text (start + count) = true :=
    fun run hrun => ⟨_, _, hprogress.isStretch_part hexposed hrun, hplace.1⟩
  rcases hcut with hseparator | hsolo
  · rw [runsFrom_separator hseparator]
    exact (hrest hbehind).append hpart
  · rw [runsFrom_solo hsolo, ← List.singleton_append]
    refine ((hrest hbehind).append ?_).append hpart
    intro run hrun
    refine ⟨front.length + part.length, 1, ⟨List.mem_singleton.mp hrun, ?_, hplace.1⟩, hbehind⟩
    exact (List.getElem?_eq_some_iff.mp hprogress.char_eq).1

theorem stretched (hprogress : InProgress text front part rest)
    (hexposed : isExposed text front.length = true) :
    Stretched text (runsFrom text front.length (part.length + rest.length)) := by
  induction rest generalizing front part with
  | nil =>
      have hone : (runsFrom text front.length part.length).length ≤ 1 := by
        rw [hprogress.runsFrom_part]
        split
        · exact Nat.zero_le 1
        · exact Nat.le_refl 1
      exact ⟨[], _, rfl, hone, nofun, fun run hrun =>
        ⟨_, _, hprogress.isStretch_part hexposed hrun⟩⟩
  | cons c rest ih =>
      have hlength : (front ++ part.reverse ++ [c]).length = front.length + part.length + 1 := by
        simp [Nat.add_assoc]
      by_cases hcut : isSeparator text (front.length + part.length) = true ∨
          isSolo text (front.length + part.length) = true
      · refine hprogress.stretched_cut hexposed hcut fun hbehind => ?_
        rw [← hlength] at hbehind ⊢
        have hread := ih hprogress.stop hbehind
        rwa [List.length_nil, Nat.zero_add] at hread
      · have hletter : isSeparator text (front.length + part.length) = false ∧
            isSolo text (front.length + part.length) = false := by
          simpa [not_or] using hcut
        have hread := ih (hprogress.next hletter) hexposed
        rwa [List.length_cons, Nat.add_assoc, Nat.add_comm 1] at hread

end InProgress

end Stretches

section Words

variable {text word : List Char} {run : List Nat} {start count : Nat}

theorem stretched_runs (text : List Char) : Stretched text (runs text) := by
  rw [runs_eq_runsFrom]
  have hread := (InProgress.start text).stretched rfl
  rwa [List.length_nil, Nat.zero_add] at hread

/-- What is escaped and which quote is open does not depend on the blanks. -/
theorem foldl_next_congr {a b : Scan} (hescaped : a.escaped = b.escaped)
    (hquote : a.quote = b.quote) (text : List Char) :
    (text.foldl Scan.next a).escaped = (text.foldl Scan.next b).escaped ∧
      (text.foldl Scan.next a).quote = (text.foldl Scan.next b).quote := by
  induction text generalizing a b with
  | nil => exact ⟨hescaped, hquote⟩
  | cons c text ih =>
      obtain ⟨escaped, quote, afterBlank⟩ := a
      obtain ⟨_, _, afterBlank'⟩ := b
      obtain rfl := hescaped
      obtain rfl := hquote
      cases escaped with
      | true | false => exact ih rfl rfl

namespace IsStretch

variable (hstretch : IsStretch text run start count)

include hstretch

theorem split : ∃ front word back, text = front ++ word ++ back ∧ front.length = start ∧
    word.length = count := by
  refine ⟨text.take start, (text.drop start).take count, (text.drop start).drop count, ?_, ?_, ?_⟩
  · rw [List.append_assoc, List.take_append_drop, List.take_append_drop]
  · rw [List.length_take, Nat.min_eq_left (Nat.le_trans (Nat.le_add_right _ _) hstretch.inside)]
  · rw [List.length_take, List.length_drop, Nat.min_eq_left]
    exact Nat.le_sub_of_add_le' hstretch.inside

/-- The scan of a query goes over a word as over the word by itself. -/
theorem scan_eq {word : String} (hword : textAt text run = word) :
    run = List.range' start word.toList.length ∧ count = word.toList.length ∧
    ∀ i ≤ word.toList.length,
      (scanTo text (start + i)).escaped = (scanTo word.toList i).escaped ∧
        (scanTo text (start + i)).quote = (scanTo word.toList i).quote := by
  obtain ⟨front, part, back, rfl, rfl, rfl⟩ := hstretch.split
  rw [hstretch.run_eq, textAt_range'] at hword
  subst hword
  rw [String.toList_ofList]
  refine ⟨hstretch.run_eq, rfl, fun i hi => ?_⟩
  obtain ⟨hescaped, hquote⟩ := isExposed_iff.mp hstretch.exposed
  rw [scanTo, List.append_assoc, List.take_left] at hescaped hquote
  have hread : scanTo (front ++ part ++ back) (front.length + i) =
      (part.take i).foldl Scan.next (front.foldl Scan.next {}) := by
    rw [scanTo, List.append_assoc, List.take_length_add_append, List.take_append_of_le_length hi,
      List.foldl_append]
  rw [hread]
  exact foldl_next_congr hescaped hquote _

end IsStretch

end Words

/-- Taking the quotes off a word of a query takes off exactly those that opened or
closed when the query was split, and the backslashes before such as would have
closed, if the word ends outside quotes. All words but the last do. -/
theorem unquote_words {query : String} {maxWords k : Nat} {word : String}
    (hword : (words query maxWords)[k]? = some word) :
    ∃ start, (runs query.toList)[k]? = some (List.range' start word.toList.length) ∧
      word = textAt query.toList (List.range' start word.toList.length) ∧
      (∀ i ≤ word.toList.length,
        (scanTo query.toList (start + i)).escaped = (scanTo word.toList i).escaped ∧
          (scanTo query.toList (start + i)).quote = (scanTo word.toList i).quote) ∧
      (k + 1 < (words query maxWords).length →
        (scanTo word.toList word.toList.length).quote = none) ∧
      ((scanTo word.toList word.toList.length).quote = none →
        unquote word = textAt word.toList
          ((List.range word.toList.length).filter fun i => !isTaken word.toList i)) := by
  rw [words_eq_take] at hword ⊢
  rw [List.getElem?_take] at hword
  split at hword
  case isFalse => cases hword
  case isTrue hroom =>
    rw [List.getElem?_map, Option.map_eq_some_iff] at hword
    obtain ⟨run, hrun, hword⟩ := hword
    obtain ⟨start, count, hstretch, hended⟩ := (stretched_runs query.toList).get hrun
    obtain ⟨rfl, rfl, hscan⟩ := hstretch.scan_eq hword
    refine ⟨start, hrun, hword.symm, hscan, fun hnext => ?_, unquote_eq⟩
    rw [List.length_take, List.length_map] at hnext
    rw [← (hscan _ (Nat.le_refl _)).2]
    exact (isExposed_iff.mp (hended (Nat.lt_of_lt_of_le hnext (Nat.min_le_right _ _)))).2

/-- An open quote makes the other kind ordinary, and a backslash before its own
kind goes with it. -/
theorem unquote_words_nested :
    (words "f~\"it's \\\" 5'\" 'x" 10)[0]? = some "f~\"it's \\\" 5'\"" ∧
      unquote "f~\"it's \\\" 5'\"" = "f~it's \" 5'" := by
  have hword : (words "f~\"it's \\\" 5'\" 'x" 10)[0]? = some "f~\"it's \\\" 5'\"" := by decide
  obtain ⟨start, -, -, -, hended, hleft⟩ := unquote_words hword
  refine ⟨hword, (hleft (hended ?_)).trans ?_⟩ <;> decide

end MediaCatalog.Query
