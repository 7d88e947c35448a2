import MediaCatalog.Proofs.Query.Expression
import MediaCatalog.Proofs.Query.Segments
import MediaCatalog.Search.Statement

/-!
How deep a query can be. Every condition adds one level at most to what is
around it, so that a query is hardly deeper than it has words. A count of tags
nests the condition into another one and reaches twice as far down.

A term that is repeated asks nothing more, and does add a level each time.
-/

namespace MediaCatalog.Query

theorem Test.depth_le (test : Test) : test.depth ≤ 5 := by
  cases test <;> exact Nat.le_of_ble_eq_true rfl

theorem Condition.depth_le (condition : Condition) : condition.depth ≤ 6 := by
  have htest := condition.test.depth_le
  unfold Condition.depth
  split <;> omega

mutual

theorem Clause.Full.depth_le {clause : Clause} (hfull : clause.Full) :
    0 < clause.conditions.length ∧ clause.depth ≤ clause.conditions.length + 5 := by
  match clause, hfull with
  | .test joiner condition, _ => exact ⟨Nat.one_pos, condition.depth_le⟩
  | .group joiner (first :: rest), ⟨_, hfirst, hrest⟩ =>
      obtain ⟨hsome, hdepth⟩ := hfirst.depth_le
      have hwhole := hrest.depthWith_le none (k := 0) nofun hsome hdepth
      rw [Clause.conditions, Clause.depth, depthOf, conditionsOf, List.length_append]
      exact ⟨by omega, by omega⟩

/-- What a sequence adds to the depth of what stands before it, told by numbers
of conditions. -/
theorem AllFull.depthWith_le {clauses : List Clause} (hfull : AllFull clauses)
    (before : Option Nat) {run k m : Nat} (hbefore : ∀ depth ∈ before, 0 < k ∧ depth ≤ k + 5)
    (hsome : 0 < m) (hrun : run ≤ m + 5) :
    depthWith before run clauses ≤ k + m + (conditionsOf clauses).length + 5 := by
  have hdisjoined : disjoinedDepth before run ≤ k + m + 5 := by
    cases before with
    | none => exact hrun.trans (by omega)
    | some depth =>
        obtain ⟨hk, hdepth⟩ := hbefore depth rfl
        rw [disjoinedDepth, deeper]
        omega
  match clauses, hfull with
  | [], _ => exact hdisjoined
  | clause :: rest, ⟨hfirst, hrest⟩ =>
      obtain ⟨hone, hdepth⟩ := hfirst.depth_le
      rw [conditionsOf, List.length_append, depthWith]
      split
      · have hjoined : deeper run clause.depth ≤ m + clause.conditions.length + 5 := by
          rw [deeper]
          omega
        have hwhole := hrest.depthWith_le before hbefore (by omega) hjoined
        omega
      · have hpart : ∀ depth ∈ some (disjoinedDepth before run), 0 < k + m ∧ depth ≤ k + m + 5 := by
          intro depth hdepth
          obtain rfl := Option.mem_some_iff.mp hdepth
          exact ⟨by omega, hdisjoined⟩
        have hwhole := hrest.depthWith_le _ hpart hone hdepth
        omega

end

theorem depthOf_le {clauses : List Clause} (hfull : AllFull clauses) :
    depthOf clauses ≤ (conditionsOf clauses).length + 5 := by
  match clauses, hfull with
  | [], _ => exact Nat.zero_le _
  | clause :: rest, hfull =>
      have hgroup : (Clause.group .and (clause :: rest)).Full := ⟨List.cons_ne_nil _ _, hfull⟩
      exact hgroup.depth_le.2

theorem length_tokensAfter_le (previous : Option String) (words : List String) :
    (tokensAfter previous words).length ≤ words.length := by
  induction words generalizing previous with
  | nil => exact Nat.le_refl 0
  | cons word rest ih =>
      have hrest := ih (some word)
      simp only [tokensAfter]
      split
      · split <;> simp only [List.length_cons] <;> omega
      · split
        · simpa using hrest
        · split <;> simpa using hrest

theorem length_words_le (query : String) (maxWords : Nat) :
    (words query maxWords).length ≤ maxWords := by
  rw [length_words]
  exact Nat.min_le_left _ _

theorem length_conditions_le (query : String) (maxWords : Nat) :
    (conditionsOf (compileWithin query maxWords).clauses).length ≤ maxWords := by
  have hwords := length_words_le query maxWords
  have htokens := length_tokensAfter_le none (words query maxWords)
  have hasked := List.length_filterMap_le Token.condition? (tokens (words query maxWords))
  rw [compileWithin, conditionsOf_clauses, asked]
  exact hasked.trans (htokens.trans hwords)

namespace Compiled

variable {query : Compiled}

theorem writtenDepth_le (hfull : AllFull query.clauses) :
    query.writtenDepth ≤ (conditionsOf query.clauses).length + 6 := by
  have hdepth := depthOf_le hfull
  have hlive : liveDepth = 3 := rfl
  unfold writtenDepth
  split
  · omega
  · rw [deeper]
    omega

theorem writtenDepth_of_ne_nil (hsome : query.clauses ≠ []) :
    query.writtenDepth = deeper liveDepth (depthOf query.clauses) := by
  unfold writtenDepth
  split
  · exact absurd ‹_› hsome
  · rfl

/-- What the tests of a query add to its depth in a statement. -/
theorem reach_bounds (query : Compiled) (around : Nat) :
    around + query.writtenDepth + 1 ≤ query.reach around ∧
      query.reach around ≤ around + query.writtenDepth + 4 := by
  have hselection : selectionDepth = 3 := rfl
  unfold reach joinedDepth
  split <;> omega

/-- How far down a count of tags reaches. -/
theorem reach_tagsDepth_le (hfull : AllFull query.clauses) :
    query.reach query.tagsDepth ≤ 2 * (conditionsOf query.clauses).length + 18 := by
  have hwritten := writtenDepth_le hfull
  have hreach := (query.reach_bounds query.tagsDepth).2
  have hlive : liveDepth = 3 := rfl
  have hcolumn : columnDepth = 2 := rfl
  have htags : query.tagsDepth = deeper liveDepth (deeper columnDepth query.writtenDepth) := rfl
  simp only [deeper] at htags
  omega

end Compiled

/-- A count of tags is too deep only for a query of hundreds of words. -/
theorem reach_tagsDepth_compileWithin (query : String) {maxWords : Nat} (hfew : maxWords ≤ 491) :
    (compileWithin query maxWords).reach (compileWithin query maxWords).tagsDepth ≤
      Statement.deepest := by
  have hconditions := length_conditions_le query maxWords
  have hfull : AllFull (compileWithin query maxWords).clauses := allFull_clauses _
  have hreach := Compiled.reach_tagsDepth_le hfull
  have hdeepest : Statement.deepest = 1000 := rfl
  omega

section Repeated

variable {word : String} {condition : Condition}

/-- A term, and so many times again. -/
def Conjunction.repeated (word : String) : Nat → Conjunction
  | 0 => .single (.term word)
  | n + 1 => .more (.term word) false (repeated word n)

theorem Conjunction.proper_repeated (hterm : IsTerm word) (n : Nat) :
    (Conjunction.repeated word n).Proper := by
  induction n with
  | zero => exact hterm
  | succ n ih => exact ⟨hterm, ih⟩

theorem Conjunction.length_repeated (word : String) (n : Nat) :
    (Conjunction.repeated word n).words.length = n + 1 := by
  induction n with
  | zero => rfl
  | succ n ih => simp [repeated, Conjunction.words, Item.words, ih, Nat.add_comm]

theorem Conjunction.clauses_repeated (word : String) (n : Nat) :
    (Conjunction.repeated word n).clauses .and =
      List.replicate (n + 1) (.test .and (Term.ofWord word).condition) := by
  induction n with
  | zero => rfl
  | succ n ih =>
      rw [repeated, Conjunction.clauses, ih]
      rfl

theorem Conjunction.value_repeated (truth : String → Bool) (word : String) (n : Nat) :
    (Conjunction.repeated word n).value truth = truth word := by
  induction n with
  | zero => rfl
  | succ n ih => simp [repeated, Conjunction.value, Item.value, ih]

/-- The term so many times and once more, with a blank in front of each. -/
def repeatedText (word : String) (n : Nat) : String :=
  .ofList ((Conjunction.repeated word n).words.flatMap fun word => ' ' :: word.toList)

theorem words_repeatedText (hterm : IsTerm word) (n : Nat) :
    words (repeatedText word n) (n + 1) = (Conjunction.repeated word n).words := by
  let expression : Disjunction := .single (Conjunction.repeated word n)
  have hproper : expression.Proper := Conjunction.proper_repeated hterm n
  have hprinted : Printed expression.words (repeatedText word n).toList := by
    rw [repeatedText, String.toList_ofList]
    exact printed_spaced expression.words
  exact hprinted.words_eq hproper.isToken (Conjunction.length_repeated word n).le

/-- The query for the repeated term. -/
def Compiled.repeated (word : String) (n : Nat) : Compiled :=
  compileWithin (repeatedText word n) (n + 1)

theorem Compiled.clauses_repeated (hterm : IsTerm word) (n : Nat) :
    (Compiled.repeated word n).clauses =
      List.replicate (n + 1) (.test .and (Term.ofWord word).condition) := by
  let expression : Disjunction := .single (Conjunction.repeated word n)
  have hproper : expression.Proper := Conjunction.proper_repeated hterm n
  have htokens : tokens (Conjunction.repeated word n).words = expression.tokens :=
    hproper.tokens_words
  rw [Compiled.repeated, compileWithin, words_repeatedText hterm]
  simp only [htokens, expression.clauses_tokens]
  exact Conjunction.clauses_repeated word n

theorem valueOf_repeated (truth : Condition → Bool) (word : String) (n : Nat) :
    valueOf truth (List.replicate (n + 1) (.test .and (Term.ofWord word).condition)) =
      truth (Term.ofWord word).condition := by
  let expression : Disjunction := .single (Conjunction.repeated word n)
  have hvalue := expression.valueOf_clauses truth .and
  rw [← Conjunction.clauses_repeated]
  exact hvalue.trans (Conjunction.value_repeated _ word n)

theorem conditionsOf_replicate (condition : Condition) (n : Nat) :
    conditionsOf (List.replicate n (.test .and condition)) = List.replicate n condition := by
  induction n with
  | zero => rfl
  | succ n ih =>
      rw [List.replicate_succ, conditionsOf, ih]
      rfl

theorem depthWith_replicate {run : Nat} (hdepth : condition.depth ≤ run) (n : Nat) :
    depthWith none run (List.replicate n (.test .and condition)) = run + n := by
  induction n generalizing run with
  | zero => rfl
  | succ n ih =>
      have hdeeper : deeper run condition.depth = run + 1 := by
        rw [deeper, Nat.max_eq_left hdepth]
      change depthWith none (deeper run condition.depth) _ = _
      rw [hdeeper, ih (Nat.le_succ_of_le hdepth)]
      omega

theorem depthOf_replicate (condition : Condition) (n : Nat) :
    depthOf (List.replicate (n + 1) (.test .and condition)) = condition.depth + n :=
  depthWith_replicate (Nat.le_refl _) n

theorem Compiled.writtenDepth_repeated (hterm : IsTerm word) (n : Nat) :
    (Compiled.repeated word n).writtenDepth =
      deeper liveDepth ((Term.ofWord word).condition.depth + n) := by
  have hclauses := Compiled.clauses_repeated hterm n
  rw [writtenDepth_of_ne_nil (by simp [hclauses]), hclauses, depthOf_replicate]

end Repeated

end MediaCatalog.Query
