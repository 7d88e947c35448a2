import Mathlib.Data.List.Basic
import MediaCatalog.Proofs.Query.Bracketing

/-!
Brackets that hold nothing together. A closing bracket without a partner, and
those that close what is still open at the end, can be put in or left out: no
draft is changed by them. An empty pair of brackets leaves no clause, but it
takes the waiting operator with it, and what follows is joined by AND. So an
empty pair stands for an AND, and an OR that waits in front of it is lost unless
another operator comes before the next operand.
-/

namespace MediaCatalog.Query

/-- Tokens in which each bracket has its partner. -/
inductive Paired : List Token → Prop
  | nil : Paired []
  | plain {token : Token} {rest : List Token} (hopening : token ≠ .opening)
      (hclosing : token ≠ .closing) (hrest : Paired rest) : Paired (token :: rest)
  | group {inner rest : List Token} (hinner : Paired inner) (hrest : Paired rest) :
      Paired (.opening :: (inner ++ .closing :: rest))

/-- A closing bracket right behind the tokens has its partner among them. -/
def HasPartner (before : List Token) : Prop :=
  ∃ front inner, Paired inner ∧ before = front ++ .opening :: inner

/-- Each opening bracket among the tokens is closed by one of them. -/
def AllClosed (before : List Token) : Prop :=
  ∀ front rest, before = front ++ .opening :: rest →
    ∃ inner later, Paired inner ∧ rest = inner ++ .closing :: later

/-- How many groups are open behind a token, where `n` were open before it. -/
def openBehind (n : Nat) : Token → Nat
  | .opening => n + 1
  | .closing => n - 1
  | .join _ | .term _ => n

/-- How many groups are open behind the tokens. -/
def openAfter (n : Nat) (tokens : List Token) : Nat :=
  tokens.foldl openBehind n

section Pairs

variable {before inner rest : List Token} {token : Token} {n : Nat}

theorem openBehind_plain (hopening : token ≠ .opening) (hclosing : token ≠ .closing) (n : Nat) :
    openBehind n token = n := by
  cases token with
  | opening => exact absurd rfl hopening
  | closing => exact absurd rfl hclosing
  | join | term => rfl

theorem openAfter_append (n : Nat) (tokens others : List Token) :
    openAfter n (tokens ++ others) = openAfter (openAfter n tokens) others :=
  List.foldl_append

theorem Paired.append (hinner : Paired inner) (hrest : Paired rest) : Paired (inner ++ rest) := by
  induction hinner with
  | nil => exact hrest
  | plain hopening hclosing _ ih => exact .plain hopening hclosing ih
  | group hwithin _ _ ih =>
      rw [List.cons_append, List.append_assoc, List.cons_append]
      exact .group hwithin ih

theorem Paired.openAfter_eq (hpaired : Paired inner) (n : Nat) : openAfter n inner = n := by
  induction hpaired generalizing n with
  | nil => rfl
  | plain hopening hclosing _ ih =>
      rw [openAfter, List.foldl_cons, openBehind_plain hopening hclosing]
      exact ih n
  | @group within _ _ _ ihinner ihrest =>
      have hwithin : openAfter n (.opening :: within) = n + 1 := ihinner (n + 1)
      rw [← List.cons_append, openAfter_append, hwithin]
      exact ihrest n

/-- The innermost open group is one that the next closing bracket closes. The
induction is on the length, since a group that was closed is passed over whole. -/
theorem exists_partner (hopen : openAfter 0 before = n + 1) :
    ∃ front inner, Paired inner ∧ before = front ++ .opening :: inner ∧
      openAfter 0 front = n := by
  induction hlength : before.length using Nat.strong_induction_on generalizing before n with
  | _ length ih =>
    rcases List.eq_nil_or_concat' before with rfl | ⟨start, token, rfl⟩
    · cases hopen
    rw [List.length_append, List.length_singleton] at hlength
    rw [openAfter_append] at hopen
    by_cases hopening : token = .opening
    · subst hopening
      exact ⟨start, [], .nil, rfl, Nat.succ.inj hopen⟩
    by_cases hclosing : token = .closing
    · subst hclosing
      have hstart : openAfter 0 start = n + 1 + 1 := by
        have : openAfter 0 start - 1 = n + 1 := hopen
        omega
      obtain ⟨outside, within, hwithin, rfl, houtside⟩ := ih _ (by omega) hstart rfl
      rw [List.length_append] at hlength
      obtain ⟨front, inner, hinner, rfl, hfront⟩ := ih _ (by omega) houtside rfl
      exact ⟨front, _, hinner.append (.group hwithin .nil), by simp, hfront⟩
    · have hstart : openAfter 0 start = n + 1 :=
        (openBehind_plain hopening hclosing _).symm.trans hopen
      obtain ⟨front, inner, hinner, rfl, hfront⟩ := ih _ (by omega) hstart rfl
      exact ⟨front, _, hinner.append (.plain hopening hclosing .nil), by simp, hfront⟩

theorem hasPartner_iff : HasPartner before ↔ openAfter 0 before ≠ 0 := by
  constructor
  · rintro ⟨front, inner, hinner, rfl⟩
    have hopened : openAfter 0 (front ++ .opening :: inner) = openAfter 0 front + 1 := by
      rw [openAfter_append]
      exact hinner.openAfter_eq (openAfter 0 front + 1)
    omega
  · intro hopen
    obtain ⟨n, hn⟩ := Nat.exists_eq_succ_of_ne_zero hopen
    obtain ⟨front, inner, hinner, hbefore, -⟩ := exists_partner hn
    exact ⟨front, inner, hinner, hbefore⟩

instance (before : List Token) : Decidable (HasPartner before) :=
  decidable_of_iff (openAfter 0 before ≠ 0) hasPartner_iff.symm

/-- A group that is open before the tokens is closed by one of them if fewer are
open behind them. The induction is on the length, as above. -/
theorem exists_closing (hopen : openAfter (n + 1) rest ≤ n) :
    ∃ inner later, Paired inner ∧ rest = inner ++ .closing :: later := by
  induction hlength : rest.length using Nat.strong_induction_on generalizing rest n with
  | _ length ih =>
    cases rest with
    | nil => exact absurd hopen (Nat.not_succ_le_self n)
    | cons token rest =>
        rw [List.length_cons] at hlength
        by_cases hclosing : token = .closing
        · subst hclosing
          exact ⟨[], rest, .nil, rfl⟩
        by_cases hopening : token = .opening
        · subst hopening
          have hrest : openAfter (n + 1 + 1) rest ≤ n := hopen
          obtain ⟨inner, later, hinner, rfl⟩ :=
            ih rest.length (by omega) (Nat.le_succ_of_le hrest) rfl
          rw [openAfter_append, hinner.openAfter_eq] at hrest
          rw [List.length_append, List.length_cons] at hlength
          obtain ⟨further, last, hfurther, rfl⟩ := ih later.length (by omega) hrest rfl
          exact ⟨_, last, .group hinner hfurther, by simp⟩
        · have hrest : openAfter (n + 1) rest ≤ n := by
            rwa [openAfter, List.foldl_cons, openBehind_plain hopening hclosing] at hopen
          obtain ⟨inner, later, hinner, rfl⟩ := ih _ (by omega) hrest rfl
          exact ⟨_, later, .plain hopening hclosing hinner, rfl⟩

theorem allClosed_iff : AllClosed before ↔ ¬ HasPartner before := by
  constructor
  · rintro hclosed ⟨front, inner, hinner, rfl⟩
    obtain ⟨within, later, hwithin, hlater⟩ := hclosed front inner rfl
    -- What closes the group leaves the same behind it as if nothing had been open.
    have hsame : openAfter 1 inner = openAfter 0 inner := by
      rw [hlater, openAfter_append, openAfter_append, hwithin.openAfter_eq, hwithin.openAfter_eq]
      rfl
    rw [hinner.openAfter_eq, hinner.openAfter_eq] at hsame
    cases hsame
  · rintro hnone front rest rfl
    have hopen : openAfter (openAfter 0 front + 1) rest = 0 := by
      rw [hasPartner_iff, not_not, openAfter_append] at hnone
      exact hnone
    exact exists_closing (hopen.trans_le (Nat.zero_le (openAfter 0 front)))

instance (before : List Token) : Decidable (AllClosed before) :=
  decidable_of_iff (¬ HasPartner before) allClosed_iff.symm

/-- The tokens without the closing brackets that have no partner, where `before`
are the tokens in front of them. -/
def matchedBehind (before : List Token) : List Token → List Token
  | [] => []
  | token :: rest =>
      let others := matchedBehind (before ++ [token]) rest
      if token = .closing ∧ ¬ HasPartner before then others else token :: others

/-- The tokens without the closing brackets that have no partner. -/
def matched (tokens : List Token) : List Token :=
  matchedBehind [] tokens

end Pairs

namespace Draft

variable (draft : Draft)

theorem length_opened_take (token : Token) :
    (draft.take token).opened.length = openBehind draft.opened.length token := by
  cases token with
  | join | opening => rfl
  | closing => exact draft.length_opened_close
  | term term => exact length_opened_add ..

theorem length_opened_foldl (tokens : List Token) :
    (tokens.foldl take draft).opened.length = openAfter draft.opened.length tokens := by
  induction tokens generalizing draft with
  | nil => rfl
  | cons token rest ih =>
      rw [List.foldl_cons, ih, length_opened_take]
      rfl

theorem close_of_opened_nil (hnone : draft.opened = []) : draft.close = draft := by
  simp only [close, hnone]

/-- A closing bracket without a partner does nothing. -/
theorem take_closing_of_not_hasPartner {before : List Token} (hnone : ¬ HasPartner before) :
    (before.foldl take {}).take .closing = before.foldl take {} := by
  apply close_of_opened_nil
  apply List.length_eq_zero_iff.mp
  rw [length_opened_foldl]
  exact not_not.mp (mt hasPartner_iff.mpr hnone)

theorem foldl_matchedBehind (before tokens : List Token) :
    (matchedBehind before tokens).foldl take (before.foldl take {}) =
      tokens.foldl take (before.foldl take {}) := by
  induction tokens generalizing before with
  | nil => rfl
  | cons token rest ih =>
      have hnext := ih (before ++ [token])
      rw [List.foldl_append, List.foldl_cons, List.foldl_nil] at hnext
      rw [matchedBehind]
      split
      · rename_i hdropped
        obtain ⟨rfl, hnone⟩ := hdropped
        rw [take_closing_of_not_hasPartner hnone] at hnext
        rw [hnext, List.foldl_cons, take_closing_of_not_hasPartner hnone]
      · rw [List.foldl_cons, List.foldl_cons, hnext]

/-- Closing a group early is what the end of the query would do. -/
theorem finish_close : draft.close.finish = draft.finish := by
  obtain ⟨outer, opened, waiting⟩ := draft
  cases opened with
  | nil => rfl
  | cons group opened =>
      have hlength := length_opened_close ⟨outer, group :: opened, waiting⟩
      have hcommute (n : Nat) (first : Draft) :
          Nat.repeat close n first.close = Nat.repeat close (n + 1) first := by
        induction n with
        | zero => rfl
        | succ n ih => exact congrArg close ih
      rw [finish, finish, hlength, List.length_cons, Nat.add_sub_cancel, hcommute]

theorem finish_closings (n : Nat) :
    ((List.replicate n Token.closing).foldl take draft).finish = draft.finish := by
  induction n generalizing draft with
  | zero => rfl
  | succ n ih =>
      rw [List.replicate_succ, List.foldl_cons, ih]
      exact draft.finish_close

end Draft

/-- Brackets are repaired without a trace. A closing bracket may stand where
everything is closed, all those without a partner may be left out, and any
number may follow at the end. -/
theorem compileTokens_repaired (tokens : List Token) :
    (∀ before after, tokens = before ++ after → AllClosed before →
        compileTokens (before ++ .closing :: after) = compileTokens tokens) ∧
      compileTokens (matched tokens) = compileTokens tokens ∧
      ∀ n, compileTokens (tokens ++ List.replicate n .closing) = compileTokens tokens := by
  have hsame {input : List Token} (hgrouped : grouped input = grouped tokens) :
      compileTokens input = compileTokens tokens := by
    rw [compileTokens, clauses, hgrouped]
    rfl
  refine ⟨?_, ?_, ?_⟩
  · rintro before after rfl hclosed
    apply hsame
    rw [grouped, grouped, List.foldl_append, List.foldl_append, List.foldl_cons,
      Draft.take_closing_of_not_hasPartner (allClosed_iff.mp hclosed)]
  · apply hsame
    have hmatched := Draft.foldl_matchedBehind [] tokens
    exact congrArg Draft.finish hmatched
  · intro n
    apply hsame
    rw [grouped, List.foldl_append, Draft.finish_closings]
    rfl

theorem compileTokens_repaired_nested :
    let a : Token := .term (.ofWord "a")
    let b : Token := .term (.ofWord "b")
    let before : List Token := [.closing, .opening, a, .opening, .closing, .closing, .join .or]
    let found := "(f.path LIKE ? ESCAPE ? OR h.id IN " ++
      "(SELECT file_id FROM tags WHERE tag LIKE ? ESCAPE ? AND deleted = 0))"
    let repaired : Predicate :=
      { sql := "(" ++ found ++ ") OR (" ++ found ++ ")"
        bounds := ["%a%", "\\", "%a%", "\\", "%b%", "\\", "%b%", "\\"].map .text }
    AllClosed before ∧ compileTokens (before ++ [.opening, b]) = repaired ∧
      compileTokens (before ++ .closing :: [.opening, b]) = repaired ∧
      matched (before ++ [.opening, b]) = before.tail ++ [.opening, b] ∧
      compileTokens (before.tail ++ [.opening, b]) = repaired ∧
      compileTokens (before ++ [.opening, b] ++ [.closing, .closing]) = repaired := by
  intro a b before found repaired
  have hclosed : AllClosed before := by decide
  have hmatched : matched (before ++ [.opening, b]) = before.tail ++ [.opening, b] := by decide
  have hrepaired : compileTokens (before ++ [.opening, b]) = repaired := by decide +kernel
  obtain ⟨hput, hleft, hmore⟩ := compileTokens_repaired (before ++ [.opening, b])
  rw [hmatched] at hleft
  exact ⟨hclosed, hrepaired, (hput before [.opening, b] rfl hclosed).trans hrepaired, hmatched,
    hleft.trans hrepaired, (hmore 2).trans hrepaired⟩

theorem nonempty_append (clauses others : List Clause) :
    nonempty (clauses ++ others) = nonempty clauses ++ nonempty others := by
  induction clauses with
  | nil => rfl
  | cons clause rest ih => simp only [List.cons_append, nonempty, ih, List.append_assoc]

theorem nonempty_nonempty (clauses : List Clause) :
    nonempty (nonempty clauses) = nonempty clauses :=
  (allFull_nonempty clauses).nonempty_eq

namespace Draft

variable (draft : Draft)

/-- The draft without empty groups, and with AND waiting where nothing else is. -/
def trimmed : Draft where
  outer := nonempty draft.outer
  opened := draft.opened.map fun group => (group.1, nonempty group.2)
  waiting := some (draft.waiting.getD .and)

theorem trimmed_trimmed : draft.trimmed.trimmed = draft.trimmed := by
  simp [trimmed, nonempty_nonempty]

theorem trimmed_add {clause other : Clause} (hsame : nonempty [clause] = nonempty [other]) :
    (draft.trimmed.add clause).trimmed = (draft.add other).trimmed := by
  obtain ⟨outer, opened, waiting⟩ := draft
  cases opened with
  | nil => simp [trimmed, add, nonempty_append, nonempty_nonempty, hsame]
  | cons group opened => simp [trimmed, add, nonempty_append, nonempty_nonempty, hsame]

theorem trimmed_close : draft.trimmed.close.trimmed = draft.close.trimmed := by
  obtain ⟨outer, opened, waiting⟩ := draft
  cases opened with
  | nil => exact trimmed_trimmed _
  | cons group opened =>
      refine trimmed_add ⟨outer, opened, waiting⟩ ?_
      simp only [nonempty, Clause.kept?, nonempty_nonempty]

/-- Empty groups make no difference to what is taken later. -/
theorem trimmed_take (token : Token) :
    (draft.trimmed.take token).trimmed = (draft.take token).trimmed := by
  cases token with
  | join | opening => simp [trimmed, take, nonempty_nonempty]
  | closing => exact draft.trimmed_close
  | term term =>
      obtain ⟨outer, opened, waiting⟩ := draft
      cases opened with
      | nil => simp [trimmed, take, add, nonempty_append, nonempty_nonempty]
      | cons group opened => simp [trimmed, take, add, nonempty_append, nonempty_nonempty]

variable {draft} {other : Draft}

theorem trimmed_foldl (hsame : draft.trimmed = other.trimmed) (tokens : List Token) :
    (tokens.foldl take draft).trimmed = (tokens.foldl take other).trimmed := by
  induction tokens generalizing draft other with
  | nil => exact hsame
  | cons token rest ih =>
      apply ih
      rw [← trimmed_take, hsame, trimmed_take]

theorem nonempty_finish (hsame : draft.trimmed = other.trimmed) :
    nonempty draft.finish = nonempty other.finish := by
  have hlength : draft.opened.length = other.opened.length := by
    simpa [trimmed] using congrArg (fun draft => draft.opened.length) hsame
  have hclosed (n : Nat) :
      (Nat.repeat close n draft).trimmed = (Nat.repeat close n other).trimmed := by
    induction n with
    | zero => exact hsame
    | succ n ih =>
        change (Nat.repeat close n draft).close.trimmed = (Nat.repeat close n other).close.trimmed
        rw [← trimmed_close, ih, trimmed_close]
  rw [finish, finish, hlength]
  exact congrArg outer (hclosed _)

/-- An empty group takes the waiting operator away, and leaves no other trace. -/
theorem trimmed_emptyGroup (draft : Draft) :
    ((draft.take .opening).take .closing).trimmed = (draft.take (.join .and)).trimmed := by
  obtain ⟨outer, opened, waiting⟩ := draft
  have hempty (clauses : List Clause) (joiner : Joiner) :
      nonempty (clauses ++ [.group joiner []]) = nonempty clauses := by
    rw [nonempty_append]
    exact List.append_nil _
  cases opened with
  | nil => simp [trimmed, take, close, add, hempty]
  | cons group opened => simp [trimmed, take, close, add, hempty]

theorem close_waiting (draft : Draft) (waiting : Option Joiner) :
    { draft with waiting }.close = { draft.close with waiting } := by
  obtain ⟨outer, opened, before⟩ := draft
  match opened with
  | [] | [_] | _ :: _ :: _ => rfl

theorem finish_waiting (draft : Draft) (waiting : Option Joiner) :
    { draft with waiting }.finish = draft.finish := by
  have hclosed (n : Nat) :
      Nat.repeat close n { draft with waiting } = { Nat.repeat close n draft with waiting } := by
    induction n with
    | zero => rfl
    | succ n ih => rw [Nat.repeat, ih, close_waiting, Nat.repeat]
  rw [finish, finish, hclosed]

end Draft

/-- Whether the tokens give an operator that waits in front of them something to
join: an operand comes before the next operator. -/
def takesWaiting : List Token → Bool
  | [] | .join _ :: _ => false
  | .closing :: rest => takesWaiting rest
  | .opening :: _ | .term _ :: _ => true

/-- An operator that nothing takes may as well not wait. -/
theorem Draft.finish_foldl_waiting {tokens : List Token} (htaken : takesWaiting tokens = false)
    (draft : Draft) (waiting : Option Joiner) :
    (tokens.foldl take { draft with waiting }).finish = (tokens.foldl take draft).finish := by
  induction tokens generalizing draft with
  | nil => exact finish_waiting draft waiting
  | cons token rest ih =>
      cases token with
      | join joiner => rfl
      | closing =>
          rw [List.foldl_cons, List.foldl_cons, take, close_waiting]
          exact ih htaken draft.close
      | opening | term => cases htaken

theorem compileTokens_congr {input other : List Token}
    (hsame : nonempty (grouped input) = nonempty (grouped other)) :
    compileTokens input = compileTokens other :=
  congrArg predicateOf hsame

/-- An empty pair of brackets stands for an AND. Leaving it out makes no
difference, unless an OR waits in front of it and an operand follows it before
the next operator: that OR is lost. -/
theorem compileTokens_emptyGroup (before after : List Token) :
    compileTokens (before ++ .opening :: .closing :: after) =
        compileTokens (before ++ .join .and :: after) ∧
      ((takesWaiting after = true → waitingAfter none before ≠ some .or) →
        compileTokens (before ++ .opening :: .closing :: after) =
          compileTokens (before ++ after)) := by
  let draft := before.foldl Draft.take {}
  have hdraft (tokens : List Token) :
      grouped (before ++ tokens) = (tokens.foldl Draft.take draft).finish := by
    rw [grouped, List.foldl_append]
  have hempty : compileTokens (before ++ .opening :: .closing :: after) =
      compileTokens (before ++ .join .and :: after) := by
    apply compileTokens_congr
    rw [hdraft, hdraft]
    exact Draft.nonempty_finish (Draft.trimmed_foldl draft.trimmed_emptyGroup after)
  refine ⟨hempty, fun hkept => hempty.trans (compileTokens_congr ?_)⟩
  rw [hdraft, hdraft]
  cases htaken : takesWaiting after with
  | false => rw [List.foldl_cons, Draft.take, Draft.finish_foldl_waiting htaken]
  | true =>
      have hwaiting : draft.waiting ≠ some .or := by
        rw [Draft.waiting_foldl]
        exact hkept htaken
      refine Draft.nonempty_finish (Draft.trimmed_foldl ?_ after)
      -- What waits is AND or nothing, which comes to the same.
      obtain ⟨outer, opened, waiting⟩ := draft
      cases waiting with
      | none => rfl
      | some joiner =>
          cases joiner with
          | and => rfl
          | or => exact absurd rfl hwaiting

theorem compileTokens_emptyGroup_behindOr :
    let a : Token := .term (.ofWord "a")
    let b : Token := .term (.ofWord "b")
    (takesWaiting [.closing, .join .or, b] = true →
        waitingAfter none [.opening, a, .join .or] ≠ some .or) ∧
      compileTokens ([.opening, a, .join .or] ++ .opening :: .closing :: [.closing, .join .or, b]) =
        compileTokens ([.opening, a, .join .or] ++ [.closing, .join .or, b]) := by
  intro a b
  have hkept : takesWaiting [.closing, .join .or, b] = true →
      waitingAfter none [.opening, a, .join .or] ≠ some .or := by decide
  exact ⟨hkept, (compileTokens_emptyGroup _ _).2 hkept⟩

/-- The words that classify to an empty group behind an OR. The OR is kept, since
a bracket opens behind it, and then it joins nothing. -/
theorem or_lost_to_emptyGroup :
    let a : Token := .term (.ofWord "a")
    let b : Token := .term (.ofWord "b")
    tokens ["a", "OR", "(", ")", "b"] = [a, .join .or] ++ .opening :: .closing :: [b] ∧
      compileTokens ([a, .join .or] ++ .opening :: .closing :: [b]) ≠
        compileTokens ([a, .join .or] ++ [b]) := by
  decide

end MediaCatalog.Query
