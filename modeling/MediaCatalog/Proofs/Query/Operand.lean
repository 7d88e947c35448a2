import Mathlib.Data.Nat.Digits.Defs
import MediaCatalog.Proofs.Query.Quoting

/-!
Terms that are a whole query. Whether a lead and what follows it are one word is
told by what follows: the lead has nothing that could end the word. A number
that is printed follows any lead, and is read again as it was.
-/

namespace MediaCatalog

open Text

namespace Query

section Words

variable {part text : List Char} {operand : String}

/-- No character of the text ends the word in progress. -/
def unbroken (scan : Scan) : List Char → Bool
  | [] => true
  | c :: rest =>
      match scan.role c rest.head? with
      | .escaped | .ordinary => unbroken (scan.next c) rest
      | .separator | .bracket => false

theorem wordsFrom_eq_whole_iff (room : Nat) (scan : Scan) (hsome : part ≠ []) :
    wordsFrom (room + 1) scan part text = [.ofList (part.reverse ++ text)] ↔
      unbroken scan text = true := by
  have hcompleted : completed part = [.ofList part.reverse] := by simp [completed, hsome]
  induction text generalizing scan part with
  | nil => simp [wordsFrom, unbroken, hcompleted]
  | cons c text ih =>
      have hkept := ih (scan.next c) (List.cons_ne_nil c part) (by simp [completed])
      rw [List.reverse_cons, List.append_assoc, List.singleton_append] at hkept
      -- A word that ends here is too short for the whole.
      have hshort (others : List String) :
          [String.ofList part.reverse] ++ others ≠ [.ofList (part.reverse ++ c :: text)] := by
        intro hsame
        have hword := congrArg String.toList (List.cons.inj hsame).1
        simp at hword
      rw [wordsFrom, unbroken]
      cases scan.role c text.head? with
      | escaped => exact hkept
      | ordinary => exact hkept
      | separator | bracket =>
          rw [hcompleted]
          exact iff_of_false (hshort _) Bool.false_ne_true

/-- Behind any lead, the operand makes one word. -/
def InOneWord (operand : String) : Prop :=
  ∀ lead ∈ leads, words (lead.1 ++ operand) defaultMaxWords = [lead.1 ++ operand]

theorem leads_plain :
    ∀ lead ∈ leads, lead.1.toList.all isPlain = true ∧ lead.1.toList ≠ [] ∧
      lead.1.toList.head?.all (· ∉ ['A', 'O', '(', ')']) = true := by
  decide

theorem words_lead_iff {lead : String × TermKind} (hlead : lead ∈ leads) :
    words (lead.1 ++ operand) defaultMaxWords = [lead.1 ++ operand] ↔
      unbroken { afterBlank := false } operand.toList = true := by
  obtain ⟨hplain, hsome, -⟩ := leads_plain lead hlead
  have hpart : lead.1.toList.reverse ≠ [] := by simpa using hsome
  have hwhole : lead.1 ++ operand =
      .ofList (lead.1.toList.reverse.reverse ++ operand.toList) := by
    rw [List.reverse_reverse, ← String.toList_append, String.ofList_toList]
  rw [words, defaultMaxWords, String.toList_append,
    wordsFrom_plain hplain _ [] fun hnone => absurd hnone hsome, List.append_nil, hwhole]
  exact wordsFrom_eq_whole_iff 9 _ hpart

/-- One lead is enough to tell. -/
theorem inOneWord_of_words {lead : String × TermKind} (hlead : lead ∈ leads)
    (hwords : words (lead.1 ++ operand) defaultMaxWords = [lead.1 ++ operand]) :
    InOneWord operand :=
  fun _ hother => (words_lead_iff hother).mpr ((words_lead_iff hlead).mp hwords)

/-- A lead and an operand ask what the term asks. -/
theorem InOneWord.clauses_lead (hoperand : InOneWord operand) {lead : String} {kind : TermKind}
    (hlead : (lead, kind) ∈ leads) :
    (compile (lead ++ operand)).clauses = [.test .and (Term.condition ⟨kind, operand⟩)] := by
  obtain ⟨-, hsome, hfirst⟩ := leads_plain _ hlead
  obtain ⟨c, rest, hchars⟩ := List.exists_cons_of_ne_nil hsome
  have hhead : (lead ++ operand).toList.head? = some c := by
    rw [String.toList_append, hchars]
    rfl
  have hmatch : IsMatch (lead ++ operand) := by
    apply isMatch_of_head? hhead
    simpa [hchars] using hfirst
  rw [clauses_of_word (hoperand _ hlead) hmatch, Term.ofWord_lead hlead]

theorem inOneWord_of_plain (hplain : operand.toList.all isPlain = true) : InOneWord operand := by
  intro lead hlead
  obtain ⟨hlead, hsome, -⟩ := leads_plain lead hlead
  have hword : IsWord (lead.1 ++ operand) := by
    have hletters : lead.1 ++ operand = .ofList (lead.1.toList ++ operand.toList) := by
      rw [← String.toList_append, String.ofList_toList]
    rw [hletters]
    refine isWord_of_plain (List.append_ne_nil_of_left_ne_nil hsome _) ?_
    rw [List.all_append, hlead, hplain]
    rfl
  have hprinted : Printed [lead.1 ++ operand] (lead.1 ++ operand).toList := by
    simpa using @Printed.word (lead.1 ++ operand) [] [] [] nofun rfl (.blanks nofun)
  refine hprinted.words_eq ?_ (Nat.le_add_left 1 9)
  intro other hother
  obtain rfl := List.mem_singleton.mp hother
  exact Or.inl hword

end Words

section Numbers

theorem exists_toDigits_eq_cons (n : Nat) :
    ∃ c rest, Nat.toDigits 10 n = c :: rest ∧ c.isDigit = true := by
  obtain ⟨c, rest, hchars⟩ := List.exists_cons_of_ne_nil (Nat.toDigits_ne_nil (n := n) (b := 10))
  exact ⟨c, rest, hchars,
    Nat.isDigit_of_mem_toDigits (by decide) (by decide) (hchars ▸ List.mem_cons_self)⟩

theorem natural?_toDigits (n : Nat) : natural? (Nat.toDigits 10 n) = some n := by
  have hdigits : (Nat.toDigits 10 n).all Char.isDigit = true :=
    List.all_eq_true.mpr fun c hc => Nat.isDigit_of_mem_toDigits (by decide) (by decide) hc
  have hvalue : (Nat.toDigits 10 n).foldl (fun n d => 10 * n + (d.toNat - 48)) 0 = n :=
    Nat.ofDigitChars_ten_toDigits
  obtain ⟨c, rest, hchars, -⟩ := exists_toDigits_eq_cons n
  rw [hchars] at hdigits hvalue ⊢
  rw [natural?, if_pos hdigits, hvalue]

theorem toList_toString (n : Int) :
    (toString n).toList =
      if 0 ≤ n then Nat.toDigits 10 n.toNat else '-' :: Nat.toDigits 10 (-n).toNat := by
  rw [Int.toString_eq_repr, Int.repr_eq_if]
  split
  · exact Nat.toList_repr
  · rw [String.toList_append, Nat.toList_repr]
    rfl

/-- A digit is no sign, and nothing that could end a word. -/
theorem of_isDigit {c : Char} (hdigit : c.isDigit = true) :
    c ≠ '-' ∧ c ≠ '+' ∧ c ≠ '=' ∧ isPlain c = true := by
  have hbounds : 48 ≤ c.toNat ∧ c.toNat ≤ 57 := by
    simpa [Char.isDigit, UInt32.le_iff_toNat_le] using hdigit
  have hne (other : Char) (hother : ¬ (48 ≤ other.toNat ∧ other.toNat ≤ 57)) : c ≠ other := by
    rintro rfl
    exact hother hbounds
  have hblank : isBlank c = false := by
    simp [isBlank, blankRanges]
    omega
  have hplain : isPlain c = true := by
    simp [isPlain, isQuote, hblank, hne '\\' (by decide), hne '"' (by decide),
      hne '\'' (by decide), hne '(' (by decide), hne ')' (by decide)]
  exact ⟨hne '-' (by decide), hne '+' (by decide), hne '=' (by decide), hplain⟩

theorem signed64?_toString {n : Int} (hlow : -2 ^ 63 ≤ n) (hhigh : n < 2 ^ 63) :
    signed64? (toString n).toList = some n := by
  have hbound : signedBound = 2 ^ 63 := by decide
  rw [toList_toString]
  split
  · rename_i hsign
    have hread := natural?_toDigits n.toNat
    obtain ⟨c, rest, hchars, hdigit⟩ := exists_toDigits_eq_cons n.toNat
    obtain ⟨hminus, hplus, -, -⟩ := of_isDigit hdigit
    rw [hchars] at hread ⊢
    have hsmall : n.toNat < signedBound := by omega
    have hback : (n.toNat : Int) = n := Int.toNat_of_nonneg hsign
    simp [signed64?, hminus, hplus, hread, hsmall, hback]
  · have hread := natural?_toDigits (-n).toNat
    have hsmall : (-n).toNat ≤ signedBound := by omega
    simp [signed64?, hread, hsmall]
    omega

theorem inOneWord_toString (n : Int) : InOneWord (toString n) := by
  apply inOneWord_of_plain
  rw [toList_toString]
  have hdigits (m : Nat) : (Nat.toDigits 10 m).all isPlain = true :=
    List.all_eq_true.mpr fun c hc =>
      (of_isDigit (Nat.isDigit_of_mem_toDigits (by decide) (by decide) hc)).2.2.2
  split
  · exact hdigits _
  · rw [List.all_cons, hdigits]
    decide

/-- A number that is printed behind a lead is the number that the term asks. -/
theorem Term.count_toString (kind : TermKind) {n : Int} (hlow : -2 ^ 63 ≤ n) (hhigh : n < 2 ^ 63) :
    Term.count ⟨kind, toString n⟩ = n := by
  have hread := signed64?_toString hlow hhigh
  have hfirst : (toString n).toList.head? ≠ some '=' := by
    rw [toList_toString]
    split
    · obtain ⟨c, rest, hchars, hdigit⟩ := exists_toDigits_eq_cons n.toNat
      rw [hchars, List.head?_cons, ne_eq, Option.some.injEq]
      exact (of_isDigit hdigit).2.2.1
    · simp
  rw [Term.count]
  split
  · rename_i digits hequals
    exact absurd (by rw [hequals]; rfl) hfirst
  · rw [hread]
    rfl

end Numbers

end Query

end MediaCatalog
