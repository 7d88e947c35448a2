import Mathlib.Data.List.TakeWhile
import MediaCatalog.Text.Utf8

/-!
Reading and writing UTF-8. Bytes that are read strictly are those that the text
is written with: a first byte tells how many follow it, and with these it is the
one sequence for its character. So two names that read as one text are one name.
-/

namespace MediaCatalog.Text.Utf8

section Writing

theorem toList_loop (bytes : ByteArray) (start : Nat) (found : List UInt8) :
    ByteArray.toList.loop bytes start found = found.reverse ++ bytes.data.toList.drop start := by
  fun_induction ByteArray.toList.loop bytes start found with
  | case1 start found hmore ih =>
      have hlength : start < bytes.data.toList.length := hmore
      rw [ih, List.drop_eq_getElem_cons hlength]
      simp [ByteArray.get!, hmore]
  | case2 start found hend =>
      rw [List.drop_eq_nil_of_le (Nat.le_of_not_lt hend), List.append_nil]

theorem encode_ofList (chars : List Char) :
    encode (.ofList chars) = chars.flatMap String.utf8EncodeChar := by
  change ByteArray.toList.loop _ 0 [] = _
  rw [toList_loop, String.toUTF8_eq_toByteArray, String.toByteArray_ofList, List.utf8Encode]
  simp

/-- The bytes of a character, by its number. -/
theorem utf8EncodeChar_ofNat {n : Nat} (hvalid : n.isValidChar) :
    String.utf8EncodeChar (.ofNat n) =
      if n ≤ 127 then [.ofNat n]
      else if n ≤ 2047 then [.ofNat (n / 64 % 32 + 192), .ofNat (n % 64 + 128)]
      else if n ≤ 65535 then
        [.ofNat (n / 4096 % 16 + 224), .ofNat (n / 64 % 64 + 128), .ofNat (n % 64 + 128)]
      else
        [.ofNat (n / 262144 % 8 + 240), .ofNat (n / 4096 % 64 + 128), .ofNat (n / 64 % 64 + 128),
          .ofNat (n % 64 + 128)] := by
  have hnumber : (Char.ofNat n).val.toNat = n := by
    rw [Char.ofNat, dif_pos hvalid]
    rfl
  simp only [String.utf8EncodeChar, hnumber]

end Writing

section Reading

variable {lead b : UInt8} {bytes : List UInt8}

theorem canFollow_range (hfollows : canFollow lead b = true) :
    0x80 ≤ b.toNat ∧ b.toNat ≤ 0xBF ∧ (lead.toNat = 0xE0 → 0xA0 ≤ b.toNat) ∧
      (lead.toNat = 0xED → b.toNat ≤ 0x9F) ∧ (lead.toNat = 0xF0 → 0x90 ≤ b.toNat) ∧
      (lead.toNat = 0xF4 → b.toNat ≤ 0x8F) := by
  have hlead (value : UInt8) : lead = value ↔ lead.toNat = value.toNat := UInt8.toNat_inj.symm
  have hrange (low high : UInt8) : (decide (low ≤ b) && decide (b ≤ high)) = true ↔
      low.toNat ≤ b.toNat ∧ b.toNat ≤ high.toNat := by
    simp [UInt8.le_iff_toNat_le]
  simp only [canFollow, hlead, apply_ite (· = true), hrange] at hfollows
  simp only [UInt8.reduceToNat] at hfollows
  split at hfollows
  · omega
  split at hfollows
  · omega
  split at hfollows
  · omega
  split at hfollows <;> omega

theorem isContinuation_range (hcontinues : isContinuation b = true) :
    0x80 ≤ b.toNat ∧ b.toNat ≤ 0xBF := by
  simpa [isContinuation, UInt8.le_iff_toNat_le] using hcontinues

/-- The numbers of the first bytes, by how many bytes follow. -/
theorem followers_range {n : Nat} (hlead : followers lead = some n) :
    (n = 0 ∧ lead.toNat < 0x80) ∨ (n = 1 ∧ 0xC2 ≤ lead.toNat ∧ lead.toNat ≤ 0xDF) ∨
      (n = 2 ∧ 0xE0 ≤ lead.toNat ∧ lead.toNat ≤ 0xEF) ∨
      (n = 3 ∧ 0xF0 ≤ lead.toNat ∧ lead.toNat ≤ 0xF4) := by
  unfold followers at hlead
  simp only [Bool.and_eq_true, decide_eq_true_eq, UInt8.le_iff_toNat_le,
    UInt8.lt_iff_toNat_lt, UInt8.reduceToNat] at hlead
  split at hlead
  · cases hlead
    omega
  · split at hlead
    · cases hlead
      omega
    · split at hlead
      · cases hlead
        omega
      · split at hlead
        · cases hlead
          omega
        · cases hlead

/-- The bytes that continue a sequence are those behind its first byte. -/
theorem continuation_starts (lead : UInt8) (n : Nat) (bytes : List UInt8) :
    continuation lead n bytes <+: bytes := by
  cases bytes with
  | nil => exact List.prefix_refl _
  | cons b bytes =>
      rw [continuation]
      split
      · exact (List.prefix_cons_inj b).mpr
          ((List.takeWhile_prefix _).trans (List.take_prefix _ _))
      · exact List.nil_prefix

theorem continuation_range {n : Nat} {later : List UInt8}
    (hfollows : continuation lead n bytes = b :: later) :
    canFollow lead b = true ∧ ∀ c ∈ later, isContinuation c = true := by
  cases bytes with
  | nil => cases hfollows
  | cons first bytes =>
      rw [continuation] at hfollows
      split at hfollows
      · rename_i hcan
        obtain ⟨rfl, rfl⟩ := List.cons.inj hfollows
        simp only [Bool.and_eq_true] at hcan
        exact ⟨hcan.2, fun c hc => List.mem_takeWhile_imp hc⟩
      · cases hfollows

theorem ofNat_eq {n : Nat} {byte : UInt8} (hsame : n = byte.toNat) : UInt8.ofNat n = byte := by
  rw [hsame, UInt8.ofNat_toNat]

section Sequences

variable {c d : UInt8} (hb : 0x80 ≤ b.toNat ∧ b.toNat ≤ 0xBF)

include hb

theorem utf8EncodeChar_two (hlead : 0xC2 ≤ lead.toNat ∧ lead.toNat ≤ 0xDF) :
    String.utf8EncodeChar (assemble lead [b]) = [lead, b] := by
  let code := 64 * (lead.toNat - 0xC0) + (b.toNat - 0x80)
  change String.utf8EncodeChar (.ofNat code) = _
  have hfirst : code / 64 % 32 + 192 = lead.toNat := by omega
  have hsecond : code % 64 + 128 = b.toNat := by omega
  rw [utf8EncodeChar_ofNat (Or.inl (by omega)), if_neg (by omega), if_pos (by omega),
    ofNat_eq hfirst, ofNat_eq hsecond]

variable (hc : 0x80 ≤ c.toNat ∧ c.toNat ≤ 0xBF)

include hc

/-- Which numbers there are is told by the ranges of the first two bytes. -/
theorem utf8EncodeChar_three (hlead : 0xE0 ≤ lead.toNat ∧ lead.toNat ≤ 0xEF)
    (hlow : lead.toNat = 0xE0 → 0xA0 ≤ b.toNat) (hhigh : lead.toNat = 0xED → b.toNat ≤ 0x9F) :
    String.utf8EncodeChar (assemble lead [b, c]) = [lead, b, c] := by
  let code := 64 * (64 * (lead.toNat - 0xE0) + (b.toNat - 0x80)) + (c.toNat - 0x80)
  change String.utf8EncodeChar (.ofNat code) = _
  have hvalid : code < 55296 ∨ 57343 < code ∧ code < 1114112 := by omega
  have hmany : ¬ code ≤ 2047 := by omega
  clear hlow hhigh
  have hfirst : code / 4096 % 16 + 224 = lead.toNat := by omega
  have hsecond : code / 64 % 64 + 128 = b.toNat := by omega
  have hthird : code % 64 + 128 = c.toNat := by omega
  rw [utf8EncodeChar_ofNat hvalid, if_neg (by omega), if_neg hmany, if_pos (by omega),
    ofNat_eq hfirst, ofNat_eq hsecond, ofNat_eq hthird]

theorem utf8EncodeChar_four (hd : 0x80 ≤ d.toNat ∧ d.toNat ≤ 0xBF)
    (hlead : 0xF0 ≤ lead.toNat ∧ lead.toNat ≤ 0xF4)
    (hlow : lead.toNat = 0xF0 → 0x90 ≤ b.toNat) (hhigh : lead.toNat = 0xF4 → b.toNat ≤ 0x8F) :
    String.utf8EncodeChar (assemble lead [b, c, d]) = [lead, b, c, d] := by
  let code := 64 * (64 * (64 * (lead.toNat - 0xF0) + (b.toNat - 0x80)) + (c.toNat - 0x80)) +
    (d.toNat - 0x80)
  change String.utf8EncodeChar (.ofNat code) = _
  have hvalid : 65535 < code ∧ code < 1114112 := by omega
  clear hlow hhigh
  have hfirst : code / 262144 % 8 + 240 = lead.toNat := by omega
  have hsecond : code / 4096 % 64 + 128 = b.toNat := by omega
  have hthird : code / 64 % 64 + 128 = c.toNat := by omega
  have hfourth : code % 64 + 128 = d.toNat := by omega
  rw [utf8EncodeChar_ofNat (Or.inr ⟨by omega, hvalid.2⟩), if_neg (by omega), if_neg (by omega),
    if_neg (by omega), ofNat_eq hfirst, ofNat_eq hsecond, ofNat_eq hthird, ofNat_eq hfourth]

end Sequences

/-- A complete sequence is the one that its character is written with. The cases
are the lengths. -/
theorem utf8EncodeChar_assemble {n : Nat} (hlead : followers lead = some n)
    (hcomplete : (continuation lead n bytes).length = n) :
    String.utf8EncodeChar (assemble lead (continuation lead n bytes)) =
      lead :: continuation lead n bytes := by
  have hrange := followers_range hlead
  cases hrest : continuation lead n bytes with
  | nil =>
      rw [hrest, List.length_nil] at hcomplete
      change String.utf8EncodeChar (.ofNat lead.toNat) = _
      rw [utf8EncodeChar_ofNat (Or.inl (by omega)), if_pos (by omega), UInt8.ofNat_toNat]
  | cons b later =>
      obtain ⟨hcan, hlater⟩ := continuation_range hrest
      obtain ⟨hlow, hhigh, hthree, hsurrogates, hfour, hlast⟩ := canFollow_range hcan
      rw [hrest] at hcomplete
      match later, hlater with
      | [], _ =>
          obtain rfl : 1 = n := hcomplete
          exact utf8EncodeChar_two ⟨hlow, hhigh⟩ (by omega)
      | [c], hlater =>
          obtain rfl : 2 = n := hcomplete
          exact utf8EncodeChar_three ⟨hlow, hhigh⟩ (isContinuation_range (hlater c (by simp)))
            (by omega) hthree hsurrogates
      | [c, d], hlater =>
          obtain rfl : 3 = n := hcomplete
          exact utf8EncodeChar_four ⟨hlow, hhigh⟩ (isContinuation_range (hlater c (by simp)))
            (isContinuation_range (hlater d (by simp)))
            (by omega) hfour hlast
      | _ :: _ :: _ :: _, _ =>
          simp only [List.length_cons] at hcomplete
          omega

/-- The induction is on the sequences. -/
theorem flatMap_of_decode {chars : List Char} (hread : (decode bytes).mapM id = some chars) :
    chars.flatMap String.utf8EncodeChar = bytes := by
  fun_induction decode bytes generalizing chars with
  | case1 =>
      obtain rfl : [] = chars := by simpa using hread
      rfl
  | case2 lead bytes hnone ih => simp at hread
  | case3 lead bytes n hlead rest hcomplete =>
      rename_i ih
      simp only [List.mapM_cons, id_eq, Option.bind_eq_bind, Option.pure_def,
        Option.bind_some, Option.bind_eq_some_iff, Option.some.injEq] at hread
      obtain ⟨later, hlater, rfl⟩ := hread
      have hsplit : rest ++ bytes.drop rest.length = bytes :=
        List.prefix_iff_eq_append.mp (continuation_starts lead n bytes)
      rw [List.flatMap_cons, utf8EncodeChar_assemble hlead hcomplete, ih hlater, List.cons_append,
        hsplit]
  | case4 lead bytes n hlead rest hshort => simp at hread

/-- What is read strictly is written as it was. -/
theorem encode_of_text? {text : String} (hread : text? bytes = some text) :
    encode text = bytes := by
  obtain ⟨chars, hchars, rfl⟩ := Option.map_eq_some_iff.mp hread
  rw [encode_ofList, flatMap_of_decode hchars]

end Reading

end MediaCatalog.Text.Utf8
