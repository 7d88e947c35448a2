/-!
Reading bytes as UTF-8. Where no well-formed sequence starts, the longest beginning
of one, or else a single byte, is read as one fault.
-/

namespace MediaCatalog.Text.Utf8

/-- How many bytes follow a first byte, if it can be one. -/
def followers (lead : UInt8) : Option Nat :=
  if lead < 0x80 then some 0
  else if 0xC2 ≤ lead && lead ≤ 0xDF then some 1
  else if 0xE0 ≤ lead && lead ≤ 0xEF then some 2
  else if 0xF0 ≤ lead && lead ≤ 0xF4 then some 3
  else none

/-- Whether `b` may be the second byte after `lead`. The narrower ranges shut
out overlong forms, surrogates and numbers past the last code point. -/
def canFollow (lead b : UInt8) : Bool :=
  if lead = 0xE0 then 0xA0 ≤ b && b ≤ 0xBF
  else if lead = 0xED then 0x80 ≤ b && b ≤ 0x9F
  else if lead = 0xF0 then 0x90 ≤ b && b ≤ 0xBF
  else if lead = 0xF4 then 0x80 ≤ b && b ≤ 0x8F
  else 0x80 ≤ b && b ≤ 0xBF

def isContinuation (b : UInt8) : Bool :=
  0x80 ≤ b && b ≤ 0xBF

/-- The bytes after `lead`, `n` at most, that continue its sequence. -/
def continuation (lead : UInt8) (n : Nat) : List UInt8 → List UInt8
  | [] => []
  | b :: bytes =>
      if 0 < n && canFollow lead b then
        b :: (bytes.take (n - 1)).takeWhile isContinuation
      else
        []

def assemble (lead : UInt8) (rest : List UInt8) : Char :=
  let head := match rest.length with
    | 0 => lead.toNat
    | 1 => lead.toNat - 0xC0
    | 2 => lead.toNat - 0xE0
    | _ => lead.toNat - 0xF0
  .ofNat (rest.foldl (fun n b => 64 * n + (b.toNat - 0x80)) head)

/-- The characters of a byte sequence, with `none` for each fault. -/
def decode : List UInt8 → List (Option Char)
  | [] => []
  | lead :: bytes =>
      match followers lead with
      | none => none :: decode bytes
      | some n =>
          let rest := continuation lead n bytes
          if rest.length = n then
            some (assemble lead rest) :: decode (bytes.drop rest.length)
          else
            none :: decode (bytes.drop rest.length)
termination_by bytes => bytes.length
decreasing_by all_goals simp only [List.length_cons, List.length_drop]; omega

def text? (bytes : List UInt8) : Option String :=
  (decode bytes).mapM id |>.map .ofList

def shown (bytes : List UInt8) : String :=
  .ofList ((decode bytes).map fun c => c.getD '\uFFFD')

def encode (s : String) : List UInt8 :=
  s.toUTF8.toList

end MediaCatalog.Text.Utf8
