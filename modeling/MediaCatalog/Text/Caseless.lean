/-!
Comparison of texts without regard to the case of ASCII letters. The order is that
of the folded UTF-8 bytes, which is also the order of the folded code points.

A NUL that stands at the same place in both texts ends the comparison: what
follows it decides by its length alone.
-/

namespace MediaCatalog.Text

def fold (c : Char) : Char :=
  c.toLower

def utf8Length (cs : List Char) : Nat :=
  cs.foldl (fun n c => n + c.utf8Size) 0

def compareFolded : List Char → List Char → Ordering
  | [], [] => .eq
  | [], _ :: _ => .lt
  | _ :: _, [] => .gt
  | a :: as, b :: bs =>
      if a = '\x00' ∧ b = '\x00' then
        compare (utf8Length as) (utf8Length bs)
      else
        (compare (fold a).toNat (fold b).toNat).then (compareFolded as bs)

def compareCaseless (s t : String) : Ordering :=
  compareFolded s.toList t.toList

def sameCaseless (s t : String) : Bool :=
  compareCaseless s t == .eq

/-- The rest of a text that begins with `lower`, a text in small letters, in
whatever case. -/
def afterCaseless : (lower text : List Char) → Option (List Char)
  | [], text => some text
  | _ :: _, [] => none
  | l :: lower, c :: text =>
      if fold c = l then afterCaseless lower text else none

def isCaseless (lower text : String) : Bool :=
  afterCaseless lower.toList text.toList == some []

end MediaCatalog.Text
