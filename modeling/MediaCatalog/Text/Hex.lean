namespace MediaCatalog.Text

def hexDigit (n : Nat) : Char :=
  "0123456789abcdef".toList.getD n '0'

def hexOfByte (b : UInt8) : List Char :=
  [hexDigit (b.toNat / 16), hexDigit (b.toNat % 16)]

def hex (bytes : List UInt8) : String :=
  .ofList (bytes.flatMap hexOfByte)

end MediaCatalog.Text
