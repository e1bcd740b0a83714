import QueryExpr.Fingerprint.Encoding
import QueryExpr.Fingerprint.Sha256

/-!
# QueryExpr.Fingerprint

Fingerprints of plans: the digest of their bytes, as a text of sixty-four digits.
-/

namespace QueryExpr

def hexDigits : List Char :=
  ['0', '1', '2', '3', '4', '5', '6', '7', '8', '9', 'a', 'b', 'c', 'd', 'e', 'f']

/-- The two digits of a byte. -/
def byteDigits (b : UInt8) : List Char :=
  [hexDigits.getD (b.toNat / 16) '0', hexDigits.getD (b.toNat % 16) '0']

def Plan.fingerprint (p : Plan) : String :=
  String.ofList ((Sha256.digest p.bytes).flatMap byteDigits)

end QueryExpr
