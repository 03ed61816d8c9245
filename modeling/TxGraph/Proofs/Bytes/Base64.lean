import TxGraph.Bytes.Base64

/-!
# Base64 text reads back

Bytes are read back from their base64 text, whatever is left over after the whole groups of three.
-/

namespace TxGraph.Base64

theorem digitValue?_digit {n : Nat} (h : n < 64) : digitValue? (digit n) = some n := by
  have table : ∀ n < 64, digitValue? (digit n) = some n := by decide
  exact table n h

theorem digit_ne_pad {n : Nat} (h : n < 64) : digit n ≠ '=' := by
  have table : ∀ n < 64, digit n ≠ '=' := by decide
  exact table n h

theorem decodeOne?_encode (a : UInt8) :
    decodeOne? (digit (a.toNat * 16 / 64)) (digit (a.toNat * 16 % 64)) = some [a] := by
  have ha : a.toNat < 256 := a.toNat_lt
  have hvalue : a.toNat * 16 / 64 * 64 + a.toNat * 16 % 64 = a.toNat * 16 := by omega
  simp [decodeOne?, digitValue?_digit (show a.toNat * 16 / 64 < 64 by omega),
    digitValue?_digit (show a.toNat * 16 % 64 < 64 by omega), hvalue]

theorem decodeTwo?_encode (a b : UInt8) :
    let n := (a.toNat * 256 + b.toNat) * 4
    decodeTwo? (digit (n / 4096)) (digit (n / 64 % 64)) (digit (n % 64)) = some [a, b] := by
  intro n
  have ha : a.toNat < 256 := a.toNat_lt
  have hb : b.toNat < 256 := b.toNat_lt
  have hvalue : (n / 4096 * 64 + n / 64 % 64) * 64 + n % 64 = n := by omega
  have hfirst : n / 1024 = a.toNat := by omega
  have hsecond : n / 4 % 256 = b.toNat := by omega
  have hzero : n % 4 = 0 := by omega
  simp [decodeTwo?, digitValue?_digit (show n / 4096 < 64 by omega),
    digitValue?_digit (show n / 64 % 64 < 64 by omega),
    digitValue?_digit (show n % 64 < 64 by omega), hvalue, hfirst, hsecond, hzero]

theorem decodeThree?_encode (a b c : UInt8) :
    let n := (a.toNat * 256 + b.toNat) * 256 + c.toNat
    decodeThree? (digit (n / 262144)) (digit (n / 4096 % 64)) (digit (n / 64 % 64))
      (digit (n % 64)) = some [a, b, c] := by
  intro n
  have ha : a.toNat < 256 := a.toNat_lt
  have hb : b.toNat < 256 := b.toNat_lt
  have hc : c.toNat < 256 := c.toNat_lt
  have hvalue : ((n / 262144 * 64 + n / 4096 % 64) * 64 + n / 64 % 64) * 64 + n % 64 = n := by omega
  have hfirst : n / 65536 = a.toNat := by omega
  have hsecond : n / 256 % 256 = b.toNat := by omega
  have hthird : n % 256 = c.toNat := by omega
  simp [decodeThree?, digitValue?_digit (show n / 262144 < 64 by omega),
    digitValue?_digit (show n / 4096 % 64 < 64 by omega),
    digitValue?_digit (show n / 64 % 64 < 64 by omega),
    digitValue?_digit (show n % 64 < 64 by omega), hvalue, hfirst, hsecond, hthird]

theorem decodeChars_group {a b c d : Char} (hd : d ≠ '=') (rest : List Char) :
    decodeChars (a :: b :: c :: d :: rest) = (do
      let group ← decodeThree? a b c d
      let bytes ← decodeChars rest
      return group ++ bytes) := by
  rw [decodeChars]
  · exact fun _ h _ => hd h
  · exact fun h _ => hd h

theorem decodeChars_encodeChars : (bs : Bytes) → decodeChars (encodeChars bs) = some bs
  | [] => rfl
  | [a] => by rw [encodeChars, decodeChars, decodeOne?_encode]
  | [a, b] => by
    have hpad : digit ((a.toNat * 256 + b.toNat) * 4 % 64) ≠ '=' := digit_ne_pad (by omega)
    rw [encodeChars, decodeChars, decodeTwo?_encode]
    exact fun h => hpad h
  | a :: b :: c :: rest => by
    have hpad : digit (((a.toNat * 256 + b.toNat) * 256 + c.toNat) % 64) ≠ '=' :=
      digit_ne_pad (by omega)
    rw [encodeChars, decodeChars_group hpad, decodeThree?_encode, decodeChars_encodeChars rest]
    rfl

theorem decode?_encode (bs : Bytes) : decode? (encode bs) = some bs := by
  rw [decode?, encode, String.toList_ofList, decodeChars_encodeChars]

end TxGraph.Base64
