import TxGraph.Bytes.Hex
import TxGraph.Text.Extend
import TxGraph.Text.Printable

/-!
# Quoted text

Texts inside listings and messages stand in double quotes. The quote, the backslash, line breaks,
tabs and NUL have short escapes; a character without a visible form of its own is written by its
code point. Literals of a script stand in single quotes. There quotes, backslashes and characters
that could end a line are escaped, so no text can end its literal.
-/

namespace TxGraph.Text

/-! ## Double quotes -/

/-- Lower-case hexadecimal digits without leading zeros. -/
def hexDigits (n : Nat) : List Char :=
  Nat.toDigits 16 n

/-- The written form of one character between double quotes. -/
def quoteChar (c : Char) : List Char :=
  if c == '"' then ['\\', '"']
  else if c == '\\' then ['\\', '\\']
  else if c == '\n' then ['\\', 'n']
  else if c == '\r' then ['\\', 'r']
  else if c == '\t' then ['\\', 't']
  else if c == '\x00' then ['\\', '0']
  else if isExtend c || !isPrintable c then
    ['\\', 'u', '\x7b'] ++ hexDigits c.toNat ++ ['\x7d']
  else [c]

/-- The text in double quotes, on one line and in visible characters. -/
def quoted (s : String) : String :=
  String.ofList ('"' :: s.toList.flatMap quoteChar ++ ['"'])

/-! ## Single quotes -/

/-- Controls, and the two separators that also end a line. -/
def isUnquotable (c : Char) : Bool :=
  c.toNat < 0x20 || (0x7f ≤ c.toNat && c.toNat < 0xa0) || c.toNat == 0x2028 || c.toNat == 0x2029

/-- The four hexadecimal digits of a number below `0x10000`. -/
def fourHex (n : Nat) : List Char :=
  [n / 4096 % 16, n / 256 % 16, n / 16 % 16, n % 16].map Hex.digit

def singleQuoteChar (c : Char) : List Char :=
  if c = '\x27' then ['\\', '\x27']
  else if c = '\\' then ['\\', '\\']
  else if c = '\n' then ['\\', 'n']
  else if c = '\r' then ['\\', 'r']
  else if c = '\t' then ['\\', 't']
  else if isUnquotable c then '\\' :: 'u' :: fourHex c.toNat
  else [c]

def singleQuoted (s : String) : String :=
  String.ofList ('\x27' :: s.toList.flatMap singleQuoteChar ++ ['\x27'])

end TxGraph.Text
