import TxGraph.Pure.Kind
import TxGraph.Pure.Literal

/-!
# Causes of encoding failures

What can go wrong between a value and its bytes, and what a transaction has no room for.
-/

namespace TxGraph

/-- The resources of a transaction that are counted by 16-bit indices. -/
inductive Limited
  | inputs
  | commands
  | results
  deriving DecidableEq, Repr

def Limited.name : Limited → String
  | inputs => "inputs"
  | commands => "commands"
  | results => "results per command"

/-- The parts of an encoded value. -/
inductive EncodedPart
  | lengthMark
  | bool
  | string
  | integer (width : Width)
  | address
  deriving DecidableEq, Repr

def EncodedPart.name : EncodedPart → String
  | lengthMark => "a length prefix"
  | bool => "bool"
  | string => "string"
  | integer width => width.name
  | address => "address"

/-- What makes bytes no encoding of a type. -/
inductive Malformation
  | boolByte
  | lengthTooLong
  | lengthNotMinimal
  | lengthTooLarge
  | exceeded (length : Nat)
  | notText
  deriving DecidableEq, Repr

/-- How a length that is not allowed is reported. -/
def exceededMessage (length : Nat) : String :=
  "exceeded max sequence length: " ++ toString length

def Malformation.message : Malformation → String
  | boolByte => "bool byte is neither 0 nor 1"
  | lengthTooLong => "vector length exceeds the input"
  | lengthNotMinimal => "ULEB128 encoding was not minimal in size"
  | lengthTooLarge => "ULEB128-encoded integer did not fit in the target size"
  | exceeded length => exceededMessage length
  | notText => "malformed utf8"

inductive EncodeError
  | invalidNumber (digits : String) (width : Width)
  | invalidAddress (text : String)
  | kindMismatch (kind : ParamKind) (value : Literal)
  | kindNotPure (kind : ParamKind)
  | typeNotPure (spelling : String)
  | emptyVector
  | truncated (part : EncodedPart)
  | trailingBytes (count : Nat)
  | malformed (spelling : String) (cause : Malformation)
  | lengthOverflow
  | tooMany (what : Limited)
  deriving DecidableEq, Repr

/-- How many of each resource a transaction holds at most. -/
def Limited.limit : Nat := 65536

def EncodeError.message : EncodeError → String
  | invalidNumber digits width => "'" ++ digits ++ "' is not a valid " ++ width.name ++ " value"
  | invalidAddress text => "'" ++ text ++ "' is not a valid 32-byte address"
  | kindMismatch kind value => "Cannot encode " ++ value.display ++ " as " ++ kind.display
  | kindNotPure kind => "Values of kind " ++ kind.display ++ " have no pure encoding"
  | typeNotPure spelling => "Values of kind " ++ spelling ++ " have no pure encoding"
  | emptyVector => "Values of kind an empty vector of unknown element type have no pure encoding"
  | truncated part => "Pure bytes ended early while reading " ++ part.name
  | trailingBytes count => toString count ++ " trailing bytes after the decoded value"
  | malformed spelling cause =>
    "Pure bytes are not valid for " ++ spelling ++ ": " ++ cause.message
  | lengthOverflow => "Pure bytes are not valid for vector: length prefix overflows"
  | tooMany what =>
    "A transaction holds at most " ++ toString Limited.limit ++ " " ++ what.name

end TxGraph
