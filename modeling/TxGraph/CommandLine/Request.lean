import TxGraph.Text.Basic

/-!
# Requests

What the command line asks for. A request has one operand. Options stand anywhere after the name
of the request, with their value as the next word or after an equals sign, and each at most once;
after a double hyphen every word is an operand. Words are read from the left, and the first that
does not fit decides.
-/

namespace TxGraph.CommandLine

/-- Settings that override those of a document. -/
structure Settings where
  sender : Option String
  gasBudget : Option UInt64
  deriving DecidableEq, Repr

inductive Request
  | compile (document : String) (artifact : Option String)
  | emit (document : String) (settings : Settings)
  | build (document : String) (settings : Settings)
  | decode (transaction : String) (signatures : Option String) (chain : String)
  | validate (document : String)
  | help
  | version
  deriving DecidableEq, Repr

/-! ## Words -/

/-- An option by its name, and by its letter where it has one. -/
structure OptionName where
  name : String
  letter : Option Char
  /-- Whether its value is a 64-bit number. -/
  isNumber : Bool
  deriving DecidableEq, Repr

def number? (digits : String) : Option UInt64 :=
  (Text.natUpTo? Word.max64 digits.toList).map UInt64.ofNat

/-- The words read so far. -/
structure Words where
  operand : Option String
  options : List (String × String)
  deriving DecidableEq, Repr

namespace Words

def empty : Words := ⟨none, []⟩

def withOperand? (w : Words) (operand : String) : Option Words :=
  if w.operand.isSome then none else some { w with operand := some operand }

def withOption? (w : Words) (o : OptionName) (value : String) : Option Words :=
  if (w.options.lookup o.name).isSome then none
  else if o.isNumber && (number? value).isNone then none
  else some { w with options := (o.name, value) :: w.options }

end Words

/-- Splits a word at the first equals sign. -/
def splitEquals (cs : List Char) : String × Option String :=
  match cs.dropWhile (· != '=') with
  | [] => (String.ofList cs, none)
  | _ :: value => (String.ofList (cs.takeWhile (· != '=')), some (String.ofList value))

/-- The value that a letter has in its own word. -/
def attached? : List Char → Option String
  | [] => none
  | '=' :: value => some (String.ofList value)
  | value => some (String.ofList value)

/-- Whether a word can stand for the value of an option. -/
def isValue (word : String) : Bool :=
  match word.toList with
  | '-' :: _ :: _ => false
  | _ => true

/-- What a word is. -/
inductive WordKind
  | operand
  /-- The end of the options. -/
  | divider
  | help
  /-- An option, with its value if that is part of the word. -/
  | option (o : OptionName) (value : Option String)
  | stranger
  deriving DecidableEq, Repr

def WordKind.of (known : List OptionName) (word : String) : WordKind :=
  match word.toList with
  | ['-', '-'] => divider
  | '-' :: '-' :: cs =>
    let (name, value) := splitEquals cs
    match known.find? fun o => o.name == name with
    | some o => option o value
    | none => if name = "help" ∧ value = none then help else stranger
  | '-' :: letter :: cs =>
    match known.find? fun o => o.letter == some letter with
    | some o => option o (attached? cs)
    | none => if letter = 'h' then help else stranger
  | _ => operand

/-- What the words after the name of a request come to. -/
inductive Reading
  | help
  | words (w : Words)
  | none
  deriving DecidableEq, Repr

def Reading.ofOption : Option Words → Reading
  | some w => words w
  | Option.none => none

/-- Reads the words after the name of a request. -/
def readWords (known : List OptionName) (w : Words) : List String → Reading
  | [] => .words w
  | word :: rest =>
    match WordKind.of known word with
    | .operand =>
      match w.withOperand? word with
      | some w => readWords known w rest
      | none => .none
    | .divider => .ofOption (rest.foldlM Words.withOperand? w)
    | .help => .help
    | .stranger => .none
    | .option o (some value) =>
      match w.withOption? o value with
      | some w => readWords known w rest
      | none => .none
    | .option o none =>
      match rest with
      | [] => .none
      | value :: rest =>
        if isValue value then
          match w.withOption? o value with
          | some w => readWords known w rest
          | none => .none
        else .none

/-! ## Requests -/

def artifactOption : OptionName := ⟨"artifact", none, false⟩

def senderOption : OptionName := ⟨"sender", none, false⟩

def budgetOption : OptionName := ⟨"gas-budget", none, true⟩

def signaturesOption : OptionName := ⟨"signatures", some 's', false⟩

def chainOption : OptionName := ⟨"chain", none, false⟩

/-- The chain of a decoded document for which none is given. -/
def defaultChain : String := "sui:mainnet"

/-- A request for one operand and some options. -/
def request? (known : List OptionName) (args : List String)
    (f : (operand : String) → (value : OptionName → Option String) → Request) : Option Request :=
  match readWords known .empty args with
  | .help => some .help
  | .none => none
  | .words w => w.operand.map fun operand => f operand fun o => w.options.lookup o.name

def settingsOf (value : OptionName → Option String) : Settings :=
  ⟨value senderOption, value budgetOption >>= number?⟩

/-- The names of requests. -/
def requestNames : List String := ["compile", "emit", "build", "decode", "validate", "help"]

/-- Whether there is help on the words after a request for it: at most the name of one request. -/
def isHelpTopic : List String → Bool
  | [] => true
  | [name] => requestNames.contains name
  | _ => false

/-- The request that arguments make; none for arguments that make none. -/
def Request.ofArgs? : List String → Option Request
  | "compile" :: args =>
    request? [artifactOption] args fun document value => .compile document (value artifactOption)
  | "emit" :: args =>
    request? [senderOption, budgetOption] args fun document value =>
      .emit document (settingsOf value)
  | "build" :: args =>
    request? [senderOption, budgetOption] args fun document value =>
      .build document (settingsOf value)
  | "decode" :: args =>
    request? [signaturesOption, chainOption] args fun transaction value =>
      .decode transaction (value signaturesOption) ((value chainOption).getD defaultChain)
  | "validate" :: args => request? [] args fun document _ => .validate document
  | "help" :: topic => if isHelpTopic topic then some .help else none
  | "--help" :: _ => some .help
  | "-h" :: _ => some .help
  | "--version" :: _ => some .version
  | "-V" :: _ => some .version
  | _ => none

end TxGraph.CommandLine
