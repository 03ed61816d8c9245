import Mathlib.Data.Bool.AllAny
import TxGraph.Proofs.Address
import TxGraph.Text.Quoted

/-!
# String literals

A lexer of the string literals of scripts, in either kind of quotes. A literal stands for UTF-16
units: it may hold any character but its quote, a backslash and a line break, and the escapes that
modules allow (octal ones are not). A text between single quotes is read back as it is, whatever
comes after it (`lex_singleQuoted`), and no quote inside it is bare (`isBare_iff`).
-/

namespace TxGraph.Text

variable {quote c : Char} {found : List UInt16} {cs ds : List Char}

/-! ## UTF-16 -/

def unitsOf (n : Nat) : List UInt16 :=
  if n < 0x10000 then [UInt16.ofNat n]
  else [UInt16.ofNat (0xd800 + (n - 0x10000) / 0x400), UInt16.ofNat (0xdc00 + (n - 0x10000) % 0x400)]

def units (cs : List Char) : List UInt16 :=
  cs.flatMap fun c => unitsOf c.toNat

/-- A unit that is the first or the second half of a character. -/
def isFirstHalf (u : UInt16) : Bool := 0xd800 ≤ u.toNat && u.toNat < 0xdc00

def isSecondHalf (u : UInt16) : Bool := 0xdc00 ≤ u.toNat && u.toNat < 0xe000

/-- The text of some units, if no half stands alone. -/
def ofUnits? : List UInt16 → Option (List Char)
  | [] => some []
  | [u] => if isFirstHalf u || isSecondHalf u then none else some [Char.ofNat u.toNat]
  | u :: v :: rest =>
    if isFirstHalf u then
      if isSecondHalf v then
        (ofUnits? rest).map
          (Char.ofNat (0x10000 + (u.toNat - 0xd800) * 0x400 + (v.toNat - 0xdc00)) :: ·)
      else none
    else if isSecondHalf u then none
    else (ofUnits? (v :: rest)).map (Char.ofNat u.toNat :: ·)

theorem ofUnits?_unitsOf (c : Char) (rest : List UInt16) :
    ofUnits? (unitsOf c.toNat ++ rest) = (ofUnits? rest).map (c :: ·) := by
  have hvalid : c.toNat < 0xd800 ∨ 0xdfff < c.toNat ∧ c.toNat < 0x110000 := c.valid
  have hword {n : Nat} (h : n < 0x10000) : (UInt16.ofNat n).toNat = n := UInt16.toNat_ofNat_of_lt' h
  rw [unitsOf]
  split
  case isTrue hsmall =>
    have hfirst : isFirstHalf (UInt16.ofNat c.toNat) = false := by
      simp only [isFirstHalf, hword hsmall, Bool.and_eq_false_iff, decide_eq_false_iff_not]
      omega
    have hsecond : isSecondHalf (UInt16.ofNat c.toNat) = false := by
      simp only [isSecondHalf, hword hsmall, Bool.and_eq_false_iff, decide_eq_false_iff_not]
      omega
    cases rest with
    | nil => simp [ofUnits?, hfirst, hsecond, hword hsmall]
    | cons u rest => simp [ofUnits?, hfirst, hsecond, hword hsmall]
  case isFalse hlarge =>
    have hu := hword (show 0xd800 + (c.toNat - 0x10000) / 0x400 < 0x10000 by omega)
    have hv := hword (show 0xdc00 + (c.toNat - 0x10000) % 0x400 < 0x10000 by omega)
    have hfirst : isFirstHalf (UInt16.ofNat (0xd800 + (c.toNat - 0x10000) / 0x400)) = true := by
      simp only [isFirstHalf, hu, Bool.and_eq_true, decide_eq_true_eq]
      omega
    have hsecond : isSecondHalf (UInt16.ofNat (0xdc00 + (c.toNat - 0x10000) % 0x400)) = true := by
      simp only [isSecondHalf, hv, Bool.and_eq_true, decide_eq_true_eq]
      omega
    have hjoin : 0x10000 + (0xd800 + (c.toNat - 0x10000) / 0x400 - 0xd800) * 0x400 +
        (0xdc00 + (c.toNat - 0x10000) % 0x400 - 0xdc00) = c.toNat := by omega
    rw [List.cons_append, List.singleton_append, ofUnits?, if_pos hfirst, if_pos hsecond, hu, hv,
      hjoin, Char.ofNat_toNat]

theorem ofUnits?_units (cs : List Char) : ofUnits? (units cs) = some cs := by
  induction cs with
  | nil => rfl
  | cons c cs ih => rw [units, List.flatMap_cons, ofUnits?_unitsOf, ← units, ih, Option.map_some]

/-! ## The lexer -/

/-- Where in a literal the lexer is. -/
inductive LexMode
  | plain
  /-- After a backslash. -/
  | escape
  /-- After an escaped zero, which no digit may follow. -/
  | zero
  /-- After an escaped carriage return, which ends a line alone or with a line feed. -/
  | carriageReturn
  /-- Before `more + 1` hexadecimal digits of a unit. -/
  | hex (more value : Nat)
  /-- After the mark of a unit of four digits or of a code point in braces. -/
  | unicode
  /-- Inside the braces of a code point. -/
  | codePoint (value : Option Nat)

inductive LexStep
  | stop
  | refuse
  | go (found : List UInt16) (mode : LexMode)

def lineTerminators : List Char :=
  ['\n', '\r', '\u2028', '\u2029']

/-- A separator is allowed inside a literal as it is. -/
def plainStep (quote c : Char) : LexStep :=
  if c = quote then .stop
  else if c = '\\' then .go [] .escape
  else if c = '\n' ∨ c = '\r' then .refuse
  else .go (unitsOf c.toNat) .plain

/-- What a character stands for after a backslash. -/
def escaped (c : Char) : Nat :=
  match c with
  | 'b' => 0x08
  | 't' => 0x09
  | 'n' => 0x0a
  | 'v' => 0x0b
  | 'f' => 0x0c
  | 'r' => 0x0d
  | _ => c.toNat

def escapeStep (c : Char) : LexStep :=
  if c = 'x' then .go [] (.hex 1 0)
  else if c = 'u' then .go [] .unicode
  else if c = '0' then .go [0] .zero
  else if c.isDigit then .refuse
  else if c = '\r' then .go [] .carriageReturn
  else if c ∈ lineTerminators then .go [] .plain
  else .go (unitsOf (escaped c)) .plain

def hexStep (more value : Nat) (c : Char) : LexStep :=
  match Hex.digitValue? c, more with
  | none, _ => .refuse
  | some d, 0 => .go [UInt16.ofNat (16 * value + d)] .plain
  | some d, more + 1 => .go [] (.hex more (16 * value + d))

/-- One more hexadecimal digit of a code point, or the brace at its end. -/
def codePointStep (value : Option Nat) (c : Char) : LexStep :=
  if c = '\x7d' then value.elim .refuse fun n => .go (unitsOf n) .plain
  else
    match Hex.digitValue? c with
    | none => .refuse
    | some d =>
      let n := 16 * value.getD 0 + d
      if n ≤ 0x10ffff then .go [] (.codePoint (some n)) else .refuse

def lexStep (quote : Char) : LexMode → Char → LexStep
  | .plain, c => plainStep quote c
  | .escape, c => escapeStep c
  | .zero, c => if c.isDigit then .refuse else plainStep quote c
  | .carriageReturn, c => if c = '\n' then .go [] .plain else plainStep quote c
  | .hex more value, c => hexStep more value c
  | .unicode, c => if c = '\x7b' then .go [] (.codePoint none) else hexStep 3 0 c
  | .codePoint value, c => codePointStep value c

/-- The units up to the closing quote, and the characters after it. -/
def lexFrom (quote : Char) : LexMode → List Char → Option (List UInt16 × List Char)
  | _, [] => none
  | mode, c :: cs =>
    match lexStep quote mode c with
    | .stop => some ([], cs)
    | .refuse => none
    | .go found mode => (lexFrom quote mode cs).map fun r => (found ++ r.1, r.2)

/-- A string literal at the front of the characters: its units, and the characters after it. -/
def lex (quote : Char) : List Char → Option (List UInt16 × List Char)
  | [] => none
  | c :: cs => if c = quote then lexFrom quote .plain cs else none

/-! ## What is read as what -/

theorem lexFrom_go {mode next : LexMode} (h : lexStep quote mode c = .go found next)
    (cs : List Char) :
    lexFrom quote mode (c :: cs) = (lexFrom quote next cs).map fun r => (found ++ r.1, r.2) := by
  rw [lexFrom, h]

/-- The characters are read as the units, and plain characters may follow. -/
def Reads (quote : Char) (cs : List Char) (found : List UInt16) : Prop :=
  ∀ rest, lexFrom quote .plain (cs ++ rest) =
    (lexFrom quote .plain rest).map fun r => (found ++ r.1, r.2)

theorem Reads.append {more : List UInt16} (h : Reads quote cs found) (h' : Reads quote ds more) :
    Reads quote (cs ++ ds) (found ++ more) := by
  intro rest
  rw [List.append_assoc, h, h', Option.map_map]
  simp [Function.comp_def]

theorem reads_nil (quote : Char) : Reads quote [] [] := by
  intro rest
  simp

/-- What each character is written as is read as its units; so is the whole text. -/
theorem reads_flatMap {write : Char → List Char} (h : ∀ c, Reads quote (write c) (unitsOf c.toNat))
    (cs : List Char) : Reads quote (cs.flatMap write) (units cs) := by
  induction cs with
  | nil => exact reads_nil quote
  | cons c cs ih =>
    rw [List.flatMap_cons, units, List.flatMap_cons]
    exact (h c).append ih

theorem Reads.lex (h : Reads quote cs found) (rest : List Char) :
    lex quote (quote :: (cs ++ quote :: rest)) = some (found, rest) := by
  have hstop : lexFrom quote .plain (quote :: rest) = some ([], rest) := by
    simp [lexFrom, lexStep, plainStep]
  rw [Text.lex, if_pos rfl, h, hstop, Option.map_some, List.append_nil]

theorem reads_plain (hquote : c ≠ quote) (hslash : c ≠ '\\') (hfeed : c ≠ '\n')
    (hreturn : c ≠ '\r') : Reads quote [c] (unitsOf c.toNat) := by
  intro rest
  refine lexFrom_go ?_ rest
  simp [lexStep, plainStep, hquote, hslash, hfeed, hreturn]

section

variable {quote : Char} (hquote : quote ≠ '\\')

include hquote

theorem lexFrom_backslash (cs : List Char) :
    lexFrom quote .plain ('\\' :: cs) = lexFrom quote .escape cs := by
  have hstep : lexStep quote .plain '\\' = .go [] .escape := by
    simp [lexStep, plainStep, hquote.symm]
  rw [lexFrom_go hstep]
  simp

theorem reads_escape {c : Char} {found : List UInt16} (h : escapeStep c = .go found .plain) :
    Reads quote ['\\', c] found := by
  intro rest
  have hstep : lexStep quote .escape c = .go found .plain := h
  rw [List.cons_append, lexFrom_backslash hquote]
  exact lexFrom_go hstep rest

theorem reads_fourHex {n : Nat} (h : n < 0x10000) :
    Reads quote ('\\' :: 'u' :: fourHex n) (unitsOf n) := by
  intro rest
  have hdigit (k : Nat) : Hex.digitValue? (Hex.digit (k % 16)) = some (k % 16) :=
    Hex.digitValue?_digit (Nat.mod_lt _ (by decide))
  have hmark : lexStep quote .escape 'u' = .go [] .unicode := rfl
  have hfirst : lexStep quote .unicode (Hex.digit (n / 4096 % 16)) =
      .go [] (.hex 2 (n / 4096 % 16)) := by
    have hbrace : Hex.digit (n / 4096 % 16) ≠ '\x7b' := by
      intro heq
      have := hdigit (n / 4096)
      rw [heq] at this
      cases this
    simp [lexStep, hbrace, hexStep, hdigit]
  have hmore (more value k : Nat) : lexStep quote (.hex (more + 1) value) (Hex.digit (k % 16)) =
      .go [] (.hex more (16 * value + k % 16)) := by
    simp [lexStep, hexStep, hdigit]
  have hlast (value k : Nat) : lexStep quote (.hex 0 value) (Hex.digit (k % 16)) =
      .go [UInt16.ofNat (16 * value + k % 16)] .plain := by
    simp [lexStep, hexStep, hdigit]
  have hvalue : 16 * (16 * (16 * (n / 4096 % 16) + n / 256 % 16) + n / 16 % 16) + n % 16 = n := by
    omega
  simp only [fourHex, List.map_cons, List.map_nil, List.cons_append, List.nil_append]
  rw [lexFrom_backslash hquote, lexFrom_go hmark, lexFrom_go hfirst, lexFrom_go (hmore _ _ _),
    lexFrom_go (hmore _ _ _), lexFrom_go (hlast _ _), hvalue, unitsOf, if_pos h]
  simp [Option.map_map, Function.comp_def]

end

/-! ## Single quotes -/

/-- How a character is written between single quotes: by a short escape, by its unit, or as it
is. -/
theorem singleQuoteChar_cases (c : Char) :
    (∃ e, e ∉ lineTerminators ∧ escapeStep e = .go (unitsOf c.toNat) .plain ∧
      singleQuoteChar c = ['\\', e]) ∨
    (c.toNat < 0x10000 ∧ singleQuoteChar c = '\\' :: 'u' :: fourHex c.toNat) ∨
    (c ≠ '\x27' ∧ c ≠ '\\' ∧ c ∉ lineTerminators ∧ singleQuoteChar c = [c]) := by
  by_cases hshort : c ∈ ['\x27', '\\', '\n', '\r', '\t']
  · left
    simp only [List.mem_cons, List.not_mem_nil, or_false] at hshort
    rcases hshort with rfl | rfl | rfl | rfl | rfl
    · exact ⟨'\x27', by decide, rfl, rfl⟩
    · exact ⟨'\\', by decide, rfl, rfl⟩
    · exact ⟨'n', by decide, rfl, rfl⟩
    · exact ⟨'r', by decide, rfl, rfl⟩
    · exact ⟨'t', by decide, rfl, rfl⟩
  · right
    simp only [List.mem_cons, List.not_mem_nil, or_false, not_or] at hshort
    obtain ⟨hquote, hslash, hfeed, hreturn, htab⟩ := hshort
    cases hcode : isUnquotable c with
    | true =>
      left
      refine ⟨?_, by simp [singleQuoteChar, hquote, hslash, hfeed, hreturn, htab, hcode]⟩
      simp only [isUnquotable, Bool.or_eq_true, Bool.and_eq_true, decide_eq_true_eq,
        beq_iff_eq] at hcode
      omega
    | false =>
      right
      refine ⟨hquote, hslash, ?_, by
        simp [singleQuoteChar, hquote, hslash, hfeed, hreturn, htab, hcode]⟩
      intro hline
      simp only [lineTerminators, List.mem_cons, List.not_mem_nil, or_false] at hline
      rcases hline with rfl | rfl | rfl | rfl <;> cases hcode

theorem reads_singleQuoteChar (c : Char) :
    Reads '\x27' (singleQuoteChar c) (unitsOf c.toNat) := by
  rcases singleQuoteChar_cases c with
    ⟨e, -, hstep, heq⟩ | ⟨hsmall, heq⟩ | ⟨hquote, hslash, hline, heq⟩
  · rw [heq]
    exact reads_escape (by decide) hstep
  · rw [heq]
    exact reads_fourHex (by decide) hsmall
  · rw [heq]
    refine reads_plain hquote hslash ?_ ?_
    · rintro rfl
      exact hline (by decide)
    · rintro rfl
      exact hline (by decide)

theorem toList_singleQuoted (s : String) :
    (singleQuoted s).toList = '\x27' :: (s.toList.flatMap singleQuoteChar ++ ['\x27']) := by
  rw [singleQuoted, String.toList_ofList, List.cons_append]

/-- A text between single quotes is read as its units, whatever comes after it. -/
theorem lex_singleQuoted (s : String) (rest : List Char) :
    lex '\x27' ((singleQuoted s).toList ++ rest) = some (units s.toList, rest) := by
  rw [toList_singleQuoted, List.cons_append, List.append_assoc]
  exact (reads_flatMap reads_singleQuoteChar s.toList).lex rest

theorem mem_fourHex {n : Nat} (h : c ∈ fourHex n) : c ∈ "0123456789abcdef".toList := by
  rw [fourHex, List.mem_map] at h
  obtain ⟨k, hk, rfl⟩ := h
  refine Hex.digit_mem ?_
  simp only [List.mem_cons, List.not_mem_nil, or_false] at hk
  omega

theorem not_mem_lineTerminators_singleQuoteChar (c : Char) :
    ∀ d ∈ singleQuoteChar c, d ∉ lineTerminators := by
  have hhex : ∀ d ∈ "0123456789abcdef".toList, d ∉ lineTerminators :=
    List.all_iff_forall_prop.mp (by decide)
  rcases singleQuoteChar_cases c with ⟨e, he, -, heq⟩ | ⟨-, heq⟩ | ⟨-, -, hline, heq⟩
  · rw [heq, List.forall_mem_cons, List.forall_mem_singleton]
    exact ⟨by decide, he⟩
  · rw [heq, List.forall_mem_cons, List.forall_mem_cons]
    exact ⟨by decide, by decide, fun d hd => hhex d (mem_fourHex hd)⟩
  · rw [heq, List.forall_mem_singleton]
    exact hline

/-! ## Bare quotes -/

/-- A single quote with an even number of backslashes right before it. -/
def IsBare (cs : List Char) (i : Nat) : Prop :=
  cs[i]? = some '\x27' ∧ ((cs.take i).reverse.takeWhile (· == '\\')).length % 2 = 0

/-- Whether the next character is escaped, by what came before. -/
def nextEscaped (escaped : Bool) (cs : List Char) : Bool :=
  cs.foldl (fun escaped c => c == '\\' && !escaped) escaped

/-- The next character is escaped if the backslashes before it are odd in number. -/
theorem nextEscaped_iff (cs : List Char) :
    nextEscaped false cs = true ↔ (cs.reverse.takeWhile (· == '\\')).length % 2 = 1 := by
  induction cs using List.reverseRecOn with
  | nil => simp [nextEscaped]
  | append_singleton cs c ih =>
    have hstep : nextEscaped false (cs ++ [c]) = (c == '\\' && !nextEscaped false cs) := by
      simp [nextEscaped]
    rw [hstep, List.reverse_append, List.reverse_singleton, List.singleton_append]
    by_cases hc : c = '\\'
    · rw [List.takeWhile_cons_of_pos (by simp [hc]), List.length_cons]
      simp only [hc, beq_self_eq_true, Bool.true_and, Bool.not_eq_true', ← Bool.not_eq_true, ih]
      omega
    · rw [List.takeWhile_cons_of_neg (by simp [hc])]
      simp [hc]

/-- Every quote is escaped, and at the end nothing is. -/
def guarded : (escaped : Bool) → List Char → Bool
  | escaped, [] => !escaped
  | escaped, c :: cs => (escaped || c != '\x27') && guarded (c == '\\' && !escaped) cs

theorem guarded_append {escaped : Bool} (h : guarded escaped cs = true)
    (h' : guarded false ds = true) : guarded escaped (cs ++ ds) = true := by
  induction cs generalizing escaped with
  | nil =>
    simp only [guarded, Bool.not_eq_true'] at h
    rwa [List.nil_append, h]
  | cons c cs ih =>
    simp only [guarded, Bool.and_eq_true] at h
    rw [List.cons_append, guarded, Bool.and_eq_true]
    exact ⟨h.1, ih h.2⟩

theorem nextEscaped_of_guarded {escaped : Bool} (h : guarded escaped cs = true) :
    nextEscaped escaped cs = false := by
  induction cs generalizing escaped with
  | nil => simpa [guarded, nextEscaped] using h
  | cons c cs ih =>
    simp only [guarded, Bool.and_eq_true] at h
    exact ih h.2

theorem nextEscaped_take_of_guarded {escaped : Bool} {i : Nat} (h : guarded escaped cs = true)
    (hi : cs[i]? = some '\x27') : nextEscaped escaped (cs.take i) = true := by
  induction cs generalizing escaped i with
  | nil => cases hi
  | cons c cs ih =>
    simp only [guarded, Bool.and_eq_true] at h
    cases i with
    | zero =>
      cases hi
      simpa [nextEscaped] using h.1
    | succ i => exact ih h.2 hi

theorem guarded_singleQuoteChar (c : Char) : guarded false (singleQuoteChar c) = true := by
  have hhex {cs : List Char} (h : ∀ d ∈ cs, d ∈ "0123456789abcdef".toList) :
      guarded false cs = true := by
    have table : ∀ d ∈ "0123456789abcdef".toList, (d != '\x27') = true ∧ (d == '\\') = false :=
      List.all_iff_forall_prop.mp (by decide)
    induction cs with
    | nil => rfl
    | cons d cs ih =>
      obtain ⟨hd, hcs⟩ := List.forall_mem_cons.mp h
      simp [guarded, table d hd, ih hcs]
  rcases singleQuoteChar_cases c with ⟨e, -, -, heq⟩ | ⟨-, heq⟩ | ⟨hquote, hslash, -, heq⟩
  · simp [heq, guarded]
  · have hdigits := hhex fun d hd => mem_fourHex (n := c.toNat) hd
    simpa [heq, guarded] using hdigits
  · simp [heq, guarded, hquote, hslash]

theorem guarded_flatMap (cs : List Char) : guarded false (cs.flatMap singleQuoteChar) = true := by
  induction cs with
  | nil => rfl
  | cons c cs ih =>
    rw [List.flatMap_cons]
    exact guarded_append (guarded_singleQuoteChar c) ih

/-- Only the quotes around a guarded text are bare. -/
theorem isBare_iff (h : guarded false cs = true) (i : Nat) :
    IsBare ('\x27' :: (cs ++ ['\x27'])) i ↔ i = 0 ∨ i = cs.length + 1 := by
  have hodd (n : Nat) : n % 2 = 0 ↔ ¬ n % 2 = 1 := by omega
  rw [IsBare, hodd, ← nextEscaped_iff]
  cases i with
  | zero => simp [nextEscaped]
  | succ i =>
    have hfront : nextEscaped false (('\x27' :: (cs ++ ['\x27'])).take (i + 1)) =
        nextEscaped false ((cs ++ ['\x27']).take i) := rfl
    rw [hfront, List.getElem?_cons_succ]
    rcases Nat.lt_trichotomy i cs.length with hlt | rfl | hgt
    · rw [List.getElem?_append_left hlt, List.take_append_of_le_length (Nat.le_of_lt hlt)]
      constructor
      · rintro ⟨hquote, hbare⟩
        exact absurd (nextEscaped_take_of_guarded h hquote) hbare
      · omega
    · simp [nextEscaped_of_guarded h]
    · have hnone : (cs ++ ['\x27'])[i]? = none := by
        rw [List.getElem?_eq_none_iff, List.length_append, List.length_singleton]
        omega
      rw [hnone]
      constructor
      · rintro ⟨⟨⟩, -⟩
      · omega

/-- **A quoted text cannot leave its literal.** Whatever follows it, a single-quoted text is read as
a literal of just its characters, it has no line terminator, and only its first and last characters
are bare quotes. -/
theorem singleQuoted_confined (s : String) (rest : List Char) :
    lex '\x27' ((singleQuoted s).toList ++ rest) = some (units s.toList, rest) ∧
    ofUnits? (units s.toList) = some s.toList ∧
    (∀ c ∈ (singleQuoted s).toList, c ∉ lineTerminators) ∧
    ∀ i, IsBare (singleQuoted s).toList i ↔ i = 0 ∨ i + 1 = (singleQuoted s).toList.length := by
  refine ⟨lex_singleQuoted s rest, ofUnits?_units _, ?_, fun i => ?_⟩
  · rw [toList_singleQuoted, List.forall_mem_cons, List.forall_mem_append,
      List.forall_mem_singleton]
    refine ⟨by decide, fun c hc => ?_, by decide⟩
    obtain ⟨d, -, hd⟩ := List.mem_flatMap.mp hc
    exact not_mem_lineTerminators_singleQuoteChar d c hd
  · rw [toList_singleQuoted, isBare_iff (guarded_flatMap s.toList)]
    simp only [List.length_cons, List.length_append, List.length_nil]
    omega

theorem singleQuoted_confined_closing :
    lex '\x27' ((singleQuoted "id']);\n\\\u2028").toList ++ "]);".toList) =
      some (units "id']);\n\\\u2028".toList, "]);".toList) ∧
    '\\' ∈ (singleQuoted "id']);\n\\\u2028").toList ∧ '\\' ∉ lineTerminators :=
  have hmem : '\\' ∈ (singleQuoted "id']);\n\\\u2028").toList := by decide
  ⟨(singleQuoted_confined _ _).1, hmem, (singleQuoted_confined _ []).2.2.1 _ hmem⟩

end TxGraph.Text
