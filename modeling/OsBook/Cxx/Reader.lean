import Mathlib.Data.List.Basic

/-!
# Reading C++ constants

A reader for the part of C++ that a generated table of constants uses: line
comments, words, integer literals, one-character punctuation, and definitions
of an `unsigned char` array or of an `unsigned long`.

The lexer is a state machine over characters, so the tokens of a text are
computed piece by piece (`lexRun_append`).  An `unsigned long` is a parameter of
the target; here it has 32 bits.
-/

namespace OsBook
namespace Cxx

/-! ## Lexing -/

inductive Token where
  /-- An identifier, a keyword or a literal. -/
  | word (text : List Char)
  | punct (c : Char)
deriving DecidableEq, Repr

/-- What the lexer is inside of. -/
inductive Mode where
  | blank
  | word (text : List Char)
  | slash
  | comment
deriving DecidableEq, Repr

def isWordChar (c : Char) : Bool := c.isAlphanum || c = '_'

/-- A character that does not continue a token. -/
def lexOpen (c : Char) : List Token × Mode :=
  if c = '/' then ([], .slash)
  else if c.isWhitespace then ([], .blank)
  else if isWordChar c then ([], .word [c])
  else ([.punct c], .blank)

/-- One character: the tokens it completes, and the mode behind it. -/
def lexStep : Mode → Char → List Token × Mode
  | .blank, c => lexOpen c
  | .word text, c =>
      if isWordChar c then ([], .word (text ++ [c]))
      else (.word text :: (lexOpen c).1, (lexOpen c).2)
  | .slash, c =>
      if c = '/' then ([], .comment)
      else (.punct '/' :: (lexOpen c).1, (lexOpen c).2)
  | .comment, c => if c = '\n' then ([], .blank) else ([], .comment)

/-- Lex a piece of text that starts in the given mode. -/
def lexRun : Mode → List Char → List Token × Mode
  | mode, [] => ([], mode)
  | mode, c :: cs =>
      ((lexStep mode c).1 ++ (lexRun (lexStep mode c).2 cs).1, (lexRun (lexStep mode c).2 cs).2)

/-- The token still open at the end of the text. -/
def lexClose : Mode → List Token
  | .word text => [.word text]
  | .slash => [.punct '/']
  | _ => []

/-- The tokens of a text. -/
def lex (text : List Char) : List Token :=
  (lexRun .blank text).1 ++ lexClose (lexRun .blank text).2

/-- Lexing two pieces one after the other. -/
theorem lexRun_append (mode : Mode) (xs ys : List Char) :
    lexRun mode (xs ++ ys) =
      ((lexRun mode xs).1 ++ (lexRun (lexRun mode xs).2 ys).1, (lexRun (lexRun mode xs).2 ys).2) := by
  induction xs generalizing mode with
  | nil => rfl
  | cons c cs ih => simp only [List.cons_append, lexRun, ih, List.append_assoc]

/-- Word characters extend a word. -/
theorem lexRun_word {cs : List Char} (h : ∀ c ∈ cs, isWordChar c = true) (text : List Char) :
    lexRun (.word text) cs = ([], .word (text ++ cs)) := by
  induction cs generalizing text with
  | nil => simp [lexRun]
  | cons c cs ih =>
      have hc : isWordChar c = true := h c (by simp)
      have hrest := ih (fun d hd => h d (by simp [hd])) (text ++ [c])
      simp only [lexRun, lexStep, hc, if_true, hrest, List.append_assoc, List.cons_append,
        List.nil_append]

theorem lexOpen_of_isWordChar {c : Char} (h : isWordChar c = true) :
    lexOpen c = ([], .word [c]) := by
  have hslash : c ≠ '/' := by
    rintro rfl
    exact absurd h (by decide)
  have hblank : c.isWhitespace = false := by
    unfold Char.isWhitespace
    simp only [Bool.or_eq_false_iff, decide_eq_false_iff_not]
    refine ⟨⟨⟨?_, ?_⟩, ?_⟩, ?_⟩ <;>
      · rintro rfl
        exact absurd h (by decide)
  unfold lexOpen
  rw [if_neg hslash, hblank, if_neg Bool.false_ne_true, if_pos h]

/-- A nonempty run of word characters is one word. -/
theorem lexRun_blank_word {cs : List Char} (h : ∀ c ∈ cs, isWordChar c = true) (hne : cs ≠ []) :
    lexRun .blank cs = ([], .word cs) := by
  cases cs with
  | nil => exact absurd rfl hne
  | cons c cs =>
      have hopen : lexStep .blank c = ([], .word [c]) := lexOpen_of_isWordChar (h c (by simp))
      have hrest := lexRun_word (fun d hd => h d (List.mem_cons_of_mem c hd)) [c]
      rw [lexRun, hopen, hrest]
      rfl

/-! ## Integer literals -/

/-- The value of a digit; `16` for a character that is none. -/
def digitValue (c : Char) : Nat :=
  if c.isDigit then c.toNat - '0'.toNat
  else if 'a' ≤ c ∧ c ≤ 'f' then c.toNat - 'a'.toNat + 10
  else if 'A' ≤ c ∧ c ≤ 'F' then c.toNat - 'A'.toNat + 10
  else 16

/-- Read digits of a base, after a number read so far. -/
def readDigits (base : Nat) : Nat → List Char → Option Nat
  | n, [] => some n
  | n, c :: cs => if digitValue c < base then readDigits base (base * n + digitValue c) cs else none

/-- An integer literal without suffix: hexadecimal, octal or decimal. -/
def literalValue : List Char → Option Nat
  | '0' :: 'x' :: c :: cs => readDigits 16 0 (c :: cs)
  | '0' :: 'X' :: c :: cs => readDigits 16 0 (c :: cs)
  | '0' :: cs => readDigits 8 0 cs
  | c :: cs => readDigits 10 0 (c :: cs)
  | [] => none

theorem digitValue_of_isDigit {c : Char} (h : c.isDigit = true) :
    digitValue c = c.toNat - '0'.toNat ∧ digitValue c < 10 := by
  have hvalue : digitValue c = c.toNat - '0'.toNat := by
    unfold digitValue
    rw [if_pos h]
  have hrange : '0'.toNat ≤ c.toNat ∧ c.toNat ≤ '9'.toNat := by
    simpa [Char.isDigit, UInt32.le_iff_toNat_le] using h
  have hzero : '0'.toNat = 48 := rfl
  have hnine : '9'.toNat = 57 := rfl
  refine ⟨hvalue, ?_⟩
  rw [hvalue]
  omega

/-- Decimal digits are read as the standard library reads them. -/
theorem readDigits_decimal {cs : List Char} (h : ∀ c ∈ cs, c.isDigit = true) (n : Nat) :
    readDigits 10 n cs = some (Nat.ofDigitChars 10 cs n) := by
  induction cs generalizing n with
  | nil => simp [readDigits, Nat.ofDigitChars_nil]
  | cons c cs ih =>
      obtain ⟨hvalue, hlt⟩ := digitValue_of_isDigit (h c (by simp))
      rw [readDigits, if_pos hlt, ih (fun d hd => h d (by simp [hd])), Nat.ofDigitChars_cons, hvalue]

/-- The first decimal digit of a positive number is not `0`. -/
theorem head_toDigits_ne {n : Nat} (hn : 0 < n) : ∃ c cs, Nat.toDigits 10 n = c :: cs ∧ c ≠ '0' := by
  induction n using Nat.strongRecOn with
  | _ n ih =>
      by_cases hsmall : n < 10
      · have hdigit : ∀ d, d < 10 → 0 < d → Nat.digitChar d ≠ '0' := by decide
        exact ⟨n.digitChar, [], Nat.toDigits_of_lt_base hsmall, hdigit n hsmall hn⟩
      · obtain ⟨c, cs, hdigits, hc⟩ := ih (n / 10) (by omega) (by omega)
        refine ⟨c, cs ++ [(n % 10).digitChar], ?_, hc⟩
        rw [Nat.toDigits_of_base_le (by decide) (by omega), hdigits]
        rfl

/-- **The decimal notation of a positive number is a literal for it.** -/
theorem literalValue_toDigits {n : Nat} (hn : 0 < n) :
    literalValue (Nat.toDigits 10 n) = some n := by
  obtain ⟨c, cs, hdigits, hc⟩ := head_toDigits_ne hn
  have hall : ∀ d ∈ c :: cs, d.isDigit = true := by
    intro d hd
    rw [← hdigits] at hd
    exact Nat.isDigit_of_mem_toDigits (by decide) (by decide) hd
  have hread : literalValue (c :: cs) = readDigits 10 0 (c :: cs) := by
    unfold literalValue
    split <;> simp_all
  rw [hdigits, hread, readDigits_decimal hall, ← hdigits, Nat.ofDigitChars_ten_toDigits]

/-! ## Definitions of constants -/

/-- A definition at namespace scope. -/
inductive Definition where
  /-- `static const unsigned char name[] = {...};` -/
  | bytes (name : List Char) (elements : List UInt8)
  /-- `static const unsigned long name = literal;` -/
  | ulong (name : List Char) (value : UInt32)
deriving DecidableEq, Repr

/-- An element of an `unsigned char` array; a larger literal would be narrowed, which is an
error between braces. -/
def readByte (text : List Char) : Option UInt8 := do
  let n ← literalValue text
  if n < 256 then some (UInt8.ofNat n) else none

/-- The elements of a braced list, up to its closing brace; a comma may follow the last one. -/
def readElements : List Token → Option (List UInt8 × List Token)
  | .punct '}' :: rest => some ([], rest)
  | .word text :: .punct '}' :: rest => do
      let b ← readByte text
      some ([b], rest)
  | .word text :: .punct ',' :: rest => do
      let b ← readByte text
      let (bs, rest) ← readElements rest
      some (b :: bs, rest)
  | _ => none

/-- The keywords that open both kinds of definition. -/
def staticConstUnsigned : List Token :=
  [.word "static".toList, .word "const".toList, .word "unsigned".toList]

/-- One definition, and the tokens behind it. -/
def readDefinition : List Token → Option (Definition × List Token)
  | .word s :: .word c :: .word u :: .word type :: .word name :: rest =>
      if [Token.word s, .word c, .word u] ≠ staticConstUnsigned then none
      else if type = "char".toList then
        match rest with
        | .punct '[' :: .punct ']' :: .punct '=' :: .punct '{' :: rest => do
            let (elements, rest) ← readElements rest
            match rest with
            -- An array of unknown bound needs at least one element.
            | .punct ';' :: rest =>
                if elements = [] then none else some (.bytes name elements, rest)
            | _ => none
        | _ => none
      else if type = "long".toList then
        match rest with
        | .punct '=' :: .word text :: .punct ';' :: rest => do
            let n ← literalValue text
            some (.ulong name (UInt32.ofNat n), rest)
        | _ => none
      else none
  | _ => none

/-- All definitions of a text; `fuel` bounds their number. -/
def readDefinitions : (fuel : Nat) → List Token → Option (List Definition)
  | _, [] => some []
  | 0, _ => none
  | fuel + 1, tokens => do
      let (d, rest) ← readDefinition tokens
      let ds ← readDefinitions fuel rest
      some (d :: ds)

/-- One definition, then the rest of the text. -/
theorem readDefinitions_step {tokens rest : List Token} {d : Definition} {ds : List Definition}
    {fuel : Nat} (h : readDefinition tokens = some (d, rest))
    (hrest : readDefinitions fuel rest = some ds) :
    readDefinitions (fuel + 1) tokens = some (d :: ds) := by
  cases tokens with
  | nil => cases h
  | cons t tokens => simp only [readDefinitions, h, hrest, Option.bind_eq_bind, Option.bind_some]

/-- The definitions of a file.  A definition has at least one token. -/
def readFile (text : List Char) : Option (List Definition) :=
  readDefinitions (lex text).length (lex text)

/-- The tokens of a list of elements, each followed by a comma. -/
def elementTokens (literals : List (List Char)) : List Token :=
  literals.flatMap fun text => [.word text, .punct ',']

/-- **A list of literals reads as their values.** -/
theorem readElements_elementTokens {literals : List (List Char)} {bytes : List UInt8}
    (h : literals.map readByte = bytes.map some) (rest : List Token) :
    readElements (elementTokens literals ++ .punct '}' :: rest) = some (bytes, rest) := by
  induction literals generalizing bytes with
  | nil =>
      cases bytes with
      | nil => rfl
      | cons b bs => cases h
  | cons text literals ih =>
      cases bytes with
      | nil => cases h
      | cons b bs =>
          simp only [List.map_cons, List.cons.injEq] at h
          obtain ⟨hb, hbs⟩ := h
          have hrest := ih hbs
          simp only [elementTokens, List.flatMap_cons, List.cons_append, List.nil_append,
            readElements, hb] at hrest ⊢
          rw [hrest]
          rfl

end Cxx
end OsBook
