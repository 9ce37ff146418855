import Mathlib.Data.List.Sort

/-!
# Patterns and bytecode

The syntax tree the parser of LibRegex produces and the instruction set of its
backtracking machine. An alternative is the list of its terms, each an atom with an
optional quantifier, and a disjunction the list of its alternatives. Code points are
natural numbers, so that lone surrogates are representable as in the source.

`Platform` gathers what the engine asks of the Unicode library and of the standard
library's case mappings.
-/

namespace Ladybone.Regex.Syntax

structure Flags where
  (ignoreCase multiline dotAll unicode unicodeSets : Bool)
deriving DecidableEq

structure Quantifier where
  min : Nat
  max : Option Nat
  greedy : Bool
deriving DecidableEq

def Quantifier.zeroOrOne (greedy : Bool) : Quantifier := ⟨0, some 1, greedy⟩

inductive BuiltinCharacterClass where
  | digit
  | nonDigit
  | word
  | nonWord
  | whitespace
  | nonWhitespace
deriving DecidableEq

def BuiltinCharacterClass.negated : BuiltinCharacterClass → BuiltinCharacterClass
  | digit => nonDigit
  | nonDigit => digit
  | word => nonWord
  | nonWord => word
  | whitespace => nonWhitespace
  | nonWhitespace => whitespace

/-- A property escape; the identifier the Unicode library resolves it to is part of
`Platform.propertyMatches`. -/
structure UnicodeProperty where
  negated : Bool
  name : String
  value : Option String
deriving DecidableEq

inductive CharacterClassRange where
  | single (codePoint : Nat)
  | range (low high : Nat)
  | builtinClass (builtin : BuiltinCharacterClass)
  | unicodeProperty (property : UnicodeProperty)
deriving DecidableEq

mutual

inductive CharacterClass where
  | ranges (negated : Bool) (items : List CharacterClassRange)
  | unicodeSet (negated : Bool) (expression : ClassSetExpression)

inductive ClassSetExpression where
  | union (operands : ClassSetOperands)
  | intersection (operands : ClassSetOperands)
  | subtraction (operands : ClassSetOperands)

inductive ClassSetOperands where
  | nil
  | cons (operand : ClassSetOperand) (rest : ClassSetOperands)

inductive ClassSetOperand where
  | char (codePoint : Nat)
  | range (low high : Nat)
  | nestedClass (nested : CharacterClass)
  | builtinClass (builtin : BuiltinCharacterClass)
  | unicodeProperty (property : UnicodeProperty)
  | stringLiteral (chars : List Nat)

end

inductive LookaroundKind where
  | lookaheadPositive
  | lookaheadNegative
  | lookbehindPositive
  | lookbehindNegative
deriving DecidableEq

inductive Backreference where
  | index (group : Nat)
  | named (name : String)
deriving DecidableEq

inductive AssertionKind where
  | startOfInput
  | endOfInput
  | wordBoundary
  | nonWordBoundary
deriving DecidableEq

structure ModifierFlags where
  (ignoreCase multiline dotAll : Bool)
deriving DecidableEq

mutual

inductive Atom where
  | literal (codePoint : Nat)
  | dot
  | characterClass (body : CharacterClass)
  | builtinCharacterClass (builtin : BuiltinCharacterClass)
  | unicodeProperty (property : UnicodeProperty)
  | group (index : Nat) (body : Disjunction)
  | nonCapturingGroup (body : Disjunction)
  | lookaround (kind : LookaroundKind) (body : Disjunction)
  | backreference (reference : Backreference)
  | assertion (kind : AssertionKind)
  | modifierGroup (addFlags removeFlags : ModifierFlags) (body : Disjunction)

inductive Alternative where
  | nil
  | cons (atom : Atom) (quantifier : Option Quantifier) (rest : Alternative)

inductive Disjunction where
  | nil
  | cons (first : Alternative) (rest : Disjunction)

end

structure NamedGroup where
  name : String
  index : Nat
deriving DecidableEq

structure Pattern where
  disjunction : Disjunction
  flags : Flags
  captureCount : Nat
  namedGroups : List NamedGroup

structure CharRange where
  (start stop : Nat)
deriving DecidableEq

inductive SimpleMatch where
  | anyChar (dotAll : Bool)
  | char (codePoint : Nat)
  | charNoCase (low high : Nat)
  | charClass (ranges : List CharRange) (negated : Bool)
  | builtinClass (builtin : BuiltinCharacterClass)
  | unicodeProperty (property : UnicodeProperty)
  | union (left right : SimpleMatch)
deriving DecidableEq

inductive Instruction where
  | char (codePoint : Nat)
  | charNoCase (low high : Nat)
  | anyChar (dotAll : Bool)
  | charClass (ranges : List CharRange) (negated : Bool)
  | builtinClass (builtin : BuiltinCharacterClass)
  | unicodeProperty (property : UnicodeProperty)
  | jump (target : Nat)
  | split (prefer other : Nat)
  | save (register : Nat)
  | clearRegister (register : Nat)
  | assertStart (multiline : Bool)
  | assertEnd (multiline : Bool)
  | assertWordBoundary
  | assertNonWordBoundary
  | accept
  | fail
  | backref (group : Nat)
  | backrefNamed (name : String)
  | repeatStart (counter : Nat)
  | repeatCheck (counter min : Nat) (max : Option Nat) (body : Nat) (greedy : Bool)
  | lookStart (positive forward : Bool) (finish : Nat)
  | lookEnd
  | pushModifiers (ignoreCase multiline dotAll : Option Bool)
  | popModifiers
  | nop
  | stringPropertyMatch (strings : List (List Nat)) (property : UnicodeProperty)
  | progressCheck (register : Nat) (clearCaptures : List Nat)
  | greedyLoop (matcher : SimpleMatch) (min : Nat) (max : Option Nat)
  | lazyLoop (matcher : SimpleMatch) (min : Nat) (max : Option Nat)
deriving DecidableEq

structure Program where
  instructions : List Instruction
  (captureCount registerCount : Nat)
  (unicode unicodeSets ignoreCase multiline dotAll : Bool)
  namedGroups : List NamedGroup
deriving DecidableEq

structure Platform where
  /-- The first character of the lower and upper case mappings of a character. -/
  (toLowercase toUppercase : Nat → Nat)
  simpleCaseFold : Nat → Bool → Nat
  codePointMatchesRangeIgnoringCase : Nat → Nat → Nat → Bool → Bool
  caseClosure : Nat → List Nat
  (propertyMatches propertyMatchesCaseInsensitive : Nat → String → Option String → Bool)
  propertyAllCaseEquivalentsMatch : Nat → String → Option String → Bool
  isStringProperty : String → Bool
  stringPropertyStrings : String → List (List Nat)

end Ladybone.Regex.Syntax
