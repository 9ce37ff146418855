import Ladybone.Regex.Syntax

/-!
# The bytecode compiler

`Emit` is a piece of the compiler's work: given the offset the next instruction gets and
the next free internal register, the instructions it appends and the registers left.
The source emits a jump with a placeholder and patches it once the code behind it is
there; here the target is computed from the length of that code.
-/

namespace Ladybone.Regex.Compile

open Regex.Syntax

def Emit := Nat → Nat → List Instruction × Nat

namespace Emit

def empty : Emit := fun _ register => ([], register)

def one (instruction : Instruction) : Emit := fun _ register => ([instruction], register)

def append (first second : Emit) : Emit := fun offset register =>
  let emitted := first offset register
  let following := second (offset + emitted.1.length) emitted.2
  (emitted.1 ++ following.1, following.2)

def concat : List Emit → Emit
  | [] => empty
  | first :: rest => append first (concat rest)

/-- `emit_split_chain`: every item but the last stands behind a split to the next one and
in front of a jump to the end. -/
def splitChain : List Emit → Emit
  | [] => empty
  | [last] => last
  | first :: second :: rest => fun offset register =>
    let body := first (offset + 1) register
    let next := offset + body.1.length + 2
    let tail := splitChain (second :: rest) next body.2
    (.split (offset + 1) next :: body.1 ++ .jump (next + tail.1.length) :: tail.1, tail.2)

def look (positive forward : Bool) (body : Emit) : Emit := fun offset register =>
  let code := body (offset + 1) register
  (.lookStart positive forward (offset + code.1.length + 2) :: code.1 ++ [.lookEnd], code.2)

end Emit

/-- The compiler's mode: the program's Unicode flags, the flags in effect at this place of
the pattern, and whether a lookbehind body is being compiled. -/
structure Compiler where
  (unicode unicodeSets effectiveIgnoreCase effectiveMultiline effectiveDotAll backward : Bool)
deriving DecidableEq

variable (platform : Platform)

def isScalarValue (codePoint : Nat) : Bool :=
  codePoint < 0xD800 || (0xDFFF < codePoint && codePoint ≤ 0x10FFFF)

variable (compiler : Compiler)

def charMaybeCaseFold (codePoint : Nat) : Emit :=
  if compiler.effectiveIgnoreCase && isScalarValue codePoint &&
      platform.toLowercase codePoint != platform.toUppercase codePoint then
    Emit.one (.charNoCase codePoint codePoint)
  else Emit.one (.char codePoint)

def highSurrogateOf (codePoint : Nat) : Nat := (codePoint - 0x10000) / 0x400 + 0xD800

def lowSurrogateOf (codePoint : Nat) : Nat := (codePoint - 0x10000) % 0x400 + 0xDC00

def sortRanges (ranges : List CharRange) : List CharRange :=
  ranges.insertionSort fun left right => left.start ≤ right.start

/-- The ranges of a class body without builtin or property members. -/
def plainRanges : List CharacterClassRange → Option (List CharRange)
  | [] => some []
  | .single codePoint :: rest => (plainRanges rest).map (⟨codePoint, codePoint⟩ :: ·)
  | .range low high :: rest => (plainRanges rest).map (⟨low, high⟩ :: ·)
  | .builtinClass _ :: _ => none
  | .unicodeProperty _ :: _ => none

def buildUnionSimpleMatch : List SimpleMatch → Option SimpleMatch
  | [] => none
  | first :: rest => some (rest.foldl .union first)

def negateSimpleMatch : SimpleMatch → Option SimpleMatch
  | .charClass ranges negated => some (.charClass ranges !negated)
  | .unicodeProperty property =>
    some (.unicodeProperty { property with negated := !property.negated })
  | _ => none

def buildUnionSimpleMatchNegated : List SimpleMatch → Option SimpleMatch
  | [matcher] => negateSimpleMatch matcher
  | _ => none

mutual

def trySimpleMatchForOperand : ClassSetOperand → Option SimpleMatch
  | .char codePoint => some (.char codePoint)
  | .range low high => some (.charClass [⟨low, high⟩] false)
  | .builtinClass builtin => some (.builtinClass builtin)
  | .unicodeProperty property =>
    if platform.isStringProperty property.name then none else some (.unicodeProperty property)
  | .nestedClass (.ranges negated items) =>
    (plainRanges items).map fun ranges => .charClass (sortRanges ranges) negated
  | .nestedClass (.unicodeSet negated (.union operands)) =>
    (trySimpleMatchForOperands operands).bind fun matchers =>
      if negated then buildUnionSimpleMatchNegated matchers else buildUnionSimpleMatch matchers
  | .nestedClass (.unicodeSet _ (.intersection _)) => none
  | .nestedClass (.unicodeSet _ (.subtraction _)) => none
  | .stringLiteral _ => none

def trySimpleMatchForOperands : ClassSetOperands → Option (List SimpleMatch)
  | .nil => some []
  | .cons operand rest =>
    (trySimpleMatchForOperand operand).bind fun matcher =>
      (trySimpleMatchForOperands rest).map (matcher :: ·)

end

mutual

/-- `try_extract_union_ranges` before its final sort. -/
def unionRanges : ClassSetExpression → Option (List CharRange)
  | .union operands => operandRanges operands
  | .intersection _ => none
  | .subtraction _ => none

def operandRanges : ClassSetOperands → Option (List CharRange)
  | .nil => some []
  | .cons operand rest =>
    (operandRange operand).bind fun first => (operandRanges rest).map (first ++ ·)

def operandRange : ClassSetOperand → Option (List CharRange)
  | .char codePoint => some [⟨codePoint, codePoint⟩]
  | .range low high => some [⟨low, high⟩]
  | .nestedClass (.ranges negated items) => if negated then none else plainRanges items
  | .nestedClass (.unicodeSet negated expression) =>
    if negated then none else (unionRanges expression).map sortRanges
  | .builtinClass _ => none
  | .unicodeProperty _ => none
  | .stringLiteral _ => none

end

def tryExtractUnionRanges (expression : ClassSetExpression) : Option (List CharRange) :=
  (unionRanges expression).map sortRanges

def isComplex : CharacterClassRange → Bool
  | .builtinClass _ => true
  | .unicodeProperty _ => true
  | _ => false

def isSupplementarySingle : CharacterClassRange → Bool
  | .single codePoint => 0xFFFF < codePoint
  | _ => false

def complexMatchers : List CharacterClassRange → List SimpleMatch
  | [] => []
  | .builtinClass builtin :: rest => .builtinClass builtin :: complexMatchers rest
  | .unicodeProperty property :: rest => .unicodeProperty property :: complexMatchers rest
  | .single _ :: rest => complexMatchers rest
  | .range _ _ :: rest => complexMatchers rest

def rangeMembers : List CharacterClassRange → List CharRange
  | [] => []
  | .single codePoint :: rest => ⟨codePoint, codePoint⟩ :: rangeMembers rest
  | .range low high :: rest => ⟨low, high⟩ :: rangeMembers rest
  | .builtinClass _ :: rest => rangeMembers rest
  | .unicodeProperty _ :: rest => rangeMembers rest

def isStringPropertyMember : CharacterClassRange → Bool
  | .unicodeProperty property => platform.isStringProperty property.name
  | _ => false

def trySimpleMatchForRanges (items : List CharacterClassRange)
    (negated : Bool) : Option SimpleMatch :=
  if items.any isSupplementarySingle && !compiler.unicode && !compiler.unicodeSets then
    none
  else if !items.any isComplex then
    some (.charClass (sortRanges (rangeMembers items)) negated)
  else if negated || items.any (isStringPropertyMember platform) then
    none
  else
    buildUnionSimpleMatch (complexMatchers items ++
      if rangeMembers items = [] then [] else [.charClass (sortRanges (rangeMembers items)) false])

def trySimpleMatchForUnicodeSet (expression : ClassSetExpression) (negated : Bool) :
    Option SimpleMatch :=
  match tryExtractUnionRanges expression with
  | some ranges => some (.charClass (sortRanges ranges) negated)
  | none =>
    if negated then none
    else
      match expression with
      | .union operands => (trySimpleMatchForOperands platform operands).bind buildUnionSimpleMatch
      | _ => none

def trySimpleMatch : Atom → Option SimpleMatch
  | .dot => some (.anyChar compiler.effectiveDotAll)
  | .literal codePoint =>
    if 0xFFFF < codePoint && !compiler.unicode && !compiler.unicodeSets then none
    else if compiler.effectiveIgnoreCase then some (.charNoCase codePoint codePoint)
    else some (.char codePoint)
  | .builtinCharacterClass builtin => some (.builtinClass builtin)
  | .characterClass (.ranges negated items) =>
    trySimpleMatchForRanges platform compiler items negated
  | .characterClass (.unicodeSet negated expression) =>
    trySimpleMatchForUnicodeSet platform expression negated
  | .unicodeProperty property =>
    if compiler.unicodeSets && platform.isStringProperty property.name then none
    else some (.unicodeProperty property)
  | _ => none

mutual

def classSetExpressionLengths (unicodeSets : Bool) : ClassSetExpression → List Nat
  | .union operands => (classSetOperandsLengths unicodeSets operands).flatten
  | .intersection operands =>
    match classSetOperandsLengths unicodeSets operands with
    | [] => []
    | first :: rest => first.filter fun length => rest.all (·.contains length)
  | .subtraction operands => (classSetOperandsLengths unicodeSets operands).headD []

def classSetOperandsLengths (unicodeSets : Bool) : ClassSetOperands → List (List Nat)
  | .nil => []
  | .cons operand rest =>
    classSetOperandLengths unicodeSets operand :: classSetOperandsLengths unicodeSets rest

def classSetOperandLengths (unicodeSets : Bool) : ClassSetOperand → List Nat
  | .char _ => [1]
  | .range _ _ => [1]
  | .builtinClass _ => [1]
  | .nestedClass (.ranges _ _) => [1]
  | .nestedClass (.unicodeSet negated expression) =>
    if negated then [1] else classSetExpressionLengths unicodeSets expression
  | .unicodeProperty property =>
    if unicodeSets && !property.negated && platform.isStringProperty property.name then
      1 :: (platform.stringPropertyStrings property.name).map List.length
    else [1]
  | .stringLiteral chars => [chars.length]

end

def longestFirst (lengths : List Nat) : List Nat :=
  lengths.dedup.insertionSort fun left right => right ≤ left

def codePointString (string : List Nat) : Emit :=
  Emit.concat ((if compiler.backward then string.reverse else string).map
    (charMaybeCaseFold platform compiler))

def stringPropertyMatch (property : UnicodeProperty) : Emit :=
  let strings := platform.stringPropertyStrings property.name
  if strings = [] then Emit.one (.unicodeProperty { property with negated := false })
  else
    let sorted := strings.insertionSort fun left right => right.length ≤ left.length
    Emit.one (.stringPropertyMatch
      (sorted.map fun string => if compiler.backward then string.reverse else string)
      { property with negated := false })

/-- The ranges `compile_character_class` collects for one member, or `none` for a member
that makes the class complex. -/
def memberRanges (negated : Bool) : CharacterClassRange → Option (List CharRange)
  | .single codePoint =>
    if !compiler.unicode && !compiler.unicodeSets && 0xFFFF < codePoint then
      some [⟨highSurrogateOf codePoint, highSurrogateOf codePoint⟩,
        ⟨lowSurrogateOf codePoint, lowSurrogateOf codePoint⟩]
    else some [⟨codePoint, codePoint⟩]
  | .range low high => some [⟨low, high⟩]
  | .builtinClass .digit =>
    if !negated && !compiler.unicode && !compiler.unicodeSets then some [⟨0x30, 0x39⟩] else none
  | .builtinClass .word =>
    if !negated && !compiler.unicode && !compiler.unicodeSets then
      some [⟨0x30, 0x39⟩, ⟨0x41, 0x5A⟩, ⟨0x5F, 0x5F⟩, ⟨0x61, 0x7A⟩]
    else none
  | .builtinClass _ => none
  | .unicodeProperty _ => none

def classRanges (compiler : Compiler) (negated : Bool) :
    List CharacterClassRange → Option (List CharRange)
  | [] => some []
  | item :: rest =>
    (memberRanges compiler negated item).bind fun first =>
      (classRanges compiler negated rest).map (first ++ ·)

def classComponent : CharacterClassRange → Emit
  | .single codePoint => charMaybeCaseFold platform compiler codePoint
  | .range low high => Emit.one (.charClass [⟨low, high⟩] false)
  | .builtinClass builtin => Emit.one (.builtinClass builtin)
  | .unicodeProperty property => Emit.one (.unicodeProperty property)

/-- What is left of the text once `body` is known not to match here: `(?!body).` with a
dot that also matches line terminators. -/
def complement (body : Emit) : Emit :=
  Emit.append (Emit.look false (!compiler.backward) body) (Emit.one (.anyChar true))

def compileComplexClass (items : List CharacterClassRange) (negated : Bool) : Emit :=
  let components := Emit.splitChain (items.map (classComponent platform compiler))
  if negated then
    match items with
    | [.builtinClass builtin] => Emit.one (.builtinClass builtin.negated)
    | _ => complement compiler components
  else components

def compileRangesClass (items : List CharacterClassRange) (negated : Bool) : Emit :=
  match classRanges compiler negated items with
  | some ranges => Emit.one (.charClass (sortRanges ranges) negated)
  | none => compileComplexClass platform compiler items negated

/-- The checks that the text just consumed also belongs to the other operands; an operand
without members of this length leaves nothing. -/
def intersectionChecks (forward : Bool) : List (Bool × Emit) → Emit
  | [] => Emit.empty
  | (hasLength, operand) :: rest =>
    if hasLength then
      Emit.append (Emit.look true forward operand) (intersectionChecks forward rest)
    else Emit.one .fail

def subtractionChecks (forward : Bool) : List (Bool × Emit) → Emit
  | [] => Emit.empty
  | (hasLength, operand) :: rest =>
    if hasLength then
      Emit.append (Emit.look false forward operand) (subtractionChecks forward rest)
    else subtractionChecks forward rest

def alternativesOrFail (alternatives : List Emit) : Emit :=
  if alternatives.isEmpty then Emit.one .fail else Emit.splitChain alternatives

def onlyLengthOne (length : Nat) (emit : Emit) : Emit :=
  if length = 1 then emit else Emit.one .fail

def compileClassSetExpression (expression : ClassSetExpression) (atLength : Nat → Emit) : Emit :=
  alternativesOrFail
    ((longestFirst (classSetExpressionLengths platform compiler.unicodeSets expression)).map
      atLength)

def compileUnicodeSetClass (expression : ClassSetExpression)
    (negated : Bool) (atLength : Nat → Emit) : Emit :=
  match expression with
  | .union .nil => if negated then Emit.one (.anyChar true) else Emit.one .fail
  | _ =>
    match tryExtractUnionRanges expression with
    | some ranges => Emit.one (.charClass ranges negated)
    | none =>
      let members := compileClassSetExpression platform compiler expression atLength
      if negated then complement compiler members else members

def Compiler.facing (forward : Bool) : Compiler :=
  { compiler with backward := !forward }

mutual

def compileCharacterClass (compiler : Compiler) : CharacterClass → Emit
  | .ranges negated items => compileRangesClass platform compiler items negated
  | .unicodeSet negated expression =>
    compileUnicodeSetClass platform compiler expression negated
      (compileClassSetExpressionAtLength compiler expression)

def compileClassSetExpressionAtLength (compiler : Compiler) : ClassSetExpression → Nat → Emit
  | .union operands, length =>
    alternativesOrFail (((operandsAtLength compiler operands length).filter (·.1)).map (·.2))
  | .intersection operands, length =>
    match operandsAtLength compiler operands length with
    | [] => Emit.one .fail
    | first :: _ =>
      -- The consumed text lies behind the position in the direction of the match, so
      -- the checks on it run the other way.
      Emit.append first.2 (intersectionChecks compiler.backward
        (operandsAtLength (compiler.facing compiler.backward) operands length).tail)
  | .subtraction operands, length =>
    match operandsAtLength compiler operands length with
    | [] => Emit.one .fail
    | first :: _ =>
      Emit.append first.2 (subtractionChecks compiler.backward
        (operandsAtLength (compiler.facing compiler.backward) operands length).tail)

def operandsAtLength (compiler : Compiler) : ClassSetOperands → Nat → List (Bool × Emit)
  | .nil, _ => []
  | .cons operand rest, length =>
    ((classSetOperandLengths platform compiler.unicodeSets operand).contains length,
      compileClassSetOperandAtLength compiler operand length) ::
      operandsAtLength compiler rest length

def compileClassSetOperandAtLength (compiler : Compiler) : ClassSetOperand → Nat → Emit
  | .char codePoint, length =>
    onlyLengthOne length (charMaybeCaseFold platform compiler codePoint)
  | .range low high, length => onlyLengthOne length (Emit.one (.charClass [⟨low, high⟩] false))
  | .nestedClass (.ranges negated items), length =>
    onlyLengthOne length (compileRangesClass platform compiler items negated)
  | .nestedClass (.unicodeSet negated expression), length =>
    if negated then
      onlyLengthOne length
        (compileUnicodeSetClass platform compiler expression true
          (compileClassSetExpressionAtLength compiler expression))
    else compileClassSetExpressionAtLength compiler expression length
  | .builtinClass builtin, length => onlyLengthOne length (Emit.one (.builtinClass builtin))
  | .unicodeProperty property, length =>
    if compiler.unicodeSets && !property.negated && platform.isStringProperty property.name &&
        length != 1 then
      alternativesOrFail
        (((platform.stringPropertyStrings property.name).filter (·.length == length)).map
          (codePointString platform compiler))
    else onlyLengthOne length (Emit.one (.unicodeProperty property))
  | .stringLiteral chars, length =>
    if chars.length = length then codePointString platform compiler chars else Emit.one .fail

end

mutual

def Atom.captures : Atom → List Nat
  | .group index body => index :: Disjunction.captures body
  | .nonCapturingGroup body => Disjunction.captures body
  | .modifierGroup _ _ body => Disjunction.captures body
  | .lookaround _ body => Disjunction.captures body
  | _ => []

def Alternative.captures : Alternative → List Nat
  | .nil => []
  | .cons atom _ rest => Atom.captures atom ++ Alternative.captures rest

def Disjunction.captures : Disjunction → List Nat
  | .nil => []
  | .cons first rest => Alternative.captures first ++ Disjunction.captures rest

end

/-- `capture_registers`: nothing for an atom that is zero-width by its nature. -/
def captureRegisters : Atom → List Nat
  | .lookaround _ _ => []
  | .assertion _ => []
  | atom => (Atom.captures atom).flatMap fun index => [index * 2, index * 2 + 1]

mutual

def atomCanBeZeroWidth : Atom → Bool
  | .literal _ => false
  | .dot => false
  | .builtinCharacterClass _ => false
  | .characterClass _ => false
  | .unicodeProperty _ => false
  | .group _ body => disjunctionCanBeZeroWidth body
  | .nonCapturingGroup body => disjunctionCanBeZeroWidth body
  | .modifierGroup _ _ body => disjunctionCanBeZeroWidth body
  | .backreference _ => true
  | .lookaround _ _ => true
  | .assertion _ => true

def alternativeCanBeZeroWidth : Alternative → Bool
  | .nil => true
  | .cons atom quantifier rest =>
    (quantifier.any (·.min == 0) || atomCanBeZeroWidth atom) && alternativeCanBeZeroWidth rest

def disjunctionCanBeZeroWidth : Disjunction → Bool
  | .nil => false
  | .cons first rest => alternativeCanBeZeroWidth first || disjunctionCanBeZeroWidth rest

end

def clearCaptures (atom : Atom) : Emit :=
  Emit.concat ((captureRegisters atom).map fun register => Emit.one (.clearRegister register))

/-- One iteration of a loop over an atom, between the save of the position and the check
that it has moved where the loop needs them. -/
def iteration (progress : Option Nat) (atom : Atom) (copy : Emit) : Emit :=
  let body := Emit.append (clearCaptures atom) copy
  match progress with
  | some register =>
    Emit.append (Emit.one (.save register))
      (Emit.append body (Emit.one (.progressCheck register (captureRegisters atom))))
  | none => body

def requiredCopies (atom : Atom) (copy : Emit) : Nat → Emit
  | 0 => Emit.empty
  | count + 1 =>
    Emit.append (requiredCopies atom copy count)
      (if count = 0 then copy else Emit.append (clearCaptures atom) copy)

def repeated (emit : Emit) : Nat → Emit
  | 0 => Emit.empty
  | count + 1 => Emit.append emit (repeated emit count)

def repeatLimit : Nat := 100000

def countedLoop (atom : Atom) (quantifier : Quantifier) (copy : Emit) : Emit :=
  fun offset register =>
    let progress := if atomCanBeZeroWidth atom then some (register + 1) else none
    let body := iteration progress atom copy (offset + 1)
      (if atomCanBeZeroWidth atom then register + 2 else register + 1)
    (.repeatStart register :: body.1 ++
      [.repeatCheck register quantifier.min quantifier.max (offset + 1) quantifier.greedy],
      body.2)

def countedOptionalRepetitions (atom : Atom) (optionalCount : Nat) (greedy : Bool)
    (copy : Emit) : Emit := fun offset register =>
  let body := iteration none atom copy (offset + 3) (register + 1)
  (.repeatStart register ::
    .repeatCheck register 0 (some optionalCount) (offset + 3) greedy ::
    .jump (offset + body.1.length + 4) :: body.1 ++ [.jump (offset + 1)], body.2)

def choice (greedy : Bool) (body after : Nat) : Instruction :=
  if greedy then .split body after else .split after body

def optionalCopy (atom : Atom) (needsProgressCheck greedy : Bool) (copy : Emit) : Emit :=
  fun offset register =>
    let progress := if needsProgressCheck then some register else none
    let body := iteration progress atom copy (offset + 1)
      (if needsProgressCheck then register + 1 else register)
    (choice greedy (offset + 1) (offset + body.1.length + 1) :: body.1, body.2)

def unboundedLoop (atom : Atom) (greedy : Bool) (copy : Emit) : Emit :=
  fun offset register =>
    let progress := if atomCanBeZeroWidth atom then some register else none
    let body := iteration progress atom copy (offset + 1) (register + 1)
    (choice greedy (offset + 1) (offset + body.1.length + 2) :: body.1 ++ [.jump offset], body.2)

def simpleLoop (matcher : SimpleMatch) (quantifier : Quantifier) : Instruction :=
  if quantifier.greedy then .greedyLoop matcher quantifier.min quantifier.max
  else .lazyLoop matcher quantifier.min quantifier.max

/-- What follows the required copies. -/
def optionalPart (atom : Atom) (quantifier : Quantifier) (copy : Emit) : Emit :=
  match quantifier.max with
  | some max =>
    if max = quantifier.min then Emit.empty
    else if atomCanBeZeroWidth atom then
      repeated (optionalCopy atom (quantifier.min == 0) quantifier.greedy copy)
        (max - quantifier.min)
    else countedOptionalRepetitions atom (max - quantifier.min) quantifier.greedy copy
  | none => unboundedLoop atom quantifier.greedy copy

def compileQuantified (atom : Atom) (quantifier : Quantifier) (copy : Emit) : Emit :=
  match trySimpleMatch platform compiler atom with
  | some matcher =>
    if quantifier.max = some quantifier.min ∧ quantifier.min ≤ repeatLimit then
      repeated copy quantifier.min
    else Emit.one (simpleLoop matcher quantifier)
  | none =>
    if repeatLimit < quantifier.max.getD quantifier.min then countedLoop atom quantifier copy
    else
      Emit.append (requiredCopies atom copy quantifier.min) (optionalPart atom quantifier copy)

def modifierChange (add remove : Bool) : Option Bool :=
  if add then some true else if remove then some false else none

def Compiler.modified (addFlags removeFlags : ModifierFlags) : Compiler :=
  { compiler with
    effectiveIgnoreCase := (modifierChange addFlags.ignoreCase removeFlags.ignoreCase).getD
      compiler.effectiveIgnoreCase
    effectiveMultiline := (modifierChange addFlags.multiline removeFlags.multiline).getD
      compiler.effectiveMultiline
    effectiveDotAll := (modifierChange addFlags.dotAll removeFlags.dotAll).getD
      compiler.effectiveDotAll }

def pushOf (addFlags removeFlags : ModifierFlags) : Instruction :=
  .pushModifiers (modifierChange addFlags.ignoreCase removeFlags.ignoreCase)
    (modifierChange addFlags.multiline removeFlags.multiline)
    (modifierChange addFlags.dotAll removeFlags.dotAll)

def LookaroundKind.positive : LookaroundKind → Bool
  | .lookaheadPositive => true
  | .lookaheadNegative => false
  | .lookbehindPositive => true
  | .lookbehindNegative => false

def LookaroundKind.forward : LookaroundKind → Bool
  | .lookaheadPositive => true
  | .lookaheadNegative => true
  | .lookbehindPositive => false
  | .lookbehindNegative => false

def assertionInstruction : AssertionKind → Instruction
  | .startOfInput => .assertStart compiler.effectiveMultiline
  | .endOfInput => .assertEnd compiler.effectiveMultiline
  | .wordBoundary => .assertWordBoundary
  | .nonWordBoundary => .assertNonWordBoundary

def backreferenceInstruction : Backreference → Instruction
  | .index group => .backref group
  | .named name => .backrefNamed name

/-- The matcher of `a|a?` or `a?|a`, whose merged term `a?` compiles to one loop. -/
def tryMergeOptionalAlternatives : Disjunction → Option SimpleMatch
  | .cons (.cons firstAtom firstQuantifier .nil)
      (.cons (.cons secondAtom secondQuantifier .nil) .nil) =>
    match trySimpleMatch platform compiler firstAtom,
      trySimpleMatch platform compiler secondAtom with
    | some first, some second =>
      if first = second ∧
          ((firstQuantifier = none ∧ secondQuantifier = some (Quantifier.zeroOrOne true)) ∨
            (firstQuantifier = some (Quantifier.zeroOrOne true) ∧ secondQuantifier = none)) then
        some first
      else none
    | _, _ => none
  | _ => none

def joinAlternatives (disjunction : Disjunction) (alternatives : List Emit) : Emit :=
  match tryMergeOptionalAlternatives platform compiler disjunction with
  | some matcher => Emit.one (.greedyLoop matcher 0 (some 1))
  | none => Emit.splitChain alternatives

mutual

def compileAtom (compiler : Compiler) : Atom → Emit
  | .literal codePoint =>
    if 0xFFFF < codePoint && !compiler.unicode && !compiler.unicodeSets then
      Emit.append (Emit.one (.char (highSurrogateOf codePoint)))
        (Emit.one (.char (lowSurrogateOf codePoint)))
    else charMaybeCaseFold platform compiler codePoint
  | .dot => Emit.one (.anyChar compiler.effectiveDotAll)
  | .characterClass body => compileCharacterClass platform compiler body
  | .builtinCharacterClass builtin => Emit.one (.builtinClass builtin)
  | .unicodeProperty property =>
    if compiler.unicodeSets && !property.negated && platform.isStringProperty property.name then
      stringPropertyMatch platform compiler property
    else Emit.one (.unicodeProperty property)
  | .group index body =>
    Emit.append (Emit.one (.save (index * 2)))
      (Emit.append (joinAlternatives platform compiler body (compileAlternatives compiler body))
        (Emit.one (.save (index * 2 + 1))))
  | .nonCapturingGroup body =>
    joinAlternatives platform compiler body (compileAlternatives compiler body)
  | .lookaround kind body =>
    Emit.look (LookaroundKind.positive kind) (LookaroundKind.forward kind)
      (joinAlternatives platform (compiler.facing (LookaroundKind.forward kind)) body
        (compileAlternatives (compiler.facing (LookaroundKind.forward kind)) body))
  | .backreference reference => Emit.one (backreferenceInstruction reference)
  | .assertion kind => Emit.one (assertionInstruction compiler kind)
  | .modifierGroup addFlags removeFlags body =>
    Emit.append (Emit.one (pushOf addFlags removeFlags))
      (Emit.append
        (joinAlternatives platform (compiler.modified addFlags removeFlags) body
          (compileAlternatives (compiler.modified addFlags removeFlags) body))
        (Emit.one .popModifiers))

def compileAlternative (compiler : Compiler) : Alternative → Emit
  | .nil => Emit.empty
  | .cons atom quantifier rest =>
    let copy := compileAtom compiler atom
    let term := match quantifier with
      | none => copy
      | some quantifier => compileQuantified platform compiler atom quantifier copy
    if compiler.backward then Emit.append (compileAlternative compiler rest) term
    else Emit.append term (compileAlternative compiler rest)

def compileAlternatives (compiler : Compiler) : Disjunction → List Emit
  | .nil => []
  | .cons first rest => compileAlternative compiler first :: compileAlternatives compiler rest

end

def compileDisjunction (compiler : Compiler) (disjunction : Disjunction) : Emit :=
  joinAlternatives platform compiler disjunction (compileAlternatives platform compiler disjunction)

def Compiler.new (pattern : Pattern) : Compiler where
  unicode := pattern.flags.unicode || pattern.flags.unicodeSets
  unicodeSets := pattern.flags.unicodeSets
  effectiveIgnoreCase := pattern.flags.ignoreCase
  effectiveMultiline := pattern.flags.multiline
  effectiveDotAll := pattern.flags.dotAll
  backward := false

def compilePattern (pattern : Pattern) : Emit :=
  Emit.append (Emit.one (.save 0))
    (Emit.append (compileDisjunction platform (Compiler.new pattern) pattern.disjunction)
      (Emit.append (Emit.one (.save 1)) (Emit.one .accept)))

def compile (pattern : Pattern) : Program :=
  let emitted := compilePattern platform pattern 0 (2 + pattern.captureCount * 2)
  { instructions := emitted.1
    captureCount := pattern.captureCount
    registerCount := emitted.2
    unicode := pattern.flags.unicode || pattern.flags.unicodeSets
    unicodeSets := pattern.flags.unicodeSets
    ignoreCase := pattern.flags.ignoreCase
    multiline := pattern.flags.multiline
    dotAll := pattern.flags.dotAll
    namedGroups := pattern.namedGroups }

end Ladybone.Regex.Compile
