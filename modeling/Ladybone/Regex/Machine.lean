import Ladybone.Regex.Compile

/-!
# The backtracking machine

One step of the machine is one instruction or one attempt to resume a saved state. The
source runs the body of a lookaround in a nested call of `run`; here the call stack is the
list `frames`, and `failing` is set while the machine is looking for a state to resume.
A saved state carries its snapshot of the registers, which the source keeps in a pool of
its own.

`stepFast` is the loop for legacy patterns going forward, `stepGeneral` the loop for
everything else.
-/

namespace Ladybone.Regex.Machine

open Regex.Syntax

inductive VmResult where
  | matched
  | noMatch
  | limitExceeded
deriving DecidableEq

def matchLimit : Nat := 10000000

abbrev Input := List UInt16

def codeUnit (input : Input) (pos : Nat) : Nat := (input.getD pos 0).toNat

section

def isHighSurrogate (unit : Nat) : Bool := 0xD800 ≤ unit && unit ≤ 0xDBFF

def isLowSurrogate (unit : Nat) : Bool := 0xDC00 ≤ unit && unit ≤ 0xDFFF

def isLineTerminator (codePoint : Nat) : Bool :=
  codePoint == 0x0A || codePoint == 0x0D || codePoint == 0x2028 || codePoint == 0x2029

def combineSurrogates (high low : Nat) : Nat := 0x10000 + (high - 0xD800) * 0x400 + (low - 0xDC00)

variable (platform : Platform)

def caseFold (codePoint : Nat) (unicodeMode : Bool) : Nat :=
  if codePoint < 128 then
    if unicodeMode then
      if 0x41 ≤ codePoint && codePoint ≤ 0x5A then codePoint + 32 else codePoint
    else
      if 0x61 ≤ codePoint && codePoint ≤ 0x7A then codePoint - 32 else codePoint
  else platform.simpleCaseFold codePoint unicodeMode

def caseFoldEq (left right : Nat) (unicodeMode : Bool) : Bool :=
  left == right || caseFold platform left unicodeMode == caseFold platform right unicodeMode

def isWordChar (codePoint : Nat) : Bool :=
  (0x30 ≤ codePoint && codePoint ≤ 0x39) || (0x41 ≤ codePoint && codePoint ≤ 0x5A) ||
    (0x61 ≤ codePoint && codePoint ≤ 0x7A) || codePoint == 0x5F

def isWordCharUnicode (codePoint : Nat) (unicodeIgnoreCase : Bool) : Bool :=
  isWordChar codePoint || (unicodeIgnoreCase && isWordChar (caseFold platform codePoint true))

def isDigit (codePoint : Nat) : Bool := 0x30 ≤ codePoint && codePoint ≤ 0x39

def isWhitespace (codePoint : Nat) : Bool :=
  (0x09 ≤ codePoint && codePoint ≤ 0x0D) || codePoint == 0x20 || codePoint == 0xA0 ||
    codePoint == 0x1680 || (0x2000 ≤ codePoint && codePoint ≤ 0x200A) || codePoint == 0x2028 ||
    codePoint == 0x2029 || codePoint == 0x202F || codePoint == 0x205F || codePoint == 0x3000 ||
    codePoint == 0xFEFF

def CharRange.contains (range : CharRange) (codePoint : Nat) : Bool :=
  range.start ≤ codePoint && codePoint ≤ range.stop

/-- The loop of the standard library's `binary_search_by`: the candidate moves to the middle
of what is left unless the range there starts behind the code point. -/
def binarySearchBase (codePoint : Nat) (ranges : List CharRange) : (fuel size base : Nat) → Nat
  | 0, _, base => base
  | fuel + 1, size, base =>
    if size ≤ 1 then base
    else
      let middle := base + size / 2
      let next := if codePoint < (ranges.getD middle ⟨0, 0⟩).start then base else middle
      binarySearchBase codePoint ranges fuel (size - size / 2) next

def charInRanges (codePoint : Nat) (ranges : List CharRange) : Bool :=
  if ranges.length ≤ 8 then ranges.any (CharRange.contains · codePoint)
  else
    CharRange.contains
      (ranges.getD (binarySearchBase codePoint ranges ranges.length ranges.length 0) ⟨0, 0⟩)
      codePoint

def matchCharClass (codePoint : Nat) (ranges : List CharRange)
    (ignoreCase unicodeMode unicodeSets : Bool) : Bool :=
  if ignoreCase && unicodeSets then
    (platform.caseClosure codePoint).any (charInRanges · ranges)
  else if ignoreCase then
    charInRanges codePoint ranges ||
      (caseFold platform codePoint unicodeMode != codePoint &&
        charInRanges (caseFold platform codePoint unicodeMode) ranges) ||
      ranges.any fun range =>
        platform.codePointMatchesRangeIgnoringCase codePoint range.start range.stop unicodeMode
  else charInRanges codePoint ranges

def matchBuiltinClass (codePoint : Nat) (builtin : BuiltinCharacterClass)
    (unicodeIgnoreCase : Bool) : Bool :=
  match builtin with
  | .digit => isDigit codePoint
  | .nonDigit => !isDigit codePoint
  | .word => isWordCharUnicode platform codePoint unicodeIgnoreCase
  | .nonWord => !isWordCharUnicode platform codePoint unicodeIgnoreCase
  | .whitespace => isWhitespace codePoint
  | .nonWhitespace => !isWhitespace codePoint

def matchProperty (property : UnicodeProperty) (codePoint : Nat) : Bool :=
  platform.propertyMatches codePoint property.name property.value != property.negated

end

structure ActiveModifiers where
  (ignoreCase multiline dotAll : Bool)
deriving DecidableEq

/-- A choice point, with everything `backtrack` restores from it. -/
inductive SavedState where
  | normal (pc pos : Nat) (registers : List Int) (modifiers : ActiveModifiers)
      (modifierStackLength : Nat)
  | greedy (pc startPos currentPos : Nat) (registers : List Int) (min : Nat) (backward : Bool)
      (modifiers : ActiveModifiers) (modifierStackLength : Nat)
  | lazy (pc pos : Nat) (registers : List Int) (max : Option Nat) (consumed : Nat)
      (modifiers : ActiveModifiers) (modifierStackLength : Nat)
deriving DecidableEq

namespace SavedState

def pc : SavedState → Nat
  | .normal pc _ _ _ _ => pc
  | .greedy pc _ _ _ _ _ _ _ => pc
  | .lazy pc _ _ _ _ _ _ => pc

def resumePc : SavedState → Nat
  | .normal pc _ _ _ _ => pc
  | .greedy pc _ _ _ _ _ _ _ => pc + 1
  | .lazy pc _ _ _ _ _ _ => pc + 1

def modifiers : SavedState → ActiveModifiers
  | .normal _ _ _ modifiers _ => modifiers
  | .greedy _ _ _ _ _ _ modifiers _ => modifiers
  | .lazy _ _ _ _ _ modifiers _ => modifiers

def modifierStackLength : SavedState → Nat
  | .normal _ _ _ _ length => length
  | .greedy _ _ _ _ _ _ _ length => length
  | .lazy _ _ _ _ _ _ length => length

end SavedState

/-- What `handle_look_start` keeps while the body of a lookaround runs. -/
structure LookFrame where
  positive : Bool
  (finish pos backtrackLength btFloor : Nat)
  backward : Bool
  registers : List Int
deriving DecidableEq

structure Vm where
  (pc pos : Nat)
  registers : List Int
  backtrackStack : List SavedState
  steps : Nat
  modifiers : ActiveModifiers
  modifierStack : List ActiveModifiers
  backward : Bool
  btFloor : Nat
  frames : List LookFrame
  /-- Set while a state to resume is looked for: the instruction whose modifiers are in
  effect. -/
  failing : Option Nat
deriving DecidableEq

inductive Outcome where
  | running (vm : Vm)
  | finished (result : VmResult) (vm : Vm)
deriving DecidableEq

def baseModifiers (program : Program) : ActiveModifiers :=
  ⟨program.ignoreCase, program.multiline, program.dotAll⟩

def Vm.new (program : Program) (startPos : Nat) : Vm where
  pc := 0
  pos := startPos
  registers := List.replicate program.registerCount (-1)
  backtrackStack := []
  steps := 0
  modifiers := baseModifiers program
  modifierStack := []
  backward := false
  btFloor := 0
  frames := []
  failing := none

/-- The bottom `length` entries of a stack kept with its top first. -/
def truncate {α : Type} (stack : List α) (length : Nat) : List α :=
  stack.drop (stack.length - length)

section
variable (unicode : Bool) (input : Input)

def decodeCodePoint (pos : Nat) : Nat :=
  if unicode && isHighSurrogate (codeUnit input pos) && pos + 1 < input.length &&
      isLowSurrogate (codeUnit input (pos + 1)) then
    combineSurrogates (codeUnit input pos) (codeUnit input (pos + 1))
  else codeUnit input pos

def codePointLen (pos : Nat) : Nat :=
  if unicode && isHighSurrogate (codeUnit input pos) && pos + 1 < input.length &&
      isLowSurrogate (codeUnit input (pos + 1)) then 2
  else 1

def currentCodePoint (backward : Bool) (pos : Nat) : Option Nat :=
  if backward then
    if pos = 0 then none
    else if unicode && pos < input.length && isLowSurrogate (codeUnit input pos) &&
        isHighSurrogate (codeUnit input (pos - 1)) then none
    else if unicode && isLowSurrogate (codeUnit input (pos - 1)) && 2 ≤ pos &&
        isHighSurrogate (codeUnit input (pos - 2)) then
      some (combineSurrogates (codeUnit input (pos - 2)) (codeUnit input (pos - 1)))
    else some (codeUnit input (pos - 1))
  else
    if input.length ≤ pos then none
    else if unicode && isHighSurrogate (codeUnit input pos) && pos + 1 < input.length &&
        isLowSurrogate (codeUnit input (pos + 1)) then
      some (combineSurrogates (codeUnit input pos) (codeUnit input (pos + 1)))
    else if unicode && isLowSurrogate (codeUnit input pos) && 0 < pos &&
        isHighSurrogate (codeUnit input (pos - 1)) then none else some (codeUnit input pos)

def retreatOneChar (pos : Nat) : Nat :=
  if pos = 0 then 0
  else if unicode && 2 ≤ pos && isLowSurrogate (codeUnit input (pos - 1)) &&
      isHighSurrogate (codeUnit input (pos - 2)) then pos - 2
  else pos - 1

def advanceOneChar (pos : Nat) : Nat :=
  if input.length ≤ pos then pos
  else if unicode && pos + 1 < input.length && isLowSurrogate (codeUnit input (pos + 1)) &&
      isHighSurrogate (codeUnit input pos) then pos + 2
  else pos + 1

/-- `advance_char`: in a lookbehind the position moves to the left. -/
def advanceChar (backward : Bool) (pos : Nat) : Nat :=
  if backward then retreatOneChar unicode input pos else advanceOneChar unicode input pos

/-- `retreat_n_chars` and `advance_n_chars` of Unicode mode: `none` at an end of the input. -/
def moveChars (move : Nat → Nat) : Nat → Nat → Option Nat
  | 0, pos => some pos
  | count + 1, pos => if move pos = pos then none else moveChars move count (move pos)

def retreatNChars (pos count : Nat) : Option Nat :=
  if unicode then moveChars (retreatOneChar unicode input) count pos
  else if count ≤ pos then some (pos - count) else none

def advanceNChars (pos count : Nat) : Option Nat :=
  if unicode then moveChars (advanceOneChar unicode input) count pos
  else some (pos + count)

/-- The characters a loop consumes from a position on, at most `limit` of them: how many,
and where it stops. The input bounds their number. -/
def consume (backward : Bool) (test : Nat → Bool) (limit : Option Nat) :
    (fuel count pos : Nat) → Nat × Nat
  | 0, count, pos => (count, pos)
  | fuel + 1, count, pos =>
    if limit.all (count < ·) then
      match currentCodePoint unicode input backward pos with
      | some codePoint =>
        if test codePoint then
          consume backward test limit fuel (count + 1) (advanceChar unicode input backward pos)
        else (count, pos)
      | none => (count, pos)
    else (count, pos)

/-- The required iterations of a lazy loop, or `none` if they cannot all be made. -/
def consumeExactly (backward : Bool) (test : Nat → Bool) : Nat → Nat → Option Nat
  | 0, pos => some pos
  | count + 1, pos =>
    match currentCodePoint unicode input backward pos with
    | some codePoint =>
      if test codePoint then
        consumeExactly backward test count (advanceChar unicode input backward pos)
      else none
    | none => none

def countAvailable (backward : Bool) (test : Nat → Bool) : (max count pos : Nat) → Nat
  | 0, count, _ => count
  | max + 1, count, pos =>
    if backward then
      let next := retreatOneChar unicode input pos
      if next = pos then count
      else if test (decodeCodePoint unicode input next) then
        countAvailable backward test max (count + 1) next
      else count
    else if input.length ≤ pos then count
    else if test (decodeCodePoint unicode input pos) then
      countAvailable backward test max (count + 1) (advanceOneChar unicode input pos)
    else count

/-- The last position not above `pos` and not below `minPos` at which `hit` holds. -/
def scanBack (hit : Nat → Bool) (minPos : Nat) : Nat → Option Nat
  | 0 => if minPos = 0 && hit 0 then some 0 else none
  | pos + 1 =>
    if pos + 1 < minPos then none
    else if hit (pos + 1) then some (pos + 1)
    else scanBack hit minPos pos

/-- The first character boundary from `pos` up to `maxPos` at which `hit` holds. -/
def scanAhead (hit : Nat → Bool) (maxPos : Nat) : (fuel pos : Nat) → Option Nat
  | 0, _ => none
  | fuel + 1, pos =>
    if maxPos < pos then none
    else if hit pos then some pos
    else if advanceOneChar unicode input pos = pos then none
    else scanAhead hit maxPos fuel (advanceOneChar unicode input pos)

end

section
variable (platform : Platform) (program : Program) (input : Input)

def matchSimple (modifiers : ActiveModifiers) : SimpleMatch → Nat → Bool
  | .anyChar dotAll, codePoint => dotAll || modifiers.dotAll || !isLineTerminator codePoint
  | .char expected, codePoint =>
    if modifiers.ignoreCase then caseFoldEq platform codePoint expected program.unicode
    else codePoint == expected
  | .charNoCase low _, codePoint => caseFoldEq platform codePoint low program.unicode
  | .charClass ranges negated, codePoint =>
    matchCharClass platform codePoint ranges modifiers.ignoreCase program.unicode
      program.unicodeSets != negated
  | .builtinClass builtin, codePoint =>
    matchBuiltinClass platform codePoint builtin (modifiers.ignoreCase && program.unicode)
  | .unicodeProperty property, codePoint =>
    if modifiers.ignoreCase && program.unicode then
      if property.negated && !program.unicodeSets then
        !platform.propertyAllCaseEquivalentsMatch codePoint property.name property.value
      else
        platform.propertyMatchesCaseInsensitive codePoint property.name property.value !=
          property.negated
    else matchProperty platform property codePoint
  | .union left right, codePoint =>
    matchSimple modifiers left codePoint || matchSimple modifiers right codePoint

def matchSimpleWithModifiers (modifiers : ActiveModifiers) : SimpleMatch → Nat → Bool
  | .anyChar dotAll, codePoint => dotAll || modifiers.dotAll || !isLineTerminator codePoint
  | .char expected, codePoint =>
    if modifiers.ignoreCase then caseFoldEq platform codePoint expected false
    else codePoint == expected
  | .charNoCase low _, codePoint => caseFoldEq platform codePoint low false
  | .charClass ranges negated, codePoint =>
    matchCharClass platform codePoint ranges modifiers.ignoreCase false false != negated
  | .builtinClass builtin, codePoint => matchBuiltinClass platform codePoint builtin false
  | .unicodeProperty property, codePoint => matchProperty platform property codePoint
  | .union left right, codePoint =>
    matchSimpleWithModifiers modifiers left codePoint ||
      matchSimpleWithModifiers modifiers right codePoint

section
variable (modifiers : ActiveModifiers)

/-- The test of `greedy_consume_fast`, whose expected code unit has 16 bits. -/
def fastLoopTest : SimpleMatch → Nat → Bool
  | .char expected, codePoint =>
    if modifiers.ignoreCase then caseFoldEq platform codePoint (expected % 0x10000) false
    else codePoint == expected % 0x10000
  | matcher, codePoint => matchSimpleWithModifiers platform modifiers matcher codePoint

def generalTest : Instruction → Option (Nat → Bool)
  | .char expected => some (matchSimple platform program modifiers (.char expected))
  | .charNoCase low high => some (matchSimple platform program modifiers (.charNoCase low high))
  | .anyChar dotAll => some (matchSimple platform program modifiers (.anyChar dotAll))
  | .charClass ranges negated =>
    some (matchSimple platform program modifiers (.charClass ranges negated))
  | .builtinClass builtin => some (matchSimple platform program modifiers (.builtinClass builtin))
  | .unicodeProperty property =>
    some (matchSimple platform program modifiers (.unicodeProperty property))
  | _ => none

def fastTest : Instruction → Option (Nat → Bool)
  | .char expected => some (matchSimpleWithModifiers platform modifiers (.char expected))
  | .charNoCase low high =>
    some (matchSimpleWithModifiers platform modifiers (.charNoCase low high))
  | .anyChar dotAll => some (matchSimpleWithModifiers platform modifiers (.anyChar dotAll))
  | .charClass ranges negated =>
    some (matchSimpleWithModifiers platform modifiers (.charClass ranges negated))
  | .builtinClass builtin =>
    some (matchSimpleWithModifiers platform modifiers (.builtinClass builtin))
  | .unicodeProperty property =>
    some (matchSimpleWithModifiers platform modifiers (.unicodeProperty property))
  | _ => none

def atWordBoundary (pos : Nat) : Bool :=
  let unicodeIgnoreCase := modifiers.ignoreCase && program.unicode
  let before := 0 < pos && isWordCharUnicode platform (codeUnit input (pos - 1)) unicodeIgnoreCase
  let after := pos < input.length &&
    isWordCharUnicode platform (codeUnit input pos) unicodeIgnoreCase
  before != after

def atStart (multiline : Bool) (pos : Nat) : Bool :=
  pos == 0 || ((multiline || modifiers.multiline) && isLineTerminator (codeUnit input (pos - 1)))

def atEnd (multiline : Bool) (pos : Nat) : Bool :=
  input.length ≤ pos ||
    ((multiline || modifiers.multiline) && isLineTerminator (codeUnit input pos))

end

def sameUnits (ignoreCase : Bool) (left right length : Nat) : Bool :=
  (List.range length).all fun offset =>
    if ignoreCase then
      caseFoldEq platform (codeUnit input (left + offset)) (codeUnit input (right + offset)) false
    else codeUnit input (left + offset) == codeUnit input (right + offset)

/-- Compares code points of the capture and of the input from `pos` on, and says where the
input text ends; `bound` is where that text has to stop. -/
def sameCodePoints (ignoreCase : Bool) (captureEnd bound : Nat) :
    (fuel capturePos pos : Nat) → Option Nat
  | 0, _, pos => some pos
  | fuel + 1, capturePos, pos =>
    if captureEnd ≤ capturePos then some pos
    else if bound ≤ pos then none
    else
      let captured := decodeCodePoint true input capturePos
      let found := decodeCodePoint true input pos
      if (if ignoreCase then caseFoldEq platform captured found true else captured == found) then
        sameCodePoints ignoreCase captureEnd bound fuel
          (capturePos + codePointLen true input capturePos) (pos + codePointLen true input pos)
      else none

def countCodePoints (captureEnd : Nat) : (fuel pos : Nat) → Nat
  | 0, _ => 0
  | fuel + 1, pos =>
    if captureEnd ≤ pos then 0
    else countCodePoints captureEnd fuel (pos + codePointLen true input pos) + 1

def matchBackrefUnicode (modifiers : ActiveModifiers) (backward : Bool)
    (start stop pos : Nat) : Option Nat :=
  if backward then
    match moveChars (retreatOneChar true input)
        (countCodePoints input stop (stop - start) start) pos with
    | none => none
    | some checkPos =>
      (sameCodePoints platform input modifiers.ignoreCase stop pos (stop - start) start
        checkPos).map fun _ => checkPos
  else
    sameCodePoints platform input modifiers.ignoreCase stop input.length (stop - start) start pos

def captureOf (registers : List Int) (group : Nat) : Option (Nat × Nat) :=
  let start := registers.getD (group * 2) (-1)
  let stop := registers.getD (group * 2 + 1) (-1)
  if start < 0 ∨ stop < 0 then none else some (start.toNat, stop.toNat)

def matchBackref (modifiers : ActiveModifiers) (backward : Bool) (registers : List Int)
    (pos group : Nat) : Option Nat :=
  match captureOf registers group with
  | none => some pos
  | some (start, stop) =>
    if program.unicode then
      matchBackrefUnicode platform input modifiers backward start stop pos
    else
      let length := stop - start
      if backward then
        if pos < length then none
        else if sameUnits platform input modifiers.ignoreCase start (pos - length) length then
          some (pos - length)
        else none
      else
        if input.length < pos + length then none
        else if sameUnits platform input modifiers.ignoreCase start pos length then
          some (pos + length)
        else none

/-- `match_backref_named`: the first group of the name that has captured. -/
def matchBackrefNamed (modifiers : ActiveModifiers) (backward : Bool) (registers : List Int)
    (pos : Nat) (name : String) : Option Nat :=
  match program.namedGroups.find? fun group =>
      group.name == name && (captureOf registers group.index).isSome with
  | some group => matchBackref platform program input modifiers backward registers pos group.index
  | none => some pos

def codePointBefore (pos : Nat) : Nat :=
  if program.unicode && isLowSurrogate (codeUnit input (pos - 1)) && 2 ≤ pos &&
      isHighSurrogate (codeUnit input (pos - 2)) then
    combineSurrogates (codeUnit input (pos - 2)) (codeUnit input (pos - 1))
  else codeUnit input (pos - 1)

def matchString (backward : Bool) : List Nat → Nat → Option Nat
  | [], pos => some pos
  | expected :: rest, pos =>
    if backward then
      if pos = 0 then none
      else if codePointBefore program input pos = expected then
        matchString backward rest (retreatOneChar program.unicode input pos)
      else none
    else if input.length ≤ pos then none
    else if decodeCodePoint program.unicode input pos = expected then
      matchString backward rest (pos + codePointLen program.unicode input pos)
    else none

/-- `handle_string_property_match`: the first string that matches, else one character. -/
def matchStringProperty (backward : Bool) (strings : List (List Nat))
    (property : UnicodeProperty) (pos : Nat) : Option Nat :=
  match strings.findSome? fun string =>
      if string = [] then none else matchString program input backward string pos with
  | some next => some next
  | none =>
    match currentCodePoint program.unicode input backward pos with
    | some codePoint =>
      if platform.propertyMatches codePoint property.name property.value then
        some (advanceChar program.unicode input backward pos)
      else none
    | none => none

end

section
variable (platform : Platform) (program : Program) (input : Input) (vm : Vm)

def Vm.fail : Vm := { vm with failing := some vm.pc }

def Vm.moveOrFail : Option Nat → Vm
  | some pos => { vm with pos := pos, pc := vm.pc + 1 }
  | none => vm.fail

def Vm.continueIf (holds : Bool) : Vm :=
  if holds then { vm with pc := vm.pc + 1 } else vm.fail

def Vm.pushBacktrack (pc : Nat) (registers : List Int) : List SavedState :=
  .normal pc vm.pos registers vm.modifiers vm.modifierStack.length :: vm.backtrackStack

def Vm.saveRegister (register : Nat) : Vm :=
  -- A lookbehind walks from right to left, so a group's end is met before its start.
  let target :=
    if vm.backward && register < (program.captureCount + 1) * 2 then
      if register % 2 = 0 then register + 1 else register - 1
    else register
  { vm with registers := vm.registers.set target vm.pos, pc := vm.pc + 1 }

/-- The run of `Save` and `ClearRegister` instructions the fast loop executes at once. -/
def fuseSaves (pos : Nat) : List Instruction → List Int → Nat → List Int × Nat
  | .save register :: rest, registers, pc =>
    fuseSaves pos rest (registers.set register pos) (pc + 1)
  | .clearRegister register :: rest, registers, pc =>
    fuseSaves pos rest (registers.set register (-1)) (pc + 1)
  | _, registers, pc => (registers, pc)

def Vm.saveFused : Vm :=
  let fused := fuseSaves vm.pos (program.instructions.drop vm.pc) vm.registers vm.pc
  { vm with registers := fused.1, pc := fused.2 }

def clearAll (registers : List Int) (cleared : List Nat) : List Int :=
  cleared.foldl (fun registers register => registers.set register (-1)) registers

def Vm.checkProgress (register : Nat) (clearCaptures : List Nat) : Vm :=
  if vm.registers.getD register (-1) = vm.pos then
    { vm with registers := clearAll vm.registers clearCaptures }.fail
  else { vm with registers := vm.registers.set register vm.pos, pc := vm.pc + 1 }

/-- A register read as an unsigned 32-bit count. -/
def countIn (registers : List Int) (register : Nat) : Nat :=
  (registers.getD register (-1) % 4294967296).toNat

def Vm.checkRepeat (counter min : Nat) (max : Option Nat) (body : Nat) (greedy : Bool) : Vm :=
  let count := countIn vm.registers counter
  let counted := vm.registers.set counter (vm.registers.getD counter (-1) + 1)
  if count < min then { vm with registers := counted, pc := body }
  else if max.any (· ≤ count) then { vm with pc := vm.pc + 1 }
  else if greedy then
    { vm with
      backtrackStack := vm.pushBacktrack (vm.pc + 1) vm.registers
      registers := counted
      pc := body }
  else { vm with backtrackStack := vm.pushBacktrack body counted, pc := vm.pc + 1 }

def Vm.startLook (positive forward : Bool) (finish : Nat) : Vm :=
  { vm with
    frames := ⟨positive, finish, vm.pos, vm.backtrackStack.length, vm.btFloor, vm.backward,
      vm.registers⟩ :: vm.frames
    btFloor := vm.backtrackStack.length
    pc := vm.pc + 1
    backward := !forward }

def Vm.leaveLook (frame : LookFrame) (frames : List LookFrame) : Vm :=
  { vm with
    frames := frames
    btFloor := frame.btFloor
    backward := frame.backward
    pos := frame.pos
    backtrackStack := truncate vm.backtrackStack frame.backtrackLength }

def Vm.bodyMatched : Outcome :=
  match vm.frames with
  | [] => .finished .matched vm
  | frame :: frames =>
    let left := vm.leaveLook frame frames
    if frame.positive then .running { left with pc := frame.finish }
    else .running { left with registers := frame.registers }.fail

def Vm.bodyFailed : Outcome :=
  match vm.frames with
  | [] => .finished .noMatch vm
  | frame :: frames =>
    let left := { vm.leaveLook frame frames with registers := frame.registers }
    if frame.positive then .running left
    else .running { left with pc := frame.finish, failing := none }

def applyModifiers (modifiers : ActiveModifiers) (ignoreCase multiline dotAll : Option Bool) :
    ActiveModifiers :=
  ⟨ignoreCase.getD modifiers.ignoreCase, multiline.getD modifiers.multiline,
    dotAll.getD modifiers.dotAll⟩

def Vm.pushModifiers (ignoreCase multiline dotAll : Option Bool) : Vm :=
  { vm with
    modifierStack := vm.modifiers :: vm.modifierStack
    modifiers := applyModifiers vm.modifiers ignoreCase multiline dotAll
    pc := vm.pc + 1 }

def Vm.popModifiers : Vm :=
  match vm.modifierStack with
  | [] => { vm with pc := vm.pc + 1 }
  | previous :: rest => { vm with modifierStack := rest, modifiers := previous, pc := vm.pc + 1 }

def Vm.finishGreedy (min : Nat) (consumed : Nat × Nat) : Vm :=
  if consumed.1 < min then vm.fail
  else
    { vm with
      pos := consumed.2
      pc := vm.pc + 1
      backtrackStack :=
        if min < consumed.1 then
          .greedy vm.pc vm.pos consumed.2 vm.registers min vm.backward vm.modifiers
            vm.modifierStack.length :: vm.backtrackStack
        else vm.backtrackStack }

def Vm.finishLazy (min : Nat) (max : Option Nat) : Option Nat → Vm
  | none => vm.fail
  | some pos =>
    { vm with
      pos := pos
      pc := vm.pc + 1
      backtrackStack :=
        .lazy vm.pc pos vm.registers max min vm.modifiers vm.modifierStack.length ::
          vm.backtrackStack }

/-- The instructions whose handlers both loops share. -/
def Vm.stepShared : Instruction → Outcome
  | .jump target => .running { vm with pc := target }
  | .split prefer other =>
    .running { vm with backtrackStack := vm.pushBacktrack other vm.registers, pc := prefer }
  | .assertStart multiline => .running (vm.continueIf (atStart input vm.modifiers multiline vm.pos))
  | .assertEnd multiline => .running (vm.continueIf (atEnd input vm.modifiers multiline vm.pos))
  | .assertWordBoundary =>
    .running (vm.continueIf (atWordBoundary platform program input vm.modifiers vm.pos))
  | .assertNonWordBoundary =>
    .running (vm.continueIf (!atWordBoundary platform program input vm.modifiers vm.pos))
  | .accept => vm.bodyMatched
  | .fail => .running vm.fail
  | .backref group =>
    .running (vm.moveOrFail
      (matchBackref platform program input vm.modifiers vm.backward vm.registers vm.pos group))
  | .backrefNamed name =>
    .running (vm.moveOrFail
      (matchBackrefNamed platform program input vm.modifiers vm.backward vm.registers vm.pos name))
  | .repeatStart counter =>
    .running { vm with registers := vm.registers.set counter 0, pc := vm.pc + 1 }
  | .repeatCheck counter min max body greedy =>
    .running (vm.checkRepeat counter min max body greedy)
  | .lookStart positive forward finish => .running (vm.startLook positive forward finish)
  | .lookEnd => vm.bodyMatched
  | .pushModifiers ignoreCase multiline dotAll =>
    .running (vm.pushModifiers ignoreCase multiline dotAll)
  | .popModifiers => .running vm.popModifiers
  | .stringPropertyMatch strings property =>
    .running (vm.moveOrFail
      (matchStringProperty platform program input vm.backward strings property vm.pos))
  | .progressCheck register clearCaptures => .running (vm.checkProgress register clearCaptures)
  | _ => .running { vm with pc := vm.pc + 1 }

def Vm.consumeOne (test : Nat → Bool) : Vm :=
  vm.moveOrFail
    (match currentCodePoint program.unicode input vm.backward vm.pos with
    | some codePoint =>
      if test codePoint then some (advanceChar program.unicode input vm.backward vm.pos) else none
    | none => none)

def Vm.consumeOneFast (test : Nat → Bool) : Vm :=
  vm.moveOrFail
    (if vm.pos < input.length && test (codeUnit input vm.pos) then some (vm.pos + 1) else none)

def Vm.stepGeneral (instruction : Instruction) : Outcome :=
  match generalTest platform program vm.modifiers instruction with
  | some test => .running (vm.consumeOne program input test)
  | none =>
    match instruction with
    | .save register => .running (vm.saveRegister program register)
    | .clearRegister register =>
      .running { vm with registers := vm.registers.set register (-1), pc := vm.pc + 1 }
    | .greedyLoop matcher min max =>
      .running (vm.finishGreedy min
        (consume program.unicode input vm.backward
          (matchSimple platform program vm.modifiers matcher) max (input.length + 1) 0 vm.pos))
    | .lazyLoop matcher min max =>
      .running (vm.finishLazy min max
        (consumeExactly program.unicode input vm.backward
          (matchSimple platform program vm.modifiers matcher) min vm.pos))
    | _ => vm.stepShared platform program input instruction

def Vm.stepFast (instruction : Instruction) : Outcome :=
  match fastTest platform vm.modifiers instruction with
  | some test => .running (vm.consumeOneFast input test)
  | none =>
    match instruction with
    | .save _ => .running (vm.saveFused program)
    | .clearRegister _ => .running (vm.saveFused program)
    | .greedyLoop matcher min max =>
      .running (vm.finishGreedy min
        (consume false input false (fastLoopTest platform vm.modifiers matcher)
          (some (max.getD 4294967295)) (input.length + 1) 0 vm.pos))
    | .lazyLoop matcher min max =>
      .running (vm.finishLazy min max
        (consumeExactly false input false (matchSimple platform program vm.modifiers matcher)
          min vm.pos))
    | _ => vm.stepShared platform program input instruction

/-- The sum of the minimum counts of the loops over the same matcher that follow, if one of
them is positive; the sum is computed with 32 bits. -/
def sameMatcherLoopSuffixMin (matcher : SimpleMatch) :
    List Instruction → (total : Nat) → (sawPositive : Bool) → Option Nat
  | .greedyLoop next min _ :: rest, total, sawPositive =>
    if next = matcher then
      if total + min < 4294967296 then
        sameMatcherLoopSuffixMin matcher rest (total + min) (sawPositive || 0 < min)
      else none
    else if sawPositive then some total else none
  | .lazyLoop next min _ :: rest, total, sawPositive =>
    if next = matcher then
      if total + min < 4294967296 then
        sameMatcherLoopSuffixMin matcher rest (total + min) (sawPositive || 0 < min)
      else none
    else if sawPositive then some total else none
  | _, total, sawPositive => if sawPositive then some total else none

/-- How many characters a greedy loop has to give back before the loops over the same
matcher behind it can make their required iterations. -/
def sameMatcherLoopSuffixDeficit (modifiers : ActiveModifiers) (pc currentPos : Nat)
    (backward : Bool) : Option Nat :=
  match program.instructions[pc]? with
  | some (.greedyLoop matcher _ _) =>
    match sameMatcherLoopSuffixMin matcher (program.instructions.drop (pc + 1)) 0 false with
    | some suffixMin =>
      let available := countAvailable program.unicode input backward
        (matchSimple platform program modifiers matcher) suffixMin 0 currentPos
      if available < suffixMin then some (suffixMin - available) else none
    | none => none
  | _ => none

def expectedNext (modifiers : ActiveModifiers) (pc : Nat) : Option Nat :=
  match program.instructions[pc + 1]? with
  | some (.char expected) => if modifiers.ignoreCase then none else some expected
  | _ => none

def surrogatesAt (high low pos : Nat) : Bool :=
  codeUnit input pos == high && codeUnit input (pos + 1) == low

def giveBackForward (modifiers : ActiveModifiers) (pc startPos currentPos min : Nat) :
    Option Nat × Nat :=
  let minPos :=
    if program.unicode then (advanceOneChar true input)^[min] startPos else startPos + min
  let newPos :=
    match sameMatcherLoopSuffixDeficit platform program input modifiers pc currentPos false with
    | some deficit => retreatNChars program.unicode input currentPos deficit
    | none =>
      match expectedNext program modifiers pc with
      | some expected =>
        if expected ≤ 0xFFFF then
          scanBack (fun pos => codeUnit input pos == expected) minPos (currentPos - 1)
        else
          scanBack (fun pos => pos + 1 < input.length && surrogatesAt input
            (Compile.highSurrogateOf expected) (Compile.lowSurrogateOf expected) pos)
            minPos (currentPos - 2)
      | none => some (retreatOneChar program.unicode input currentPos)
  (newPos.filter (minPos ≤ ·), minPos)

def giveBackBackward (modifiers : ActiveModifiers) (pc startPos currentPos min : Nat) :
    Option Nat × Nat :=
  let maxPos :=
    if program.unicode then (retreatOneChar true input)^[min] startPos else startPos - min
  let newPos :=
    match sameMatcherLoopSuffixDeficit platform program input modifiers pc currentPos true with
    | some deficit => advanceNChars program.unicode input currentPos deficit
    | none =>
      match expectedNext program modifiers pc with
      | some expected =>
        let hit := fun pos =>
          if expected ≤ 0xFFFF then 0 < pos && codeUnit input (pos - 1) == expected
          else 2 ≤ pos && surrogatesAt input (Compile.highSurrogateOf expected)
            (Compile.lowSurrogateOf expected) (pos - 2)
        scanAhead program.unicode input hit maxPos (input.length + 1)
          (advanceOneChar program.unicode input currentPos)
      | none => some (advanceOneChar program.unicode input currentPos)
  (newPos.filter (· ≤ maxPos), maxPos)

def Vm.restore (stack : List SavedState) (registers : List Int)
    (modifiers : ActiveModifiers) (modifierStackLength : Nat) : Vm :=
  { vm with
    backtrackStack := stack
    registers := registers
    modifiers := modifiers
    modifierStack := truncate vm.modifierStack modifierStackLength }

/-- One round of `backtrack`: resume the last saved state, or go on to the one before when
it has nothing left to try. -/
def Vm.resume (saved : SavedState) (stack : List SavedState) : Vm :=
  match saved with
  | .normal pc pos registers modifiers modifierStackLength =>
    { vm.restore stack registers modifiers modifierStackLength with
      pc := pc
      pos := pos
      failing := none }
  | .greedy pc startPos currentPos registers min backward modifiers modifierStackLength =>
    let restored := vm.restore stack registers modifiers modifierStackLength
    let (newPos, bound) :=
      if backward then
        giveBackBackward platform program input modifiers pc startPos currentPos min
      else giveBackForward platform program input modifiers pc startPos currentPos min
    match newPos with
    | none => { restored with failing := some pc }
    | some newPos =>
      { restored with
        pc := pc + 1
        pos := newPos
        failing := none
        backtrackStack :=
          if (if backward then newPos < bound else bound < newPos) then
            .greedy pc startPos newPos registers min backward modifiers modifierStackLength :: stack
          else stack }
  | .lazy pc pos registers max consumed modifiers modifierStackLength =>
    let restored := vm.restore stack registers modifiers modifierStackLength
    let next :=
      if max.any (· ≤ consumed) then none
      else
        match program.instructions[pc]? with
        | some (.lazyLoop matcher _ _) =>
          (currentCodePoint program.unicode input vm.backward pos).bind fun codePoint =>
            if matchSimple platform program modifiers matcher codePoint then
              some (advanceChar program.unicode input vm.backward pos)
            else none
        | _ => none
    match next with
    | none => { restored with failing := some pc }
    | some newPos =>
      { restored with
        pc := pc + 1
        pos := newPos
        failing := none
        backtrackStack :=
          .lazy pc newPos registers max (consumed + 1) modifiers
            restored.modifierStack.length :: stack }

def Vm.stepFailing : Outcome :=
  if vm.backtrackStack.length ≤ vm.btFloor then vm.bodyFailed
  else
    match vm.backtrackStack with
    | [] => vm.bodyFailed
    | saved :: stack => .running (vm.resume platform program input saved stack)

def Vm.stepRunning : Outcome :=
  let counted := { vm with steps := vm.steps + 1 }
  if matchLimit ≤ counted.steps then .finished .limitExceeded counted
  else
    match program.instructions[vm.pc]? with
    | none => .running counted.fail
    | some instruction =>
      if !program.unicode && !vm.backward then counted.stepFast platform program input instruction
      else counted.stepGeneral platform program input instruction

def Vm.step : Outcome :=
  if vm.failing.isSome then vm.stepFailing platform program input
  else vm.stepRunning platform program input

end

/-- A platform that knows the cases of the ASCII letters only, to evaluate the machine on
concrete patterns. -/
def asciiPlatform : Platform where
  toLowercase := fun codePoint =>
    if 0x41 ≤ codePoint && codePoint ≤ 0x5A then codePoint + 32 else codePoint
  toUppercase := fun codePoint =>
    if 0x61 ≤ codePoint && codePoint ≤ 0x7A then codePoint - 32 else codePoint
  simpleCaseFold := fun codePoint _ => codePoint
  codePointMatchesRangeIgnoringCase := fun codePoint low high _ =>
    low ≤ codePoint && codePoint ≤ high
  caseClosure := fun codePoint => [codePoint]
  propertyMatches := fun _ _ _ => false
  propertyMatchesCaseInsensitive := fun _ _ _ => false
  propertyAllCaseEquivalentsMatch := fun _ _ _ => false
  isStringProperty := fun _ => false
  stringPropertyStrings := fun _ => []

end Ladybone.Regex.Machine
