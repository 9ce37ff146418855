import Ladybone.SubresourceIntegrity.Metadata

/-!
# The published rule

Items are separated by any ASCII whitespace, and an item is split strictly: an empty piece is a
piece. The check decides the rule for attributes without other whitespace than spaces and
without empty pieces where they count.
-/

namespace Ladybone.SubresourceIntegrity

open List

def isAsciiWhitespace (character : Char) : Bool :=
  character == '\t' || character == '\n' || character == '\x0c' || character == '\r' ||
    character == ' '

def ruleItems (text : Text) : List Text := (text.splitOnP isAsciiWhitespace).filter (· ≠ [])

def hashExpression (item : Text) : Text := (item.splitOn '?').headD []

def ruleMetadata (item : Text) : Option Metadata :=
  let pieces := (hashExpression item).splitOn '-'
  (recognize (pieces.headD [])).map fun function => ⟨function, pieces.tail.headD []⟩

def ruleSet (text : Text) : List Metadata := (ruleItems text).filterMap ruleMetadata

def SameStrongest (set other : List Metadata) : Prop :=
  ∀ item, IsStrongest set item ↔ IsStrongest other item

/-- The parser gets through and reads the strongest items as the rule does. -/
def ReadsAsRule (text : Text) : Prop :=
  ∃ parsed, parseMetadata text = some parsed ∧ SameStrongest parsed (ruleSet text)

/-! ## The strongest items decide -/

variable {set other : List Metadata} {digest : HashFunction → Bytes → Text} {bytes : Bytes}
  {text : Text}

section
variable (same : SameStrongest set other)

include same

theorem SameStrongest.symm : SameStrongest other set :=
  fun item => (same item).symm

theorem eq_nil_of_same_strongest (none : set = []) : other = [] := by
  by_contra nonempty
  obtain ⟨item, strongest⟩ := exists_is_strongest nonempty
  have mem := ((same item).mpr strongest).1
  rw [none] at mem
  cases mem

theorem accepts_of_same_strongest (accepts : Accepts digest bytes set) :
    Accepts digest bytes other := by
  rcases accepts with none | ⟨item, strongest, isDigest⟩
  · exact .inl (eq_nil_of_same_strongest same none)
  · exact .inr ⟨item, (same item).mp strongest, isDigest⟩

theorem accepts_iff_of_same_strongest : Accepts digest bytes set ↔ Accepts digest bytes other :=
  ⟨accepts_of_same_strongest same, accepts_of_same_strongest same.symm⟩

end

/-! ## Rewording -/

/-- The other attribute names the same and perhaps some weaker items, in any order and with any
separators. -/
def Reworded (text other : Text) : Prop :=
  (∀ item ∈ ruleSet text, item ∈ ruleSet other) ∧
    ∀ item ∈ ruleSet other, item ∈ ruleSet text ∨
      ∃ stronger ∈ ruleSet text, item.algorithm.priority < stronger.algorithm.priority

theorem same_strongest_of_reworded {other : Text} (reworded : Reworded text other) :
    SameStrongest (ruleSet text) (ruleSet other) := by
  obtain ⟨kept, added⟩ := reworded
  intro item
  constructor
  · rintro ⟨mem, strongest⟩
    refine ⟨kept item mem, fun competitor isNamed => ?_⟩
    rcases added competitor isNamed with before | ⟨stronger, isBefore, weaker⟩
    · exact strongest competitor before
    · exact Nat.le_trans (Nat.le_of_lt weaker) (strongest stronger isBefore)
  · rintro ⟨mem, strongest⟩
    rcases added item mem with before | ⟨stronger, isBefore, weaker⟩
    · exact ⟨before, fun competitor isNamed => strongest competitor (kept competitor isNamed)⟩
    · exact absurd (strongest stronger (kept stronger isBefore)) (Nat.not_le_of_lt weaker)

/-! ## Attributes that are read as the rule reads them -/

/-- The item starts with a name, and an empty value has nothing behind it. -/
def TidyItem (item : Text) : Prop :=
  let pieces := (hashExpression item).splitOn '-'
  hashExpression item ≠ [] ∧ pieces.headD [] ≠ [] ∧
    (pieces.tail.headD [] = [] → ∀ value ∈ pieces.tail, value = [])

instance : DecidablePred TidyItem := fun item => by
  unfold TidyItem
  infer_instance

structure Tidy (text : Text) : Prop where
  spaces : ∀ character ∈ text, isAsciiWhitespace character = true → character = ' '
  items : ∀ item ∈ ruleItems text, TidyItem item

theorem split_on_p_congr {first second : Char → Bool}
    (same : ∀ character ∈ text, first character = second character) :
    text.splitOnP first = text.splitOnP second := by
  induction text with
  | nil => rfl
  | cons character _ ih =>
    rw [splitOnP_cons_eq_if_modifyHead, splitOnP_cons_eq_if_modifyHead,
      same character mem_cons_self, ih fun other mem => same other (mem_cons_of_mem _ mem)]

theorem rule_items_eq_split_view
    (spaces : ∀ character ∈ text, isAsciiWhitespace character = true → character = ' ') :
    ruleItems text = splitView ' ' text := by
  have sameSplit : text.splitOnP isAsciiWhitespace = text.splitOnP (· == ' ') := by
    refine split_on_p_congr fun character mem => ?_
    cases isSpace : isAsciiWhitespace character with
    | true => exact (beq_iff_eq.mpr (spaces character mem isSpace)).symm
    | false =>
      refine (beq_eq_false_iff_ne.mpr ?_).symm
      rintro rfl
      cases isSpace
  unfold ruleItems splitView List.splitOn
  rw [sameSplit]

theorem head_filter_values {vals : List Text}
    (empty : vals.headD [] = [] → ∀ val ∈ vals, val = []) :
    (vals.filter (· ≠ [])).headD [] = vals.headD [] := by
  cases vals with
  | nil => rfl
  | cons val =>
    by_cases isEmpty : val = []
    · have allEmpty := empty isEmpty
      rw [filter_eq_nil_iff.mpr (by simpa using allEmpty)]
      exact isEmpty.symm
    · rw [filter_cons, if_pos (decide_eq_true isEmpty)]
      rfl

theorem parse_item_of_tidy {item : Text} (tidy : TidyItem item) :
    parseItem item = some (ruleMetadata item) := by
  obtain ⟨nonempty, named, empty⟩ := tidy
  obtain ⟨algorithm, vals, pieces⟩ :=
    exists_cons_of_ne_nil (splitOn_ne_nil '-' (hashExpression item))
  simp only [pieces, headD_cons, tail_cons] at named empty
  have parts : ∃ options, splitView '?' item = hashExpression item :: options := by
    unfold hashExpression at nonempty ⊢
    unfold splitView
    cases split : item.splitOn '?' with
    | nil =>
      rw [split] at nonempty
      exact absurd rfl nonempty
    | cons expression =>
      rw [split] at nonempty
      have given : expression ≠ [] := nonempty
      rw [filter_cons, if_pos (decide_eq_true given)]
      exact ⟨_, rfl⟩
  obtain ⟨options, isParts⟩ := parts
  have isPieces : splitView '-' (hashExpression item) = algorithm :: vals.filter (· ≠ []) := by
    unfold splitView
    rw [pieces, filter_cons, if_pos (decide_eq_true named)]
  unfold parseItem ruleMetadata
  rw [isParts]
  dsimp only
  rw [isPieces, pieces]
  dsimp only
  rw [head_filter_values empty]
  rfl

theorem parse_items_of_tidy {items : List Text} (tidy : ∀ item ∈ items, TidyItem item) :
    parseItems items = some (items.filterMap ruleMetadata) := by
  induction items with
  | nil => rfl
  | cons item _ ih =>
    unfold parseItems
    rw [parse_item_of_tidy (tidy item mem_cons_self),
      ih fun other mem => tidy other (mem_cons_of_mem _ mem)]
    cases isMetadata : ruleMetadata item with
    | none | some => simp [isMetadata]

theorem parse_metadata_of_tidy (tidy : Tidy text) :
    parseMetadata text = some (ruleSet text) := by
  have items := tidy.items
  unfold parseMetadata ruleSet
  rw [rule_items_eq_split_view tidy.spaces] at items ⊢
  exact parse_items_of_tidy items

theorem reads_as_rule_of_tidy (tidy : Tidy text) : ReadsAsRule text :=
  ⟨ruleSet text, parse_metadata_of_tidy tidy, fun _ => Iff.rfl⟩

/-- `sha256-A sha512-B?x sha512-C md5-D` -/
def mixedAttribute : Text :=
  ['s', 'h', 'a', '2', '5', '6', '-', 'A', ' ', 's', 'h', 'a', '5', '1', '2', '-', 'B', '?', 'x',
    ' ', 's', 'h', 'a', '5', '1', '2', '-', 'C', ' ', 'm', 'd', '5', '-', 'D']

theorem mixed_attribute_tidy : Tidy mixedAttribute :=
  ⟨by simp [mixedAttribute, isAsciiWhitespace], by decide +kernel⟩

theorem mixed_attribute_reads_as_rule :
    ReadsAsRule mixedAttribute ∧
      ruleSet mixedAttribute = [⟨.sha256, ['A']⟩, ⟨.sha512, ['B']⟩, ⟨.sha512, ['C']⟩] :=
  ⟨reads_as_rule_of_tidy mixed_attribute_tidy, by decide⟩

/-! ## The decision -/

def FollowsRule (digest : HashFunction → Bytes → Text) (bytes : Bytes) (text : Text) : Prop :=
  ∃ answer, doBytesMatchMetadataList digest bytes text = some answer ∧
    (answer = true ↔ Accepts digest bytes (ruleSet text))

theorem follows_rule_of_tidy (tidy : Tidy text) (digest : HashFunction → Bytes → Text)
    (bytes : Bytes) : FollowsRule digest bytes text := by
  have isParsed := parse_metadata_of_tidy tidy
  obtain ⟨answer, isAnswer⟩ :
      ∃ answer, doBytesMatchMetadataList digest bytes text = some answer := by
    unfold doBytesMatchMetadataList
    rw [isParsed]
    exact ⟨_, rfl⟩
  refine ⟨answer, isAnswer, ?_⟩
  rw [← do_bytes_match_eq_some_true_iff isParsed, isAnswer, Option.some.injEq]

/-- On a tidy attribute the check follows the rule for all hash functions and bodies, and
rewording it changes nothing. -/
theorem tidy_integrity_follows_rule (text : Text) (tidy : Tidy text) :
    (∀ digest bytes, FollowsRule digest bytes text) ∧
    ∀ other, Tidy other → Reworded text other → ∀ digest bytes,
      doBytesMatchMetadataList digest bytes text =
        doBytesMatchMetadataList digest bytes other := by
  refine ⟨follows_rule_of_tidy tidy, ?_⟩
  intro other otherTidy reworded digest bytes
  obtain ⟨answer, isAnswer, isRule⟩ := follows_rule_of_tidy tidy digest bytes
  obtain ⟨otherAnswer, isOther, isOtherRule⟩ := follows_rule_of_tidy otherTidy digest bytes
  have same : answer = true ↔ otherAnswer = true := by
    rw [isRule, isOtherRule]
    exact accepts_iff_of_same_strongest (same_strongest_of_reworded reworded)
  rw [isAnswer, isOther, Bool.eq_iff_iff.mpr same]

/-- `sha512-C  sha384-E sha512-B sha256-A`: another order, one more item of a weaker function -/
def reorderedAttribute : Text :=
  ['s', 'h', 'a', '5', '1', '2', '-', 'C', ' ', ' ', 's', 'h', 'a', '3', '8', '4', '-', 'E', ' ',
    's', 'h', 'a', '5', '1', '2', '-', 'B', ' ', 's', 'h', 'a', '2', '5', '6', '-', 'A']

theorem reordered_attribute_tidy : Tidy reorderedAttribute :=
  ⟨by simp [reorderedAttribute, isAsciiWhitespace], by decide +kernel⟩

theorem mixed_attribute_follows_rule :
    (∀ digest bytes, FollowsRule digest bytes mixedAttribute) ∧
    ∀ digest bytes, doBytesMatchMetadataList digest bytes mixedAttribute =
      doBytesMatchMetadataList digest bytes reorderedAttribute := by
  obtain ⟨follows, reworded⟩ := tidy_integrity_follows_rule mixedAttribute mixed_attribute_tidy
  exact ⟨follows, reworded reorderedAttribute reordered_attribute_tidy ⟨by decide, by decide⟩⟩

/-- `md5` and `sha256-D`, separated by a tab -/
def tabbedAttribute : Text :=
  ['m', 'd', '5', '\t', 's', 'h', 'a', '2', '5', '6', '-', 'D']

/-- An item without a name stops the process, and behind a tab any body passes. -/
theorem integrity_aborts_and_fails_open :
    (∀ digest bytes, doBytesMatchMetadataList digest bytes ['?'] = none) ∧
    doBytesMatchMetadataList (fun _ _ => ['E']) [] tabbedAttribute = some true ∧
      ¬ Accepts (fun _ _ => ['E']) [] (ruleSet tabbedAttribute) := by
  refine ⟨fun digest bytes => rfl, by decide, ?_⟩
  rintro (none | ⟨item, strongest, isDigest⟩)
  · revert none
    decide
  · have named : ruleSet tabbedAttribute = [⟨.sha256, ['D']⟩] := by decide
    have member := strongest.1
    rw [named, mem_singleton] at member
    rw [member] at isDigest
    revert isDigest
    decide

end Ladybone.SubresourceIntegrity
