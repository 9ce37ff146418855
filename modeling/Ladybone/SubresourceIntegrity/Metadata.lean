import Mathlib.Data.List.Basic

/-!
# Integrity metadata

`parse_metadata`, `get_strongest_metadata_from_set` and `do_bytes_match_metadata_list`. Strings are
their code points; all separators are ASCII. The hash functions with the encoder behind them are a
parameter. A result is `none` where the first piece of nothing is taken and the process stops.
-/

namespace Ladybone.SubresourceIntegrity

open List

abbrev Text := List Char

abbrev Bytes := List UInt8

def splitView (separator : Char) (text : Text) : List Text :=
  (text.splitOn separator).filter (· ≠ [])

inductive HashFunction where
  | sha256
  | sha384
  | sha512
deriving DecidableEq

/-- The place in `supported_hash_functions`, low to high. -/
def HashFunction.priority : HashFunction → Nat
  | sha256 => 0
  | sha384 => 1
  | sha512 => 2

def recognize (algorithm : Text) : Option HashFunction :=
  if algorithm = ['s', 'h', 'a', '2', '5', '6'] then some .sha256
  else if algorithm = ['s', 'h', 'a', '3', '8', '4'] then some .sha384
  else if algorithm = ['s', 'h', 'a', '5', '1', '2'] then some .sha512
  else none

def getPrioritizedHashFunction (first second : HashFunction) : Option HashFunction :=
  if first = second then none
  else if second.priority < first.priority then some first
  else some second

/-- Options are never set. -/
structure Metadata where
  algorithm : HashFunction
  base64Value : Text
deriving DecidableEq

/-! ## Parsing -/

def parseItem (item : Text) : Option (Option Metadata) :=
  match splitView '?' item with
  | [] => none
  | hashExpression :: _ =>
    match splitView '-' hashExpression with
    | [] => none
    | algorithm :: values =>
      some ((recognize algorithm).map fun function => ⟨function, values.headD []⟩)

def parseItems : List Text → Option (List Metadata)
  | [] => some []
  | item :: rest => do
      let parsed ← parseItem item
      let metadata ← parseItems rest
      some (parsed.toList ++ metadata)

def parseMetadata (metadata : Text) : Option (List Metadata) :=
  parseItems (splitView ' ' metadata)

/-! ## The strongest items -/

/-- The item that set the strength, and the items collected since. -/
structure Strongest where
  strongest : Metadata
  result : List Metadata

def Strongest.start (item : Metadata) : Strongest := ⟨item, [item]⟩

/-- The body of the loop; nothing stands for the empty result it starts with. -/
def addItem (state : Option Strongest) (item : Metadata) : Option Strongest :=
  match state with
  | none => some (.start item)
  | some state =>
    match getPrioritizedHashFunction state.strongest.algorithm item.algorithm with
    | none => some { state with result := state.result ++ [item] }
    | some function =>
      if function = item.algorithm then some (.start item) else some state

def getStrongestMetadataFromSet (set : List Metadata) : List Metadata :=
  match set.foldl addItem none with
  | some state => state.result
  | none => []

def doBytesMatchMetadataList (digest : HashFunction → Bytes → Text) (bytes : Bytes)
    (metadataList : Text) : Option Bool :=
  (parseMetadata metadataList).map fun parsed =>
    if parsed = [] then true
    else
      (getStrongestMetadataFromSet parsed).any fun item =>
        digest item.algorithm bytes == item.base64Value

/-! ## What the loop collects -/

def Represents (seen : List Metadata) : Option Strongest → Prop
  | none => seen = []
  | some state =>
    state.strongest ∈ seen ∧
      (∀ item ∈ seen, item.algorithm.priority ≤ state.strongest.algorithm.priority) ∧
      ∀ item, item ∈ state.result ↔ item ∈ seen ∧ item.algorithm = state.strongest.algorithm

theorem priority_injective {first second : HashFunction}
    (same : first.priority = second.priority) : first = second := by
  cases first <;> cases second <;> first | rfl | cases same

variable {seen set : List Metadata} {state : Option Strongest} {item : Metadata}

theorem represents_start
    (weaker : ∀ other ∈ seen, other.algorithm.priority < item.algorithm.priority) :
    Represents (seen ++ [item]) (some (.start item)) := by
  refine ⟨mem_append_right _ mem_cons_self, ?_, ?_⟩
  · exact forall_mem_append.mpr
      ⟨fun other before => Nat.le_of_lt (weaker other before),
       forall_mem_singleton.mpr (Nat.le_refl _)⟩
  · intro other
    constructor
    · intro mem
      cases mem_singleton.mp mem
      exact ⟨mem_append_right _ mem_cons_self, rfl⟩
    · rintro ⟨mem, sameFunction⟩
      rcases mem_append.mp mem with before | isItem
      · have less := weaker other before
        rw [sameFunction] at less
        exact absurd less (Nat.lt_irrefl _)
      · exact isItem

theorem represents_add_item (represents : Represents seen state) (item : Metadata) :
    Represents (seen ++ [item]) (addItem state item) := by
  cases state with
  | none =>
    rw [show seen = [] from represents]
    exact represents_start fun other mem => (not_mem_nil mem).elim
  | some state =>
    obtain ⟨present, bounded, collected⟩ := represents
    unfold addItem getPrioritizedHashFunction
    dsimp only
    by_cases same : state.strongest.algorithm = item.algorithm
    · rw [if_pos same]
      refine ⟨mem_append_left _ present, ?_, ?_⟩
      · exact forall_mem_append.mpr
          ⟨bounded,
           forall_mem_singleton.mpr (Nat.le_of_eq (congrArg HashFunction.priority same.symm))⟩
      · intro other
        rw [mem_append, mem_append, collected other]
        constructor
        · rintro (⟨before, sameFunction⟩ | isItem)
          · exact ⟨.inl before, sameFunction⟩
          · refine ⟨.inr isItem, ?_⟩
            rw [mem_singleton.mp isItem, same]
        · rintro ⟨before | isItem, sameFunction⟩
          · exact .inl ⟨before, sameFunction⟩
          · exact .inr isItem
    · split_ifs with weaker
      · dsimp only
        rw [if_neg same]
        refine ⟨mem_append_left _ present, ?_, ?_⟩
        · exact forall_mem_append.mpr ⟨bounded, forall_mem_singleton.mpr (Nat.le_of_lt weaker)⟩
        · intro other
          rw [mem_append, collected other]
          constructor
          · rintro ⟨before, sameFunction⟩
            exact ⟨.inl before, sameFunction⟩
          · rintro ⟨before | isItem, sameFunction⟩
            · exact ⟨before, sameFunction⟩
            · rw [mem_singleton.mp isItem] at sameFunction
              exact absurd sameFunction.symm same
      · dsimp only
        rw [if_pos rfl]
        -- the new function is strictly stronger than everything before
        have stronger : state.strongest.algorithm.priority < item.algorithm.priority := by
          refine Nat.lt_of_le_of_ne (Nat.le_of_not_lt weaker) fun samePriority => ?_
          exact same (priority_injective samePriority)
        exact represents_start fun other mem =>
          Nat.lt_of_le_of_lt (bounded other mem) stronger

theorem represents_foldl (items : List Metadata) (represents : Represents seen state) :
    Represents (seen ++ items) (items.foldl addItem state) := by
  induction items generalizing seen state with
  | nil =>
    rwa [append_nil]
  | cons item _ ih =>
    have next := ih (represents_add_item represents item)
    rwa [append_assoc] at next

/-- The items no other item is stronger than. -/
def IsStrongest (set : List Metadata) (item : Metadata) : Prop :=
  item ∈ set ∧ ∀ other ∈ set, other.algorithm.priority ≤ item.algorithm.priority

theorem exists_is_strongest (nonempty : set ≠ []) : ∃ item, IsStrongest set item := by
  have start : Represents [] none := rfl
  have represents : Represents set (set.foldl addItem none) := represents_foldl set start
  cases isState : set.foldl addItem none with
  | none =>
    rw [isState] at represents
    exact absurd represents nonempty
  | some state =>
    rw [isState] at represents
    exact ⟨state.strongest, represents.1, represents.2.1⟩

theorem mem_get_strongest_iff : item ∈ getStrongestMetadataFromSet set ↔ IsStrongest set item := by
  have start : Represents [] none := rfl
  have represents : Represents set (set.foldl addItem none) := represents_foldl set start
  unfold getStrongestMetadataFromSet IsStrongest
  cases isState : set.foldl addItem none with
  | none =>
    rw [isState] at represents
    rw [show set = [] from represents]
    constructor
    · exact fun mem => (not_mem_nil mem).elim
    · exact fun strongest => (not_mem_nil strongest.1).elim
  | some state =>
    rw [isState] at represents
    obtain ⟨present, bounded, collected⟩ := represents
    rw [collected item]
    constructor
    · rintro ⟨mem, sameFunction⟩
      rw [sameFunction]
      exact ⟨mem, bounded⟩
    · rintro ⟨mem, strongest⟩
      refine ⟨mem, priority_injective ?_⟩
      exact Nat.le_antisymm (bounded item mem) (strongest state.strongest present)

def Accepts (digest : HashFunction → Bytes → Text) (bytes : Bytes) (set : List Metadata) : Prop :=
  set = [] ∨ ∃ item, IsStrongest set item ∧ digest item.algorithm bytes = item.base64Value

theorem do_bytes_match_eq_some_true_iff {digest : HashFunction → Bytes → Text} {bytes : Bytes}
    {text : Text} {parsed : List Metadata} (isParsed : parseMetadata text = some parsed) :
    doBytesMatchMetadataList digest bytes text = some true ↔ Accepts digest bytes parsed := by
  unfold doBytesMatchMetadataList Accepts
  rw [isParsed, Option.map_some, Option.some.injEq]
  by_cases none : parsed = []
  · simp [none]
  · rw [if_neg none, any_eq_true]
    constructor
    · rintro ⟨item, mem, isDigest⟩
      exact .inr ⟨item, mem_get_strongest_iff.mp mem, beq_iff_eq.mp isDigest⟩
    · rintro (isNone | ⟨item, strongest, isDigest⟩)
      · exact absurd isNone none
      · exact ⟨item, mem_get_strongest_iff.mpr strongest, beq_iff_eq.mpr isDigest⟩

end Ladybone.SubresourceIntegrity
