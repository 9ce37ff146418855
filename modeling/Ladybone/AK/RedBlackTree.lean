import Mathlib.Order.Lattice

/-!
# Red-black trees

`AK::RedBlackTree` as far as its insertion and its lookups go: `insert` descends to
an empty child, right on equal keys, and repairs the colours on the way back up.
The parent pointers of the source are the list of frames between a node and the
root, innermost first. What the clients of the tree rely on is said over the
in-order list of its entries.
-/

namespace Ladybone.AK.RedBlackTree

open List

inductive Color where
  | red
  | black
deriving DecidableEq

inductive Tree (K V : Type*) where
  | leaf
  | node (color : Color) (left : Tree K V) (key : K) (value : V) (right : Tree K V)
deriving DecidableEq

open RedBlackTree.Tree

/-- What is left of a node when one of its children is taken out. -/
inductive Frame (K V : Type*) where
  | inLeft (color : Color) (key : K) (value : V) (right : Tree K V)
  | inRight (color : Color) (left : Tree K V) (key : K) (value : V)

variable {K V : Type*}

namespace Tree

def isRed : Tree K V → Bool
  | leaf => false
  | node color _ _ _ _ => color == .red

def blacken : Tree K V → Tree K V
  | leaf => leaf
  | node _ left key value right => node .black left key value right

def rotateLeft : Tree K V → Tree K V
  | node color left key value (node pivotColor inner pivotKey pivotValue right) =>
    node pivotColor (node color left key value inner) pivotKey pivotValue right
  | tree => tree

def rotateRight : Tree K V → Tree K V
  | node color (node pivotColor left pivotKey pivotValue inner) key value right =>
    node pivotColor left pivotKey pivotValue (node color inner key value right)
  | tree => tree

def toList : Tree K V → List (K × V)
  | leaf => []
  | node _ left key value right => left.toList ++ (key, value) :: right.toList

@[simp] theorem blacken_toList {tree : Tree K V} : tree.blacken.toList = tree.toList := by
  cases tree <;> rfl

@[simp] theorem rotate_left_toList {tree : Tree K V} : tree.rotateLeft.toList = tree.toList := by
  fun_cases rotateLeft tree <;> simp [toList]

@[simp] theorem rotate_right_toList {tree : Tree K V} : tree.rotateRight.toList = tree.toList := by
  fun_cases rotateRight tree <;> simp [toList]

end Tree

namespace Frame

def color : Frame K V → Color
  | inLeft color _ _ _ => color
  | inRight color _ _ _ => color

def plug : Frame K V → Tree K V → Tree K V
  | inLeft color key value right, child => .node color child key value right
  | inRight color left key value, child => .node color left key value child

def before : Frame K V → List (K × V)
  | inLeft _ _ _ _ => []
  | inRight _ left key value => left.toList ++ [(key, value)]

def after : Frame K V → List (K × V)
  | inLeft _ key value right => (key, value) :: right.toList
  | inRight _ _ _ _ => []

@[simp] theorem plug_toList {frame : Frame K V} {child : Tree K V} :
    (frame.plug child).toList = frame.before ++ child.toList ++ frame.after := by
  cases frame <;> simp [plug, before, after, Tree.toList]

end Frame

def unwind : List (Frame K V) → Tree K V → Tree K V
  | [], tree => tree
  | parent :: rest, tree => unwind rest (parent.plug tree)

def entriesBefore : List (Frame K V) → List (K × V)
  | [] => []
  | parent :: rest => entriesBefore rest ++ parent.before

def entriesAfter : List (Frame K V) → List (K × V)
  | [] => []
  | parent :: rest => parent.after ++ entriesAfter rest

theorem unwind_toList {path : List (Frame K V)} {tree : Tree K V} :
    (unwind path tree).toList = entriesBefore path ++ tree.toList ++ entriesAfter path := by
  induction path generalizing tree with
  | nil => simp [unwind, entriesBefore, entriesAfter]
  | cons _ _ ih =>
    rw [unwind, ih]
    simp [entriesBefore, entriesAfter]

section
variable (parent : Frame K V) (node : Tree K V)

/-- The red child and its parent in a line away from the grandparent: the rotation
the source makes at the parent when the child hangs on the inner side. -/
def straightenRight : Tree K V :=
  match parent with
  | .inLeft _ _ _ _ => (parent.plug node).rotateRight
  | .inRight _ _ _ _ => parent.plug node

def straightenLeft : Tree K V :=
  match parent with
  | .inLeft _ _ _ _ => parent.plug node
  | .inRight _ _ _ _ => (parent.plug node).rotateLeft

theorem straighten_right_toList :
    (straightenRight parent node).toList = (parent.plug node).toList := by
  cases parent with
  | inLeft => exact rotate_right_toList
  | inRight => rfl

theorem straighten_left_toList :
    (straightenLeft parent node).toList = (parent.plug node).toList := by
  cases parent with
  | inLeft => rfl
  | inRight => exact rotate_left_toList

end

def insertFixups (node : Tree K V) : List (Frame K V) → Tree K V
  | [] => node.blacken
  | [parent] => (parent.plug node).blacken
  | parent :: grandParent :: rest =>
    if parent.color = .red then
      match grandParent with
      | .inRight _ uncle key value =>
        if uncle.isRed then
          insertFixups (.node .red uncle.blacken key value (parent.plug node).blacken) rest
        else
          (unwind rest (Tree.rotateLeft
            (.node .red uncle key value (straightenRight parent node).blacken))).blacken
      | .inLeft _ key value uncle =>
        if uncle.isRed then
          insertFixups (.node .red (parent.plug node).blacken key value uncle.blacken) rest
        else
          (unwind rest (Tree.rotateRight
            (.node .red (straightenLeft parent node).blacken key value uncle))).blacken
    else (unwind (parent :: grandParent :: rest) node).blacken

theorem insert_fixups_toList {node : Tree K V} {path : List (Frame K V)} :
    (insertFixups node path).toList = entriesBefore path ++ node.toList ++ entriesAfter path := by
  fun_induction insertFixups node path with
  | case1 node | case2 node parent => simp [entriesBefore, entriesAfter]
  | case3 node parent rest isRed color uncle key val uncleRed ih
  | case5 node parent rest isRed color key val uncle uncleRed ih =>
    rw [ih]
    simp [entriesBefore, entriesAfter, Frame.before, Frame.after, toList]
  | case4 node parent rest isRed color uncle key val uncleBlack =>
    rw [blacken_toList, unwind_toList]
    simp [entriesBefore, entriesAfter, Frame.before, Frame.after, toList, straighten_right_toList]
  | case6 node parent rest isRed color key val uncle uncleBlack =>
    rw [blacken_toList, unwind_toList]
    simp [entriesBefore, entriesAfter, Frame.before, Frame.after, toList, straighten_left_toList]
  | case7 node parent grandParent rest notRed =>
    rw [blacken_toList, unwind_toList]

/-! ## Balance -/

def blackHeight : Tree K V → Nat
  | leaf => 0
  | node color left _ _ _ => blackHeight left + if color = .red then 0 else 1

/-- All ways down have as many black nodes, and no red node has a red child. -/
def Balanced : Tree K V → Prop
  | leaf => True
  | node color left _ _ right => blackHeight left = blackHeight right ∧
      (color = .red → left.isRed = false ∧ right.isRed = false) ∧ Balanced left ∧ Balanced right

def RedBlack (tree : Tree K V) : Prop := tree.isRed = false ∧ Balanced tree

attribute [local grind] isRed blacken Frame.plug Frame.color unwind blackHeight Balanced RedBlack

variable {tree old : Tree K V} {parent : Frame K V} {path : List (Frame K V)}

theorem Balanced.blacken (balanced : Balanced tree) : RedBlack tree.blacken := by
  cases tree <;> grind

theorem black_height_blacken (red : tree.isRed) :
    blackHeight tree.blacken = blackHeight tree + 1 := by
  cases tree <;> grind

theorem red_plug (redParent : parent.color = .red) : (parent.plug tree).isRed := by
  cases parent <;> grind

theorem black_over_red {color : Color} (apart : color = .red → tree.isRed = false)
    (red : tree.isRed) : color = .black := by
  cases color with
  | red => exact absurd red (Bool.eq_false_iff.mp (apart rfl))
  | black => rfl

theorem unwind_hole (whole : Balanced (unwind path old)) : Balanced old := by
  induction path generalizing old with
  | nil => exact whole
  | cons parent _ ih =>
    have outer := ih whole
    cases parent <;> exact (by grind)

/-- A subtree can give place to one of its height, red only where it was. -/
theorem unwind_balanced (whole : Balanced (unwind path old)) (balanced : Balanced tree)
    (same : blackHeight tree = blackHeight old) (redWhere : tree.isRed → old.isRed) :
    Balanced (unwind path tree) := by
  induction path generalizing tree old with
  | nil => exact balanced
  | cons parent _ ih =>
    have outer : Balanced (parent.plug old) := unwind_hole whole
    refine ih whole ?_ ?_ ?_ <;> cases parent <;> grind

/-- The children of a red node whose outer one may be red as well. -/
def Leaning (height : Nat) (inner outer : Tree K V) : Prop :=
  inner.isRed = false ∧ Balanced inner ∧ Balanced outer ∧
    blackHeight inner = height ∧ blackHeight outer = height

section
variable (before : Balanced (parent.plug old)) (redParent : parent.color = .red)
  (red : tree.isRed) (balanced : Balanced tree) (same : blackHeight tree = blackHeight old)
include before redParent red balanced same

omit red in
theorem plug_blacken : RedBlack (parent.plug tree).blacken ∧
    blackHeight (parent.plug tree).blacken = blackHeight (parent.plug old) + 1 := by
  cases parent <;> grind

theorem straighten_right_leaning : ∃ inner key value outer,
    straightenRight parent tree = node .red inner key value outer ∧
      Leaning (blackHeight (parent.plug old)) inner outer := by
  cases parent with
  | inRight => exact ⟨_, _, _, tree, congrArg (node · _ _ _ _) redParent, by grind [Leaning]⟩
  | inLeft _ key value right =>
    cases tree with
    | leaf => cases red
    | node _ left treeKey treeValue inside =>
      refine ⟨left, treeKey, treeValue, node .red inside key value right, ?_, by grind [Leaning]⟩
      grind [straightenRight, Tree.rotateRight]

theorem straighten_left_leaning : ∃ inner key value outer,
    straightenLeft parent tree = node .red outer key value inner ∧
      Leaning (blackHeight (parent.plug old)) inner outer := by
  cases parent with
  | inLeft => exact ⟨_, _, _, tree, congrArg (node · _ _ _ _) redParent, by grind [Leaning]⟩
  | inRight _ left key value =>
    cases tree with
    | leaf => cases red
    | node _ inside treeKey treeValue right =>
      refine ⟨right, treeKey, treeValue, node .red left key value inside, ?_, by grind [Leaning]⟩
      grind [straightenLeft, Tree.rotateLeft]

end

theorem insert_fixups_red_black (whole : RedBlack (unwind path old)) (red : tree.isRed)
    (same : blackHeight tree = blackHeight old) (balanced : Balanced tree) :
    RedBlack (insertFixups tree path) := by
  fun_induction insertFixups tree path generalizing old with
  | case1 => exact balanced.blacken
  | case2 tree parent =>
    have plugged : Balanced (parent.plug tree) := by cases parent <;> grind
    exact plugged.blacken
  | case3 tree parent rest redParent color uncle key value redUncle ih =>
    have before : Balanced (node color uncle key value (parent.plug old)) := unwind_hole whole.2
    obtain rfl := black_over_red (fun red => (before.2.1 red).2) (red_plug redParent)
    have raised := black_height_blacken redUncle
    have plugged := plug_blacken before.2.2.2 redParent balanced same
    have uncleBlack := before.2.2.1.blacken
    exact ih whole rfl raised (by grind)
  | case5 tree parent rest redParent color key value uncle redUncle ih =>
    have before : Balanced (node color (parent.plug old) key value uncle) := unwind_hole whole.2
    obtain rfl := black_over_red (fun red => (before.2.1 red).1) (red_plug redParent)
    have raised := black_height_blacken redUncle
    have plugged := plug_blacken before.2.2.1 redParent balanced same
    have uncleBlack := before.2.2.2.blacken
    exact ih whole rfl plugged.2 (by grind)
  | case4 tree parent rest redParent color uncle key value blackUncle =>
    have before : Balanced (node color uncle key value (parent.plug old)) := unwind_hole whole.2
    obtain rfl := black_over_red (fun red => (before.2.1 red).2) (red_plug redParent)
    obtain ⟨inner, pivotKey, pivotValue, outer, turned, leaning⟩ :=
      straighten_right_leaning before.2.2.2 redParent red balanced same
    have lowered : Balanced (node .red uncle key value inner) := by grind [Leaning]
    have rotated : Balanced (node .black (node .red uncle key value inner) pivotKey pivotValue
        outer) := by
      grind [Leaning]
    rw [turned]
    exact Balanced.blacken (unwind_balanced whole.2 rotated rfl nofun)
  | case6 tree parent rest redParent color key value uncle blackUncle =>
    have before : Balanced (node color (parent.plug old) key value uncle) := unwind_hole whole.2
    obtain rfl := black_over_red (fun red => (before.2.1 red).1) (red_plug redParent)
    obtain ⟨inner, pivotKey, pivotValue, outer, turned, leaning⟩ :=
      straighten_left_leaning before.2.2.1 redParent red balanced same
    have lowered : Balanced (node .red inner key value uncle) := by grind [Leaning]
    have rotated : Balanced (node .black outer pivotKey pivotValue
        (node .red inner key value uncle)) := by
      grind [Leaning]
    have level := congrArg (· + 1) leaning.2.2.2.2
    rw [turned]
    exact Balanced.blacken (unwind_balanced whole.2 rotated level nofun)
  | case7 tree parent grandParent rest blackParent =>
    have outer : Balanced (parent.plug old) := unwind_hole whole.2
    have plugged : Balanced (parent.plug tree) ∧
        blackHeight (parent.plug tree) = blackHeight (parent.plug old) := by
      cases parent <;> grind
    rw [unwind]
    exact Balanced.blacken (unwind_balanced whole.2 plugged.1 plugged.2 (by cases parent <;> grind))

variable [LinearOrder K]

def descend (key : K) : Tree K V → List (Frame K V) → List (Frame K V)
  | .leaf, path => path
  | .node color left nodeKey value right, path =>
    if key < nodeKey then descend key left (.inLeft color nodeKey value right :: path)
    else descend key right (.inRight color left nodeKey value :: path)

/-- The source skips the fixups of a tree of height at most two, where they change
no colour but the root's, which is black already. -/
def insert (key : K) (value : V) (tree : Tree K V) : Tree K V :=
  insertFixups (.node .red .leaf key value .leaf) (descend key tree [])

def findLargestNotAbove (key : K) : Tree K V → Option (K × V) → Option (K × V)
  | .leaf, candidate => candidate
  | .node _ left nodeKey value right, candidate =>
    if key = nodeKey then some (nodeKey, value)
    else if key < nodeKey then findLargestNotAbove key left candidate
    else findLargestNotAbove key right (some (nodeKey, value))

def Ordered (tree : Tree K V) : Prop :=
  tree.toList.Pairwise fun earlier later => earlier.1 ≤ later.1

theorem Ordered.node {color : Color} {left right : Tree K V} {key : K} {val : V}
    (order : Ordered (.node color left key val right)) :
    Ordered left ∧ Ordered right ∧ (∀ entry ∈ left.toList, entry.1 ≤ key) ∧
      ∀ entry ∈ right.toList, key ≤ entry.1 := by
  have whole : (left.toList ++ (key, val) :: right.toList).Pairwise
      (fun earlier later => earlier.1 ≤ later.1) := order
  rw [pairwise_append, pairwise_cons] at whole
  rcases whole with ⟨leftOrdered, ⟨rightAbove, rightOrdered⟩, across⟩
  exact ⟨leftOrdered, rightOrdered,
    fun entry mem => across entry mem (key, val) mem_cons_self, rightAbove⟩

/-- A descent splits the entries at the key: those not above it stay before the hole. -/
theorem descend_splits {key : K} (tree : Tree K V) (path : List (Frame K V)) :
    ∃ lower upper, tree.toList = lower ++ upper ∧
      entriesBefore (descend key tree path) = entriesBefore path ++ lower ∧
      entriesAfter (descend key tree path) = upper ++ entriesAfter path ∧
      (Ordered tree → (∀ entry ∈ lower, entry.1 ≤ key) ∧ ∀ entry ∈ upper, key < entry.1) := by
  induction tree generalizing path with
  | leaf =>
    refine ⟨[], [], rfl, by simp [descend], by simp [descend], fun _ => ?_⟩
    simp
  | node color left nodeKey val right leftHyp rightHyp =>
    rw [descend]
    split_ifs with below
    · rcases leftHyp (.inLeft color nodeKey val right :: path) with
        ⟨lower, upper, split, before, after, bounds⟩
      refine ⟨lower, upper ++ (nodeKey, val) :: right.toList, ?_, ?_, ?_, ?_⟩
      · simp [toList, split]
      · simp [before, entriesBefore, Frame.before]
      · simp [after, entriesAfter, Frame.after]
      · intro order
        have parts := Ordered.node order
        refine ⟨(bounds parts.1).1, forall_mem_append.mpr ⟨(bounds parts.1).2, ?_⟩⟩
        refine forall_mem_cons.mpr ⟨below, fun entry inRight => ?_⟩
        exact lt_of_lt_of_le below (parts.2.2.2 entry inRight)
    · have notBelow : nodeKey ≤ key := not_lt.mp below
      rcases rightHyp (.inRight color left nodeKey val :: path) with
        ⟨lower, upper, split, before, after, bounds⟩
      refine ⟨left.toList ++ (nodeKey, val) :: lower, upper, ?_, ?_, ?_, ?_⟩
      · simp [toList, split]
      · simp [before, entriesBefore, Frame.before]
      · simp [after, entriesAfter, Frame.after]
      · intro order
        have parts := Ordered.node order
        refine ⟨forall_mem_append.mpr ⟨fun entry inLeft => ?_, ?_⟩, (bounds parts.2.1).2⟩
        · exact le_trans (parts.2.2.1 entry inLeft) notBelow
        · exact forall_mem_cons.mpr ⟨notBelow, (bounds parts.2.1).1⟩

theorem insert_splits {key : K} (val : V) (tree : Tree K V) :
    ∃ lower upper, tree.toList = lower ++ upper ∧
      (insert key val tree).toList = lower ++ (key, val) :: upper ∧
      (Ordered tree → (∀ entry ∈ lower, entry.1 ≤ key) ∧ ∀ entry ∈ upper, key < entry.1) := by
  rcases descend_splits tree [] with ⟨lower, upper, split, before, after, bounds⟩
  refine ⟨lower, upper, split, ?_, bounds⟩
  rw [insert, insert_fixups_toList, before, after]
  simp [entriesBefore, entriesAfter, toList]

theorem mem_insert {key : K} {val : V} {tree : Tree K V} {entry : K × V} :
    entry ∈ (insert key val tree).toList ↔ entry = (key, val) ∨ entry ∈ tree.toList := by
  rcases insert_splits val tree with ⟨lower, upper, split, inserted, -⟩
  rw [inserted, split]
  simp only [mem_append, mem_cons]
  exact or_left_comm

theorem insert_ordered {key : K} {val : V} {tree : Tree K V} (order : Ordered tree) :
    Ordered (insert key val tree) := by
  rcases insert_splits val tree with ⟨lower, upper, split, inserted, bounds⟩
  have limits := bounds order
  unfold Ordered at order ⊢
  rw [split, pairwise_append] at order
  rw [inserted, pairwise_append, pairwise_cons]
  refine ⟨order.1, ⟨fun entry mem => le_of_lt (limits.2 entry mem), order.2.1⟩, ?_⟩
  intro earlier inLower
  exact forall_mem_cons.mpr ⟨limits.1 earlier inLower, order.2.2 earlier inLower⟩

/-- What a lookup answers: an entry not above the key with no other such entry above it. -/
def LargestNotAbove (key : K) (entries : List (K × V)) : Option (K × V) → Prop
  | none => ∀ entry ∈ entries, key < entry.1
  | some found => found ∈ entries ∧ found.1 ≤ key ∧
      ∀ entry ∈ entries, entry.1 ≤ key → entry.1 ≤ found.1

/-- The candidate carried by the descent is an entry seen before the subtree, so below all
of it; `seen` are the entries the descent has left behind on that side. -/
theorem find_from {key : K} (tree : Tree K V) (order : Ordered tree) (seen : List (K × V))
    (candidate : Option (K × V)) (sofar : LargestNotAbove key seen candidate)
    (seenBelow : ∀ entry ∈ seen, entry.1 ≤ key ∧ ∀ later ∈ tree.toList, entry.1 ≤ later.1) :
    LargestNotAbove key (seen ++ tree.toList) (findLargestNotAbove key tree candidate) := by
  induction tree generalizing seen candidate with
  | leaf => simpa [toList, findLargestNotAbove] using sofar
  | node color left nodeKey val right leftHyp rightHyp =>
    have parts := Ordered.node order
    have isEntry : (nodeKey, val) ∈ (node color left nodeKey val right).toList := by
      simp [toList]
    rw [findLargestNotAbove]
    by_cases same : key = nodeKey
    · rw [if_pos same]
      refine ⟨mem_append_right _ isEntry, le_of_eq same.symm, ?_⟩
      intro entry _ notAbove
      rwa [← same]
    · rw [if_neg same]
      split_ifs with below
      · have inLeft := leftHyp parts.1 seen candidate sofar fun entry mem =>
          ⟨(seenBelow entry mem).1, fun later inTree =>
            (seenBelow entry mem).2 later (by simp [toList, inTree])⟩
        have above : ∀ entry ∈ (nodeKey, val) :: right.toList, key < entry.1 := by
          exact forall_mem_cons.mpr
            ⟨below, fun entry inRight => lt_of_lt_of_le below (parts.2.2.2 entry inRight)⟩
        rw [toList, ← append_assoc]
        generalize findLargestNotAbove key left candidate = found at inLeft ⊢
        cases found with
        | none =>
          intro entry mem
          exact (mem_append.mp mem).elim (inLeft entry) (above entry)
        | some =>
          refine ⟨mem_append_left _ inLeft.1, inLeft.2.1, ?_⟩
          intro entry mem notAbove
          rcases mem_append.mp mem with inSeen | inRest
          · exact inLeft.2.2 entry inSeen notAbove
          · exact absurd notAbove (not_le.mpr (above entry inRest))
      · have notBelow : nodeKey ≤ key := not_lt.mp below
        have atMostNode : ∀ entry ∈ seen ++ left.toList ++ [(nodeKey, val)], entry.1 ≤ nodeKey := by
          intro entry mem
          rw [mem_append, mem_append, mem_singleton] at mem
          rcases mem with (inSeen | inLeft) | isNode
          · exact (seenBelow entry inSeen).2 (nodeKey, val) isEntry
          · exact parts.2.2.1 entry inLeft
          · rw [isNode]
        have inRight := rightHyp parts.2.1 (seen ++ left.toList ++ [(nodeKey, val)])
          (some (nodeKey, val))
          ⟨by simp, notBelow, fun entry mem _ => atMostNode entry mem⟩
          fun entry mem => ⟨le_trans (atMostNode entry mem) notBelow, fun later inTree =>
            le_trans (atMostNode entry mem) (parts.2.2.2 later inTree)⟩
        simpa [toList] using inRight

theorem find_largest_not_above (key : K) {tree : Tree K V} (order : Ordered tree) :
    LargestNotAbove key tree.toList (findLargestNotAbove key tree none) := by
  exact find_from tree order [] none (by simp [LargestNotAbove]) (by simp)

theorem unwind_descend {key : K} : unwind (descend key tree path) leaf = unwind path tree := by
  induction tree generalizing path with
  | leaf => rfl
  | node color left nodeKey value right ihLeft ihRight =>
    rw [descend]
    split_ifs
    · rw [ihLeft, unwind, Frame.plug]
    · rw [ihRight, unwind, Frame.plug]

theorem inserts_red_black (entries : List (K × V)) :
    RedBlack (entries.foldl (fun tree entry => insert entry.1 entry.2 tree) leaf) := by
  refine entries.foldlRecOn (motive := RedBlack) _ ⟨rfl, trivial⟩ fun tree kept entry _ => ?_
  have same : unwind (descend entry.1 tree []) leaf = tree := unwind_descend
  rw [← same] at kept
  exact insert_fixups_red_black kept rfl rfl ⟨rfl, fun _ => ⟨rfl, rfl⟩, trivial, trivial⟩

end Ladybone.AK.RedBlackTree
