import Mathlib.Data.List.Basic

/-!
# Marking with a work queue

A node is marked when it is queued, so every node is queued once; the loop takes the last
queued node and visits its successors. `potential` pays for the turns of the loop: the
queue and the unmarked part of a finite universe that the edges do not leave.
-/

namespace Ladybone.Support.Marking

open List Function

structure Marker (Node : Type*) where
  marked : Node → Bool
  queue : List Node

section
variable {Node : Type*} [DecidableEq Node]

def visit (marker : Marker Node) (node : Node) : Marker Node :=
  if marker.marked node then marker
  else ⟨Function.update marker.marked node true, node :: marker.queue⟩

def visitAll (marker : Marker Node) (nodes : List Node) : Marker Node :=
  nodes.foldl visit marker

def drain (edges : Node → List Node) : Nat → Marker Node → Node → Bool
  | 0, marker => marker.marked
  | fuel + 1, marker =>
    match marker.queue with
    | [] => marker.marked
    | node :: rest => drain edges fuel (visitAll ⟨marker.marked, rest⟩ (edges node))

def mark (edges : Node → List Node) (fuel : Nat) (marked : Node → Bool) (roots : List Node) :
    Node → Bool :=
  drain edges fuel (visitAll ⟨marked, []⟩ roots)

end

variable {Node : Type*} {inside : List Node} {marked : Node → Bool} {node : Node}

def potential (inside : List Node) (marker : Marker Node) : Nat :=
  marker.queue.length + inside.countP fun node => !marker.marked node

/-- What holds between two turns of the loop. -/
structure Sound (edges : Node → List Node) (inside : List Node) (marker : Marker Node) :
    Prop where
  queued : ∀ node ∈ marker.queue, node ∈ inside ∧ marker.marked node = true
  done : ∀ node ∈ inside, marker.marked node = true → node ∉ marker.queue →
    ∀ next ∈ edges node, marker.marked next = true

theorem countP_update_lt [DecidableEq Node] (mem : node ∈ inside) (fresh : marked node = false) :
    (inside.countP fun other => !Function.update marked node true other) + 1 ≤
      inside.countP fun other => !marked other := by
  have fewer : ∀ nodes : List Node,
      (nodes.countP fun other => !Function.update marked node true other) ≤
        nodes.countP fun other => !marked other := by
    intro nodes
    apply countP_mono_left
    intro other _ unmarked
    by_cases same : other = node
    · subst same
      simp at unmarked
    · simpa [update_of_ne same] using unmarked
  obtain ⟨before, after, rfl⟩ := append_of_mem mem
  have first := fewer before
  have second := fewer after
  simp only [countP_append, countP_cons, update_self, fresh, Bool.not_true, Bool.not_false, if_pos]
  simp only [Bool.false_eq_true, if_false]
  omega

/-- How visiting nodes of the universe changes the marker. -/
structure Extends (inside : List Node) (before after : Marker Node) : Prop where
  marks : ∀ node, before.marked node = true → after.marked node = true
  queue : ∀ node ∈ before.queue, node ∈ after.queue
  fresh : ∀ node, after.marked node = true → before.marked node = true ∨ node ∈ after.queue
  queued : ∀ node ∈ after.queue, node ∈ before.queue ∨ (node ∈ inside ∧ after.marked node = true)
  paid : potential inside after ≤ potential inside before

theorem Extends.refl (inside : List Node) (marker : Marker Node) :
    Extends inside marker marker where
  marks := fun _ marked => marked
  queue := fun _ mem => mem
  fresh := fun _ marked => .inl marked
  queued := fun _ mem => .inl mem
  paid := Nat.le_refl _

theorem Extends.trans {before middle after : Marker Node}
    (first : Extends inside before middle) (second : Extends inside middle after) :
    Extends inside before after where
  marks := fun node marked => second.marks node (first.marks node marked)
  queue := fun node mem => second.queue node (first.queue node mem)
  fresh := by
    intro node marked
    rcases second.fresh node marked with past | mem
    · exact (first.fresh node past).imp id (second.queue node)
    · exact .inr mem
  queued := by
    intro node mem
    rcases second.queued node mem with past | new
    · exact (first.queued node past).imp id fun found => ⟨found.1, second.marks node found.2⟩
    · exact .inr new
  paid := Nat.le_trans second.paid first.paid

variable [DecidableEq Node]

theorem visit_extends (marker : Marker Node) (mem : node ∈ inside) :
    Extends inside marker (visit marker node) ∧ (visit marker node).marked node = true := by
  unfold visit
  split
  · rename_i marked
    exact ⟨Extends.refl inside marker, marked⟩
  · rename_i unmarked
    have marksHere : Function.update marker.marked node true node = true :=
      update_self _ _ _
    have fewer := countP_update_lt mem (Bool.eq_false_iff.mpr unmarked)
    refine ⟨⟨?_, ?_, ?_, ?_, ?_⟩, marksHere⟩
    · intro other marked
      by_cases same : other = node
      · rwa [same]
      · exact (update_of_ne same _ _).trans marked
    · intro other queued
      exact mem_cons_of_mem _ queued
    · intro other marked
      by_cases same : other = node
      · rw [same]
        exact .inr mem_cons_self
      · exact .inl ((update_of_ne same _ _).symm.trans marked)
    · exact forall_mem_cons.mpr ⟨.inr ⟨mem, marksHere⟩, fun _ past => .inl past⟩
    · simp only [potential, length_cons]
      omega

theorem visit_all_extends {nodes : List Node} (marker : Marker Node)
    (members : ∀ node ∈ nodes, node ∈ inside) :
    Extends inside marker (visitAll marker nodes) ∧
      ∀ node ∈ nodes, (visitAll marker nodes).marked node = true := by
  induction nodes generalizing marker with
  | nil => exact ⟨Extends.refl inside marker, by simp⟩
  | cons node _ ih =>
    obtain ⟨first, marksFirst⟩ := visit_extends marker (members node mem_cons_self)
    obtain ⟨second, marksRest⟩ := ih (visit marker node)
      (fun other mem => members other (mem_cons_of_mem _ mem))
    refine ⟨first.trans second, ?_⟩
    exact forall_mem_cons.mpr ⟨second.marks _ marksFirst, marksRest⟩

variable {edges : Node → List Node} {inside : List Node}

section
variable (closed : ∀ node ∈ inside, ∀ next ∈ edges node, next ∈ inside)

include closed

theorem Sound.turn {rest : List Node} (sound : Sound edges inside ⟨marked, node :: rest⟩) :
    Sound edges inside (visitAll ⟨marked, rest⟩ (edges node)) := by
  have taken := sound.queued node mem_cons_self
  obtain ⟨visited, marksAll⟩ := visit_all_extends ⟨marked, rest⟩ (closed node taken.1)
  constructor
  · intro other queued
    rcases visited.queued other queued with earlier | new
    · have known := sound.queued other (mem_cons_of_mem _ earlier)
      exact ⟨known.1, visited.marks other known.2⟩
    · exact new
  · intro other mem isMarked notQueued next successor
    by_cases same : other = node
    · subst same
      exact marksAll next successor
    · have before : marked other = true :=
        (visited.fresh other isMarked).resolve_right notQueued
      have unqueued : other ∉ node :: rest :=
        not_mem_cons_of_ne_of_not_mem same fun earlier => notQueued (visited.queue other earlier)
      exact visited.marks next (sound.done other mem before unqueued next successor)

/-- With enough fuel the marked part of the universe is closed under the edges. -/
theorem drain_closed {fuel : Nat} (marker : Marker Node) (sound : Sound edges inside marker)
    (enough : potential inside marker ≤ fuel) :
    (∀ node, marker.marked node = true → drain edges fuel marker node = true) ∧
      ∀ node ∈ inside, drain edges fuel marker node = true →
        ∀ next ∈ edges node, drain edges fuel marker next = true := by
  induction fuel generalizing marker with
  | zero =>
    have empty : marker.queue = [] := by
      apply eq_nil_of_length_eq_zero
      unfold potential at enough
      omega
    refine ⟨fun _ marked => marked, ?_⟩
    intro node mem marked
    exact sound.done node mem marked (by simp [empty])
  | succ fuel ih =>
    obtain ⟨marked, queue⟩ := marker
    cases queue with
    | nil =>
      refine ⟨fun _ isMarked => isMarked, ?_⟩
      intro node mem isMarked
      exact sound.done node mem isMarked (by simp)
    | cons node rest =>
      have taken := sound.queued node mem_cons_self
      obtain ⟨visited, -⟩ := visit_all_extends ⟨marked, rest⟩ (closed node taken.1)
      have paid : potential inside (visitAll ⟨marked, rest⟩ (edges node)) ≤ fuel := by
        have before := visited.paid
        simp only [potential, length_cons] at before enough ⊢
        omega
      obtain ⟨keeps, closes⟩ := ih _ (sound.turn closed) paid
      exact ⟨fun other isMarked => keeps other (visited.marks other isMarked), closes⟩

theorem mark_closed {roots : List Node} {fuel : Nat}
    (unmarked : ∀ node ∈ inside, marked node = false) (members : ∀ root ∈ roots, root ∈ inside)
    (enough : inside.length ≤ fuel) :
    (∀ root ∈ roots, mark edges fuel marked roots root = true) ∧
      ∀ node ∈ inside, mark edges fuel marked roots node = true →
        ∀ next ∈ edges node, mark edges fuel marked roots next = true := by
  obtain ⟨visited, marksRoots⟩ := visit_all_extends ⟨marked, []⟩ members
  have sound : Sound edges inside (visitAll ⟨marked, []⟩ roots) := by
    constructor
    · intro node queued
      rcases visited.queued node queued with past | new
      · exact absurd past not_mem_nil
      · exact new
    · intro node mem isMarked notQueued
      rcases visited.fresh node isMarked with before | queued
      · cases (before.symm.trans (unmarked node mem))
      · exact absurd queued notQueued
  have paid : potential inside (visitAll ⟨marked, []⟩ roots) ≤ fuel := by
    have initial : potential inside ⟨marked, []⟩ ≤ inside.length := by
      simp only [potential, length_nil, Nat.zero_add]
      exact countP_le_length
    exact Nat.le_trans (Nat.le_trans visited.paid initial) enough
  obtain ⟨keeps, closes⟩ := drain_closed closed _ sound paid
  exact ⟨fun root mem => keeps root (marksRoots root mem), closes⟩

end
end Ladybone.Support.Marking
