import Ladybone.Ipc.Transport

/-!
# Delivery

Bytes and descriptors travel in two queues; the invariant relates both, on both ends, to the
frames the receiver has not taken yet. A round that sends the last bytes of the queue strands
what it holds beyond 64 descriptors.
-/

namespace Ladybone.Ipc

open Support.Runs List Direction Receiver

variable {Fd : Type}

/-! ## The invariant of all runs -/

/-- The messages of the frames taken are delivered, and the bytes and descriptors of the other
frames are at the receiver, in the socket and in the queue, in this order. -/
structure Conserves (taken left : List (Frame Fd)) (direction : Direction Fd) : Prop where
  frames : direction.frames = taken ++ left
  limits : ∀ frame ∈ direction.frames, frame.WithinLimits
  delivered : direction.delivered = taken.filterMap Frame.message
  carries : Carries left direction.receiver.parsing (direction.wire.bytes ++ direction.queue.bytes)
    (direction.wire.fds ++ direction.queue.fds)
  attached : direction.wire.Attached
  fdsLimit : direction.receiver.unprocessedAttachments.length ≤ maxUnprocessedFds

def Waiting (left : List (Frame Fd)) (receiver : Receiver Fd) : Prop :=
  ∀ frame rest, left = frame :: rest →
    Incomplete frame receiver.unprocessedBytes receiver.unprocessedAttachments

/-- The acknowledgements a pass of the receiver finds fit its count. -/
def CountsFit (direction : Direction Fd) : Action Fd → Prop
  | .read reads => ∀ arrived ∈ receive reads direction.wire direction.receiver,
      acknowledgedIn arrived.2.unprocessedBytes.length arrived.2.unprocessedBytes < 2 ^ 32
  | _ => True

variable {taken left : List (Frame Fd)} {dir next : Direction Fd} {writes : List Nat}
  {queue : SendQueue Fd} {wire : Wire Fd} {action : Action Fd}

section
variable (conserves : Conserves taken left dir)

include conserves

theorem Conserves.enqueue {frame : Frame Fd} (limits : frame.WithinLimits) :
    Conserves taken (left ++ [frame]) (dir.enqueue frame) where
  frames := by
    dsimp only [Direction.enqueue]
    rw [conserves.frames, append_assoc]
  limits := by
    exact forall_mem_append.mpr ⟨conserves.limits, forall_mem_singleton.mpr limits⟩
  delivered := conserves.delivered
  carries := by
    constructor
    · dsimp only [Direction.enqueue, SendQueue.enqueueMessage]
      rw [flatMap_append, ← conserves.carries.bytes, flatMap_singleton, Frame.encode]
      simp
    · dsimp only [Direction.enqueue, SendQueue.enqueueMessage]
      rw [flatMap_append, ← conserves.carries.fds]
      simp
  attached := conserves.attached
  fdsLimit := conserves.fdsLimit

theorem Conserves.enqueue_waiting (waiting : Waiting left dir.receiver) {frame : Frame Fd} :
    Waiting (left ++ [frame]) (dir.enqueue frame).receiver := by
  intro first rest isLeft
  cases left with
  | nil =>
    -- nothing is left to take, so that nothing has arrived
    have none : dir.receiver.unprocessedBytes = [] :=
      (append_eq_nil_iff.mp conserves.carries.bytes).1
    refine .inl ?_
    dsimp only [Direction.enqueue]
    rw [none, Frame.length_encode, length_nil]
    unfold headerSize
    omega
  | cons _ others =>
    cases isLeft
    exact waiting first others rfl

theorem Conserves.transfer (moves : Moves writes dir.queue dir.wire queue wire) :
    Conserves taken left { dir with queue, wire } := by
  refine { conserves with carries := ⟨?_, ?_⟩, attached := moves.attached conserves.attached }
  · rw [moves.bytes]
    exact conserves.carries.bytes
  · rw [moves.fds]
    exact conserves.carries.fds

theorem Conserves.read {receiver : Receiver Fd}
    (arrives : Arrives dir.wire dir.receiver wire receiver) :
    ∃ taken left, Conserves taken left { dir with wire, receiver := receiver.process } ∧
      (acknowledgedIn receiver.unprocessedBytes.length receiver.unprocessedBytes < 2 ^ 32 →
        Waiting left receiver.process) := by
  have carries : Carries left receiver.parsing (wire.bytes ++ dir.queue.bytes)
      (wire.fds ++ dir.queue.fds) := by
    constructor
    · dsimp only [parsing]
      rw [← append_assoc, arrives.bytes, append_assoc]
      exact conserves.carries.bytes
    · dsimp only [parsing]
      rw [← append_assoc, arrives.fds, append_assoc]
      exact conserves.carries.fds
  have limits : ∀ frame ∈ left, frame.WithinLimits := by
    intro frame mem
    refine conserves.limits frame ?_
    rw [conserves.frames]
    exact mem_append_right _ mem
  have fdsLimit := arrives.limit conserves.fdsLimit
  obtain ⟨now, rest, isLeft, isBatch, carriesRest, stops⟩ :=
    parse_loop_spec receiver.unprocessedBytes.length limits carries (Nat.le_refl _)
  refine ⟨taken ++ now, rest, ⟨?_, conserves.limits, ?_, ?_, arrives.attached conserves.attached,
    ?_⟩, fun fits => stops (by rwa [parsing, Nat.zero_add]) ?_⟩
  · rw [append_assoc, ← isLeft]
    exact conserves.frames
  · dsimp only [delivered, process]
    rw [isBatch, arrives.messages, filterMap_append]
    exact congrArg (· ++ now.filterMap Frame.message) conserves.delivered
  · exact ⟨carriesRest.bytes, carriesRest.fds⟩
  · -- a pass only takes descriptors
    have before := congrArg List.length carries.fds
    have behind := congrArg List.length carriesRest.fds
    rw [isLeft, flatMap_append] at before
    simp only [length_append] at before behind
    dsimp only [parsing, process] at before behind ⊢
    omega
  · unfold maxUnprocessedFds at fdsLimit
    dsimp only [parsing]
    omega

theorem Conserves.step (limits : WithinLimits dir action)
    (steps : step dir action = some next) : ∃ taken left', Conserves taken left' next ∧
      (CountsFit dir action → Waiting left dir.receiver → Waiting left' next.receiver) := by
  cases action with
  | post | acknowledge =>
    cases steps
    exact ⟨taken, _, conserves.enqueue limits, fun _ waiting => conserves.enqueue_waiting waiting⟩
  | transfer =>
    unfold Ipc.step at steps
    dsimp only at steps
    split at steps
    · cases steps
    · rename_i transferred
      cases steps
      exact ⟨taken, left, conserves.transfer (transfer_data_spec transferred), fun _ => id⟩
  | read =>
    unfold Ipc.step at steps
    dsimp only at steps
    split at steps
    · cases steps
    · rename_i received
      cases steps
      obtain ⟨taken, rest, after, stops⟩ := conserves.read (receive_spec received)
      exact ⟨taken, rest, after, fun fits _ => stops (fits _ received)⟩

omit conserves in
theorem conserves_of_execution {allowed : Direction Fd → Action Fd → Prop}
    (limited : ∀ dir action, allowed dir action → WithinLimits dir action)
    (run : Execution step allowed Direction.start dir) :
    ∃ taken left, Conserves taken left dir ∧
      ((∀ dir action, allowed dir action → CountsFit dir action) → Waiting left dir.receiver) := by
  refine Execution.invariant (fun dir => ∃ taken left, Conserves taken left dir ∧
    ((∀ dir action, allowed dir action → CountsFit dir action) → Waiting left dir.receiver))
    ?_ ?_ run
  · exact ⟨[], [], ⟨rfl, forall_mem_nil _, rfl, ⟨rfl, rfl⟩, forall_mem_nil _, Nat.zero_le _⟩, nofun⟩
  · rintro dir action next ⟨taken, left, conserves, waiting⟩ permitted steps
    obtain ⟨taken, rest, after, waits⟩ := conserves.step (limited dir action permitted) steps
    exact ⟨taken, rest, after, fun fit => waits (fit dir action permitted) (waiting fit)⟩

theorem Conserves.delivered_prefix : dir.delivered <+: dir.posted := by
  rw [conserves.delivered, posted, conserves.frames, filterMap_append]
  exact prefix_append _ _

theorem Conserves.delivered_eq (waiting : Waiting left dir.receiver)
    (noBytes : dir.queue.bytes = []) (noFds : dir.queue.fds = [])
    (arrived : dir.wire.bytes = []) : dir.delivered = dir.posted := by
  have noneAttached : dir.wire.fds = [] := by
    unfold Wire.fds
    rw [map_eq_nil_iff, eq_nil_iff_forall_not_mem]
    intro entry mem
    have position := conserves.attached entry mem
    rw [arrived] at position
    exact Nat.not_lt_zero _ position
  have isBytes := conserves.carries.bytes
  have isFds := conserves.carries.fds
  rw [noBytes, arrived, append_nil, append_nil] at isBytes
  rw [noFds, noneAttached, append_nil, append_nil] at isFds
  dsimp only [parsing] at isBytes isFds
  have noneLeft : left = [] := by
    cases left with
    | nil => rfl
    | cons frame rest =>
      rw [flatMap_cons] at isBytes isFds
      rcases waiting frame rest rfl with short | short
      · rw [isBytes, length_append] at short
        omega
      · rw [isFds, length_append] at short
        omega
  rw [conserves.delivered, posted, conserves.frames, noneLeft, append_nil]

end

/-! ## Stranded descriptors -/

def SendQueue.Drained (queue : SendQueue Fd) : Prop := queue.bytes = [] → queue.fds = []

/-- A round that sends all bytes has to send all descriptors. -/
def FdsFit (direction : Direction Fd) : Action Fd → Prop
  | .transfer writes =>
    writes.sum = direction.queue.bytes.length → direction.queue.fds.length ≤ maxTransferFds
  | _ => True

theorem drained_transfer_iff (drained : dir.queue.Drained)
    (moves : Moves writes dir.queue dir.wire queue wire) :
    queue.Drained ↔ FdsFit dir (.transfer writes) := by
  have lengths := moves.bytesLeft
  have sentAll : queue.bytes = [] ↔ writes.sum = dir.queue.bytes.length := by
    rw [← length_eq_zero_iff]
    omega
  unfold SendQueue.Drained FdsFit
  rw [sentAll, moves.fdsLeft]
  refine imp_congr_right ?_
  intro all
  split_ifs with noWrites
  · rw [noWrites] at all
    have none : dir.queue.fds = [] := drained (length_eq_zero_iff.mp all.symm)
    rw [none]
    exact iff_of_true rfl (Nat.zero_le _)
  · exact drop_eq_nil_iff

theorem drained_step (drained : dir.queue.Drained) (fits : FdsFit dir action)
    (steps : step dir action = some next) : next.queue.Drained := by
  cases action with
  | post | acknowledge =>
    cases steps
    intro noBytes
    have length := congrArg List.length noBytes
    simp only [enqueue, SendQueue.enqueueMessage, length_append, length_encode_header,
      headerSize, length_nil] at length
    omega
  | transfer =>
    unfold step at steps
    dsimp only at steps
    split at steps
    · cases steps
    · rename_i transferred
      cases steps
      exact (drained_transfer_iff drained (transfer_data_spec transferred)).mpr fits
  | read =>
    unfold step at steps
    dsimp only at steps
    split at steps
    · cases steps
    · cases steps
      exact drained

theorem drained_of_execution {allowed : Direction Fd → Action Fd → Prop}
    (fit : ∀ dir action, allowed dir action → FdsFit dir action)
    (run : Execution step allowed Direction.start dir) : dir.queue.Drained := by
  refine Execution.invariant (fun dir => dir.queue.Drained) (fun _ => rfl) ?_ run
  intro dir action next drained permitted steps
  exact drained_step drained (fit dir action permitted) steps

/-! ## The result -/

/-- What the peer delivers is always a prefix of what was posted. A round leaves descriptors
without bytes exactly if it sends all bytes and there are more than 64 descriptors; in a run
without such rounds the queue never does, and if no pass overflows its count of acknowledgements
either, everything posted is delivered once all bytes have arrived. -/
theorem transport_delivers_posted_iff :
    (∀ direction : Direction Fd, Execution step WithinLimits Direction.start direction →
      direction.delivered <+: direction.posted) ∧
    (∀ (direction next : Direction Fd) (writes : List Nat), direction.queue.Drained →
      step direction (.transfer writes) = some next →
      (next.queue.Drained ↔ FdsFit direction (.transfer writes))) ∧
    (∀ direction : Direction Fd,
      Execution step (fun direction action => WithinLimits direction action ∧
        FdsFit direction action) Direction.start direction →
      direction.queue.Drained) ∧
    (∀ direction : Direction Fd,
      Execution step (fun direction action => WithinLimits direction action ∧
        FdsFit direction action ∧ CountsFit direction action) Direction.start direction →
      direction.queue.bytes = [] → direction.wire.bytes = [] →
        direction.delivered = direction.posted) := by
  refine ⟨?_, ?_, fun _ => drained_of_execution fun _ _ => And.right, ?_⟩
  · intro direction run
    obtain ⟨taken, left, conserves, -⟩ := conserves_of_execution (fun _ _ limits => limits) run
    exact conserves.delivered_prefix
  · intro direction next writes drained stepped
    unfold step at stepped
    dsimp only at stepped
    split at stepped
    · cases stepped
    · rename_i transferred
      cases stepped
      exact drained_transfer_iff drained (transfer_data_spec transferred)
  · intro direction run noBytes arrived
    have drained := drained_of_execution (fun _ _ permitted => permitted.2.1) run
    obtain ⟨taken, left, conserves, waiting⟩ :=
      conserves_of_execution (fun _ _ permitted => permitted.1) run
    exact conserves.delivered_eq (waiting fun _ _ permitted => permitted.2.2) noBytes
      (drained noBytes) arrived

/-- Two messages with descriptors and an acknowledgement between them are sent in three writes; the
first pass of the receiver ends within the second message. -/
theorem small_message_delivered :
    ∃ direction : Direction Nat,
      Execution step (fun direction action => WithinLimits direction action ∧
        FdsFit direction action ∧ CountsFit direction action) Direction.start direction ∧
      direction.posted = [⟨[7], [3]⟩, ⟨[8, 9], [4, 5]⟩] ∧
      direction.delivered = direction.posted := by
  have run : Execution step (fun direction action => WithinLimits direction action ∧
      FdsFit direction action ∧ CountsFit direction action) start
      (⟨[.payload ⟨0, 0, 0⟩ ⟨[7], [3]⟩, .acknowledgement ⟨0, 0, 0⟩ 6,
          .payload ⟨0, 0, 0⟩ ⟨[8, 9], [4, 5]⟩], ⟨[], []⟩, ⟨[], []⟩,
        ⟨[], [], [⟨[7], [3]⟩, ⟨[8, 9], [4, 5]⟩], false⟩⟩ : Direction Nat) := by
    refine .tail (.read [⟨9, 0⟩]) (.tail (.read [⟨4, 3⟩, ⟨26, 0⟩]) (.tail (.transfer [5, 8, 26])
      (.tail (.post ⟨0, 0, 0⟩ ⟨[8, 9], [4, 5]⟩) (.tail (.acknowledge ⟨0, 0, 0⟩ 6)
        (.tail (.post ⟨0, 0, 0⟩ ⟨[7], [3]⟩) .refl ⟨⟨by decide, by decide⟩, trivial, trivial⟩ rfl)
        ⟨show 6 < 2 ^ 32 by decide, trivial, trivial⟩ rfl)
        ⟨⟨by decide, by decide⟩, trivial, trivial⟩ rfl)
      ⟨trivial, fun _ => by decide, trivial⟩ rfl) ⟨trivial, trivial, ?_⟩ rfl)
      ⟨trivial, trivial, ?_⟩ rfl
    all_goals
      rintro arrived ⟨⟩
      decide
  exact ⟨_, run, rfl, (@transport_delivers_posted_iff Nat).2.2.2 _ run rfl rfl⟩

/-- A message with 65 descriptors: one round sends its header and 64 of them, the last descriptor
stays behind without bytes, and the peer has all bytes and delivers nothing. -/
theorem descriptor_stranded :
    ∃ direction : Direction Nat, Execution step WithinLimits Direction.start direction ∧
      direction.queue.bytes = [] ∧ direction.queue.fds = [64] ∧ direction.wire.bytes = [] ∧
      direction.posted = [⟨[], List.range 65⟩] ∧ direction.delivered = [] := by
  have run : Execution step WithinLimits start
      (⟨[.payload ⟨0, 0, 0⟩ ⟨[], List.range 65⟩], ⟨[], [64]⟩, ⟨[], []⟩,
        ⟨[0, 0, 0, 0, 0, 0, 0, 0, 65, 0, 0, 0], List.range 64, [], false⟩⟩ : Direction Nat) := by
    refine .tail (.read [⟨12, 64⟩]) (.tail (.transfer [12])
      (.tail (.post ⟨0, 0, 0⟩ ⟨[], List.range 65⟩) .refl ⟨?_, ?_⟩ rfl) trivial rfl)
      trivial rfl
    all_goals decide
  exact ⟨_, run, rfl, rfl, rfl, rfl, rfl⟩

end Ladybone.Ipc
