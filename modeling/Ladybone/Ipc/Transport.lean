import Ladybone.Ipc.Framing
import Ladybone.Support.Runs

/-!
# One direction of a transport

The send queue, a socket that keeps the order of its bytes, and the receiving end. The socket
takes any part of what it is offered, or refuses; it hands over any part of what it holds, with
descriptors no later than the byte they were sent with. Errors that close the socket, and the
descriptors a sender retains until they are acknowledged, are left out.
-/

namespace Ladybone.Ipc

open Support.Codec List

variable {Fd : Type}

/-! ## The send queue -/

structure SendQueue (Fd : Type) where
  bytes : Bytes
  fds : List Fd
deriving DecidableEq

def maxTransferFds : Nat := 64

def SendQueue.enqueueMessage (queue : SendQueue Fd) (header payload : Bytes) (fds : List Fd) :
    SendQueue Fd where
  bytes := queue.bytes ++ header ++ payload
  fds := queue.fds ++ fds

def SendQueue.peek (queue : SendQueue Fd) (maxBytes : Nat) : SendQueue Fd where
  bytes := queue.bytes.take maxBytes
  fds := queue.fds.take maxTransferFds

def SendQueue.discard (queue : SendQueue Fd) (bytesCount fdsCount : Nat) : SendQueue Fd where
  bytes := queue.bytes.drop bytesCount
  fds := queue.fds.drop fdsCount

/-! ## The socket -/

/-- Bytes under way, and descriptors with the position of the byte they were sent with. -/
structure Wire (Fd : Type) where
  bytes : Bytes
  attached : List (Nat × Fd)
deriving DecidableEq

def Wire.fds (wire : Wire Fd) : List Fd := wire.attached.map Prod.snd

def Wire.send (wire : Wire Fd) (bytes : Bytes) (fds : List Fd) : Wire Fd where
  bytes := wire.bytes ++ bytes
  attached := wire.attached ++ fds.map (wire.bytes.length, ·)

/-- `send_message`: each write takes some bytes; the first one that is refused ends the loop. -/
def sendMessage : List Nat → Bytes → List Fd → Wire Fd → Option (Bytes × List Fd × Wire Fd)
  | [], bytes, fds, wire => some (bytes, fds, wire)
  | written :: writes, bytes, fds, wire =>
    if 0 < written ∧ written ≤ bytes.length then
      sendMessage writes (bytes.drop written) [] (wire.send (bytes.take written) fds)
    else none

/-- The end of a round of `io_thread_loop`, with `transfer_data`. -/
def transferData (writes : List Nat) (queue : SendQueue Fd) (wire : Wire Fd) :
    Option (SendQueue Fd × Wire Fd) :=
  let peeked := queue.peek 4096
  match sendMessage writes peeked.bytes peeked.fds wire with
  | none => none
  | some (bytes, fds, wire) =>
    some (queue.discard (peeked.bytes.length - bytes.length) (peeked.fds.length - fds.length), wire)

/-! ## The receiving end -/

structure Receiver (Fd : Type) where
  unprocessedBytes : Bytes
  unprocessedAttachments : List Fd
  incomingMessages : List (Message Fd)
  peerEof : Bool

def maxUnprocessedBufferSize : Nat := 134217728

def maxUnprocessedFds : Nat := 512

structure Read where
  (bytes fds : Nat)
deriving DecidableEq

def Receiver.Permits (receiver : Receiver Fd) (wire : Wire Fd) (read : Read) : Prop :=
  read.bytes ≤ 4096 ∧ read.bytes ≤ wire.bytes.length ∧ 0 < read.bytes + read.fds ∧
    (∀ entry ∈ wire.attached.drop read.fds, read.bytes ≤ entry.1) ∧
    receiver.unprocessedBytes.length + read.bytes ≤ maxUnprocessedBufferSize ∧
    receiver.unprocessedAttachments.length + read.fds ≤ maxUnprocessedFds

instance (receiver : Receiver Fd) (wire : Wire Fd) (read : Read) :
    Decidable (receiver.Permits wire read) :=
  inferInstanceAs (Decidable (_ ∧ _ ∧ _ ∧ _ ∧ _ ∧ _))

def Wire.behind (wire : Wire Fd) (read : Read) : Wire Fd where
  bytes := wire.bytes.drop read.bytes
  attached := (wire.attached.drop read.fds).map fun entry => (entry.1 - read.bytes, entry.2)

def Receiver.append (receiver : Receiver Fd) (wire : Wire Fd) (read : Read) : Receiver Fd :=
  { receiver with
    unprocessedBytes := receiver.unprocessedBytes ++ wire.bytes.take read.bytes
    unprocessedAttachments := receiver.unprocessedAttachments ++ wire.fds.take read.fds }

/-- The first loop of `read_incoming_messages`, until there is nothing to read. -/
def receive : List Read → Wire Fd → Receiver Fd → Option (Wire Fd × Receiver Fd)
  | [], wire, receiver => some (wire, receiver)
  | read :: reads, wire, receiver =>
    if receiver.Permits wire read then
      receive reads (wire.behind read) (receiver.append wire read)
    else none

def Receiver.parsing (receiver : Receiver Fd) : ParseState Fd :=
  ⟨receiver.unprocessedBytes, receiver.unprocessedAttachments, [], 0, 0⟩

/-- `read_incoming_messages` behind its first loop. -/
def Receiver.process (receiver : Receiver Fd) : Receiver Fd :=
  let result := parseLoop receiver.unprocessedBytes.length receiver.parsing
  { unprocessedBytes := result.1.bytes
    unprocessedAttachments := result.1.attachments
    incomingMessages := receiver.incomingMessages ++ result.1.batch
    peerEof := receiver.peerEof || result.2 }

/-! ## Runs -/

/-- The state of a direction, with everything that was ever enqueued. -/
structure Direction (Fd : Type) where
  frames : List (Frame Fd)
  queue : SendQueue Fd
  wire : Wire Fd
  receiver : Receiver Fd

def Direction.start : Direction Fd := ⟨[], ⟨[], []⟩, ⟨[], []⟩, ⟨[], [], [], false⟩⟩

def Direction.posted (direction : Direction Fd) : List (Message Fd) :=
  direction.frames.filterMap Frame.message

def Direction.delivered (direction : Direction Fd) : List (Message Fd) :=
  direction.receiver.incomingMessages

inductive Action (Fd : Type) where
  | post (padding : Padding) (message : Message Fd)
  | acknowledge (padding : Padding) (fdCount : Nat)
  | transfer (writes : List Nat)
  | read (reads : List Read)

def Direction.enqueue (direction : Direction Fd) (frame : Frame Fd) : Direction Fd :=
  { direction with
    frames := direction.frames ++ [frame]
    queue := direction.queue.enqueueMessage (frame.header.encode frame.padding) frame.body
      frame.fds }

def step (direction : Direction Fd) : Action Fd → Option (Direction Fd)
  | .post padding message => some (direction.enqueue (.payload padding message))
  | .acknowledge padding fdCount => some (direction.enqueue (.acknowledgement padding fdCount))
  | .transfer writes =>
    match transferData writes direction.queue direction.wire with
    | none => none
    | some (queue, wire) => some { direction with queue, wire }
  | .read reads =>
    match receive reads direction.wire direction.receiver with
    | none => none
    | some (wire, receiver) => some { direction with wire, receiver := receiver.process }

def WithinLimits (_ : Direction Fd) : Action Fd → Prop
  | .post padding message => (Frame.payload padding message).WithinLimits
  | .acknowledge padding fdCount => (Frame.acknowledgement padding fdCount : Frame Fd).WithinLimits
  | .transfer _ => True
  | .read _ => True

/-! ## What one send moves -/

def Wire.Attached (wire : Wire Fd) : Prop := ∀ entry ∈ wire.attached, entry.1 < wire.bytes.length

variable {wire nextWire : Wire Fd} {writes : List Nat}

theorem attached_send {bytes : Bytes} {fds : List Fd} (attached : wire.Attached)
    (some : 0 < bytes.length) : (wire.send bytes fds).Attached := by
  intro entry mem
  dsimp only [Wire.send] at mem ⊢
  rw [length_append]
  rcases mem_append.mp mem with old | new
  · have := attached entry old
    omega
  · obtain ⟨fd, -, isEntry⟩ := mem_map.mp new
    rw [← isEntry]
    omega

theorem send_message_spec {bytes bytesLeft : Bytes} {fds fdsLeft : List Fd}
    {next : Wire Fd} (sent : sendMessage writes bytes fds wire = some (bytesLeft, fdsLeft, next)) :
    ∃ written, written ++ bytesLeft = bytes ∧ written.length = writes.sum ∧
      next.bytes = wire.bytes ++ written ∧ next.fds ++ fdsLeft = wire.fds ++ fds ∧
      (wire.Attached → next.Attached) ∧ fdsLeft = if writes = [] then fds else [] := by
  induction writes generalizing bytes fds wire with
  | nil =>
    cases sent
    exact ⟨[], rfl, rfl, (append_nil _).symm, rfl, id, rfl⟩
  | cons count _ ih =>
    unfold sendMessage at sent
    split_ifs at sent with accepted
    obtain ⟨written, isBytes, isLength, isNext, sameFds, attached, isLeft⟩ := ih sent
    have taken : (bytes.take count).length = count := length_take_of_le accepted.2
    refine ⟨bytes.take count ++ written, ?_, ?_, ?_, ?_, ?_, ?_⟩
    · rw [append_assoc, isBytes, take_append_drop]
    · rw [length_append, taken, isLength, sum_cons]
    · rw [isNext, Wire.send, append_assoc]
    · rw [sameFds]
      simp [Wire.send, Wire.fds]
    · intro attachedBefore
      exact attached (attached_send attachedBefore (by omega))
    · rw [isLeft, ite_self, if_neg (cons_ne_nil _ _)]

/-- A round moves bytes from the queue to the socket; the first write takes at most 64
descriptors along. -/
structure Moves (writes : List Nat) (queue : SendQueue Fd) (wire : Wire Fd)
    (nextQueue : SendQueue Fd) (nextWire : Wire Fd) : Prop where
  bytes : nextWire.bytes ++ nextQueue.bytes = wire.bytes ++ queue.bytes
  fds : nextWire.fds ++ nextQueue.fds = wire.fds ++ queue.fds
  attached : wire.Attached → nextWire.Attached
  bytesLeft : nextQueue.bytes.length + writes.sum = queue.bytes.length
  fdsLeft : nextQueue.fds = if writes = [] then queue.fds else queue.fds.drop maxTransferFds

theorem transfer_data_spec {queue nextQueue : SendQueue Fd}
    (transferred : transferData writes queue wire = some (nextQueue, nextWire)) :
    Moves writes queue wire nextQueue nextWire := by
  unfold transferData at transferred
  dsimp only at transferred
  split at transferred
  · cases transferred
  · rename_i bytesLeft fdsLeft sentWire sent
    cases transferred
    obtain ⟨written, isBytes, isLength, isNext, sameFds, attached, isLeft⟩ := send_message_spec sent
    have allBytes : queue.bytes = written ++ (bytesLeft ++ queue.bytes.drop 4096) := by
      rw [← append_assoc, isBytes]
      exact (take_append_drop 4096 queue.bytes).symm
    have bytesCount : (queue.peek 4096).bytes.length - bytesLeft.length = written.length := by
      rw [← isBytes, length_append]
      omega
    have restOfBytes : queue.bytes.drop written.length = bytesLeft ++ queue.bytes.drop 4096 := by
      conv_lhs => rw [allBytes]
      exact drop_left' rfl
    have restOfFds : queue.fds.drop ((queue.peek 4096).fds.length - fdsLeft.length) =
        if writes = [] then queue.fds else queue.fds.drop maxTransferFds := by
      rw [isLeft]
      split_ifs with noWrites
      · rw [Nat.sub_self, drop_zero]
      · dsimp only [SendQueue.peek]
        rw [length_nil, Nat.sub_zero, length_take]
        rcases Nat.le_total maxTransferFds queue.fds.length with many | few
        · rw [Nat.min_eq_left many]
        · rw [Nat.min_eq_right few, drop_length, drop_eq_nil_of_le few]
    refine ⟨?_, ?_, attached, ?_, restOfFds⟩
    · dsimp only [SendQueue.discard]
      rw [bytesCount, restOfBytes, isNext, append_assoc, ← allBytes]
    · dsimp only [SendQueue.discard]
      rw [restOfFds]
      rw [isLeft] at sameFds
      split_ifs at sameFds ⊢ with noWrites
      · exact congrArg (· ++ queue.fds) (append_cancel_right sameFds)
      · rw [append_nil] at sameFds
        rw [sameFds, append_assoc]
        exact congrArg (wire.fds ++ ·) (take_append_drop maxTransferFds queue.fds)
    · dsimp only [SendQueue.discard]
      rw [length_drop]
      have := congrArg List.length allBytes
      rw [length_append] at this
      omega

/-! ## What one read moves -/

theorem attached_behind {receiver : Receiver Fd} {read : Read}
    (permits : receiver.Permits wire read) (attached : wire.Attached) :
    (wire.behind read).Attached := by
  intro entry mem
  obtain ⟨before, mem, isEntry⟩ := mem_map.mp mem
  have notPassed := permits.2.2.2.1 before mem
  have onWire := attached before (mem_of_mem_drop mem)
  rw [← isEntry]
  dsimp only [Wire.behind]
  rw [length_drop]
  omega

structure Arrives (wire : Wire Fd) (receiver : Receiver Fd) (nextWire : Wire Fd)
    (next : Receiver Fd) : Prop where
  bytes : next.unprocessedBytes ++ nextWire.bytes = receiver.unprocessedBytes ++ wire.bytes
  fds : next.unprocessedAttachments ++ nextWire.fds = receiver.unprocessedAttachments ++ wire.fds
  messages : next.incomingMessages = receiver.incomingMessages
  attached : wire.Attached → nextWire.Attached
  limit : receiver.unprocessedAttachments.length ≤ maxUnprocessedFds →
    next.unprocessedAttachments.length ≤ maxUnprocessedFds

theorem receive_spec {reads : List Read} {receiver next : Receiver Fd}
    (received : receive reads wire receiver = some (nextWire, next)) :
    Arrives wire receiver nextWire next := by
  induction reads generalizing wire receiver with
  | nil =>
    cases received
    exact ⟨rfl, rfl, rfl, id, id⟩
  | cons _ _ ih =>
    unfold receive at received
    split_ifs at received with permits
    have rest := ih received
    refine ⟨?_, ?_, rest.messages, ?_, ?_⟩
    · rw [rest.bytes]
      dsimp only [Receiver.append, Wire.behind]
      rw [append_assoc, take_append_drop]
    · rw [rest.fds]
      simp [Receiver.append, Wire.behind, Wire.fds, Function.comp_def]
    · intro attached
      exact rest.attached (attached_behind permits attached)
    · intro _
      refine rest.limit ?_
      have within := permits.2.2.2.2.2
      dsimp only [Receiver.append]
      rw [length_append, length_take]
      omega

end Ladybone.Ipc
