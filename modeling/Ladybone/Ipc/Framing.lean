import Ladybone.Support.Codec

/-!
# Messages on a byte stream

The header in front of every message and acknowledgement, and the loop that takes complete
messages from the bytes and descriptors that have arrived. Descriptors are of any type.
-/

namespace Ladybone.Ipc

open Support.Codec List

def maxMessagePayloadSize : Nat := 67108864

def maxMessageFdCount : Nat := 128

structure MessageHeader where
  type : UInt8
  (payloadSize fdCount : Nat)
deriving DecidableEq

/-- The bytes behind the type that nobody writes. -/
structure Padding where
  (first second third : UInt8)
deriving DecidableEq

def payloadType : UInt8 := 0

def acknowledgementType : UInt8 := 1

def MessageHeader.encode (padding : Padding) (header : MessageHeader) : Bytes :=
  header.type :: padding.first :: padding.second :: padding.third ::
    (littleEndian 4 header.payloadSize ++ littleEndian 4 header.fdCount)

def headerSize : Nat := 12

def decodeHeader (bytes : Bytes) : Option (MessageHeader × Bytes) :=
  match bytes with
  | type :: _ :: _ :: _ :: rest =>
    if rest.length < 8 then none
    else
      some (⟨type, fromLittleEndian (rest.take 4), fromLittleEndian ((rest.drop 4).take 4)⟩,
        rest.drop 8)
  | _ => none

theorem length_encode_header (padding : Padding) (hdr : MessageHeader) :
    (hdr.encode padding).length = headerSize := by
  simp [MessageHeader.encode, headerSize]

theorem decode_header_encode {hdr : MessageHeader} {padding : Padding} {rest : Bytes}
    (payloadFits : hdr.payloadSize < 2 ^ 32) (countFits : hdr.fdCount < 2 ^ 32) :
    decodeHeader (hdr.encode padding ++ rest) = some (hdr, rest) := by
  have first : (littleEndian 4 hdr.payloadSize ++ littleEndian 4 hdr.fdCount ++ rest).take 4 =
      littleEndian 4 hdr.payloadSize := by
    exact take_left' length_little_endian
  have second : ((littleEndian 4 hdr.payloadSize ++ littleEndian 4 hdr.fdCount ++ rest).drop
      4).take 4 = littleEndian 4 hdr.fdCount := by
    exact take_left' length_little_endian
  have third : (littleEndian 4 hdr.payloadSize ++ littleEndian 4 hdr.fdCount ++ rest).drop 8 =
      rest := drop_left' (by simp)
  unfold MessageHeader.encode decodeHeader
  simp only [cons_append]
  have long : ¬(littleEndian 4 hdr.payloadSize ++ littleEndian 4 hdr.fdCount ++
      rest).length < 8 := by
    simp only [length_append, length_little_endian]
    omega
  rw [if_neg long, first, second, third, from_little_endian payloadFits,
    from_little_endian countFits]

theorem decode_header_eq_none {bytes : Bytes} (short : bytes.length < headerSize) :
    decodeHeader bytes = none := by
  unfold decodeHeader
  split
  · rw [if_pos]
    simp only [headerSize, length_cons] at short
    omega
  · rfl

/-! ## Frames -/

structure Message (Fd : Type) where
  bytes : Bytes
  attachments : List Fd
deriving DecidableEq

inductive Frame (Fd : Type) where
  | payload (padding : Padding) (message : Message Fd)
  | acknowledgement (padding : Padding) (fdCount : Nat)

open Ipc.Frame

namespace Frame

variable {Fd : Type}

def header : Frame Fd → MessageHeader
  | payload _ message => ⟨payloadType, message.bytes.length, message.attachments.length⟩
  | acknowledgement _ fdCount => ⟨acknowledgementType, 0, fdCount⟩

def padding : Frame Fd → Padding
  | payload padding _ => padding
  | acknowledgement padding _ => padding

def body : Frame Fd → Bytes
  | payload _ message => message.bytes
  | acknowledgement _ _ => []

def fds : Frame Fd → List Fd
  | payload _ message => message.attachments
  | acknowledgement _ _ => []

def message : Frame Fd → Option (Message Fd)
  | payload _ message => some message
  | acknowledgement _ _ => none

def acknowledged : Frame Fd → Nat
  | payload _ _ => 0
  | acknowledgement _ fdCount => fdCount

def encode (frame : Frame Fd) : Bytes := frame.header.encode frame.padding ++ frame.body

/-- A message within the limits, or a count that fits its field. -/
def WithinLimits : Frame Fd → Prop
  | payload _ message =>
    message.bytes.length ≤ maxMessagePayloadSize ∧ message.attachments.length ≤ maxMessageFdCount
  | acknowledgement _ fdCount => fdCount < 2 ^ 32

theorem header_fits {frame : Frame Fd} (limits : frame.WithinLimits) :
    frame.header.payloadSize < 2 ^ 32 ∧ frame.header.fdCount < 2 ^ 32 := by
  cases frame with
  | payload =>
    obtain ⟨payloadFits, countFits⟩ := limits
    constructor
    · exact Nat.lt_of_le_of_lt payloadFits (by decide)
    · exact Nat.lt_of_le_of_lt countFits (by decide)
  | acknowledgement => exact ⟨Nat.two_pow_pos 32, limits⟩

theorem length_encode (frame : Frame Fd) :
    frame.encode.length = headerSize + frame.body.length := by
  rw [encode, length_append, length_encode_header]

end Frame

/-! ## Parsing -/

structure ParseState (Fd : Type) where
  bytes : Bytes
  attachments : List Fd
  batch : List (Message Fd)
  (receivedFdCount acknowledgedFdCount : Nat)

inductive Progress (Fd : Type) where
  | next (state : ParseState Fd)
  | waits
  | rejects

variable {Fd : Type}

/-- The body of the loop of `read_incoming_messages`. -/
def parseNext (state : ParseState Fd) : Progress Fd :=
  match decodeHeader state.bytes with
  | none => .waits
  | some (header, rest) =>
    if header.type = payloadType then
      if maxMessagePayloadSize < header.payloadSize then .rejects
      else if maxMessageFdCount < header.fdCount then .rejects
      else if rest.length < header.payloadSize then .waits
      else if state.attachments.length < header.fdCount then .waits
      else if 2 ^ 32 ≤ state.receivedFdCount + header.fdCount then .rejects
      else
        .next
          { bytes := rest.drop header.payloadSize
            attachments := state.attachments.drop header.fdCount
            batch := state.batch ++
              [⟨rest.take header.payloadSize, state.attachments.take header.fdCount⟩]
            receivedFdCount := state.receivedFdCount + header.fdCount
            acknowledgedFdCount := state.acknowledgedFdCount }
    else if header.type = acknowledgementType then
      if header.payloadSize ≠ 0 then .rejects
      else if 2 ^ 32 ≤ state.acknowledgedFdCount + header.fdCount then .rejects
      else
        .next
          { state with
            bytes := rest
            acknowledgedFdCount := state.acknowledgedFdCount + header.fdCount }
    else .rejects

/-- The loop; every round takes a header, so that there are fewer rounds than bytes. -/
def parseLoop : Nat → ParseState Fd → ParseState Fd × Bool
  | 0, state => (state, false)
  | rounds + 1, state =>
    match parseNext state with
    | .next next => parseLoop rounds next
    | .waits => (state, false)
    | .rejects => (state, true)

/-! ## What the loop takes from a stream of frames -/

/-- The bytes and descriptors that are there, with those still to come, are those of some frames. -/
structure Carries (frames : List (Frame Fd)) (state : ParseState Fd) (bytesToCome : Bytes)
    (fdsToCome : List Fd) : Prop where
  bytes : state.bytes ++ bytesToCome = frames.flatMap Frame.encode
  fds : state.attachments ++ fdsToCome = frames.flatMap Frame.fds

def Incomplete (frame : Frame Fd) (bytes : Bytes) (attachments : List Fd) : Prop :=
  bytes.length < frame.encode.length ∨ attachments.length < frame.fds.length

/-- The descriptors that the headers there acknowledge. -/
def acknowledgedIn : Nat → Bytes → Nat
  | 0, _ => 0
  | rounds + 1, bytes =>
    match decodeHeader bytes with
    | none => 0
    | some (header, rest) =>
      (if header.type = acknowledgementType then header.fdCount else 0) +
        acknowledgedIn rounds (rest.drop header.payloadSize)

theorem exists_append_of_length_le {Item : Type} {front back here toCome : List Item}
    (same : here ++ toCome = front ++ back) (long : front.length ≤ here.length) :
    ∃ rest, here = front ++ rest ∧ rest ++ toCome = back := by
  rcases append_eq_append_iff.mp same with ⟨missing, isFront, -⟩ | ⟨rest, isHere, isBack⟩
  · rw [isFront, length_append] at long
    have none : missing = [] := length_eq_zero_iff.mp (by omega)
    rw [none, append_nil] at isFront
    rw [isFront] at same ⊢
    exact ⟨[], (append_nil _).symm, append_cancel_left same⟩
  · exact ⟨rest, isHere, isBack.symm⟩

section
variable {state : ParseState Fd} {bytesToCome : Bytes} {fdsToCome : List Fd}

theorem parse_next_nil (carries : Carries [] state bytesToCome fdsToCome) :
    parseNext state = .waits := by
  have none : state.bytes = [] := (append_eq_nil_iff.mp carries.bytes).1
  unfold parseNext
  rw [none]
  rfl

theorem parse_next_cons {frame : Frame Fd} {rest : List (Frame Fd)} (limits : frame.WithinLimits)
    (carries : Carries (frame :: rest) state bytesToCome fdsToCome) :
    parseNext state = .waits ∧ Incomplete frame state.bytes state.attachments ∨
      parseNext state = .rejects ∧
        ((∀ rounds, 2 ^ 32 ≤ state.acknowledgedFdCount + acknowledgedIn (rounds + 1) state.bytes) ∨
          2 ^ 32 ≤ state.receivedFdCount + state.attachments.length) ∨
      ∃ next, parseNext state = .next next ∧ next.batch = state.batch ++ frame.message.toList ∧
        Carries rest next bytesToCome fdsToCome ∧
        (∀ rounds, next.acknowledgedFdCount + acknowledgedIn rounds next.bytes =
          state.acknowledgedFdCount + acknowledgedIn (rounds + 1) state.bytes) ∧
        next.receivedFdCount + next.attachments.length =
          state.receivedFdCount + state.attachments.length ∧
        next.bytes.length + headerSize ≤ state.bytes.length := by
  obtain ⟨sameBytes, sameFds⟩ := carries
  rw [flatMap_cons] at sameBytes sameFds
  by_cases hasHeader : headerSize ≤ state.bytes.length
  · unfold encode at sameBytes
    rw [append_assoc] at sameBytes
    obtain ⟨behind, isBytes, sameBehind⟩ := exists_append_of_length_le sameBytes
      (by rw [length_encode_header]; exact hasHeader)
    obtain ⟨payloadFits, countFits⟩ := header_fits limits
    have decoded : decodeHeader state.bytes = some (frame.header, behind) := by
      rw [isBytes]
      exact decode_header_encode payloadFits countFits
    have lengths : state.bytes.length = headerSize + behind.length := by
      rw [isBytes, length_append, length_encode_header]
    have counted (rounds : Nat) : acknowledgedIn (rounds + 1) state.bytes =
        frame.acknowledged + acknowledgedIn rounds (behind.drop frame.header.payloadSize) := by
      rw [acknowledgedIn, decoded]
      cases frame <;> rfl
    unfold parseNext
    rw [decoded]
    cases frame with
    | payload =>
      obtain ⟨smallPayload, fewFds⟩ := limits
      dsimp only [header]
      rw [if_pos rfl, if_neg (Nat.not_lt_of_le smallPayload), if_neg (Nat.not_lt_of_le fewFds)]
      split_ifs with noPayload noFds tooMany
      · refine .inl ⟨rfl, .inl ?_⟩
        rw [length_encode, lengths]
        exact Nat.add_lt_add_left noPayload _
      · exact .inl ⟨rfl, .inr noFds⟩
      · refine .inr (.inl ⟨rfl, .inr ?_⟩)
        omega
      · -- the payload and the descriptors are in front of what is there
        obtain ⟨bytesLeft, isBehind, sameBytesLeft⟩ :=
          exists_append_of_length_le sameBehind (Nat.le_of_not_lt noPayload)
        obtain ⟨fdsLeft, isFds, sameFdsLeft⟩ :=
          exists_append_of_length_le sameFds (Nat.le_of_not_lt noFds)
        dsimp only [body, fds] at isBehind isFds
        refine .inr (.inr ⟨_, rfl, ?_, ⟨?_, ?_⟩, fun rounds => ?_, ?_, ?_⟩)
        · dsimp only [message, Option.toList]
          rw [isBehind, isFds, take_left' rfl, take_left' rfl]
        · dsimp only
          rwa [isBehind, drop_left' rfl]
        · dsimp only
          rwa [isFds, drop_left' rfl]
        · rw [counted, acknowledged, Nat.zero_add]
          rfl
        · dsimp only
          rw [length_drop]
          omega
        · dsimp only
          rw [length_drop]
          omega
    | acknowledgement =>
      dsimp only [header]
      rw [if_neg (by decide), if_pos rfl, if_neg (by decide)]
      split_ifs with tooMany
      · refine .inr (.inl ⟨rfl, .inl fun rounds => ?_⟩)
        rw [counted, acknowledged]
        omega
      · refine .inr (.inr ⟨_, rfl, (append_nil _).symm, ⟨sameBehind, sameFds⟩, fun rounds => ?_,
          rfl, ?_⟩)
        · rw [counted, acknowledged, ← Nat.add_assoc]
          rfl
        · dsimp only
          omega
  · refine .inl ⟨?_, .inl ?_⟩
    · unfold parseNext
      rw [decode_header_eq_none (Nat.lt_of_not_le hasHeader)]
    · rw [length_encode]
      omega

theorem parse_loop_spec (rounds : Nat) {frames : List (Frame Fd)}
    (limits : ∀ frame ∈ frames, frame.WithinLimits)
    (carries : Carries frames state bytesToCome fdsToCome) (enough : state.bytes.length ≤ rounds) :
    ∃ taken left, frames = taken ++ left ∧
      (parseLoop rounds state).1.batch = state.batch ++ taken.filterMap Frame.message ∧
      Carries left (parseLoop rounds state).1 bytesToCome fdsToCome ∧
      (state.acknowledgedFdCount + acknowledgedIn rounds state.bytes < 2 ^ 32 →
        state.receivedFdCount + state.attachments.length < 2 ^ 32 →
          ∀ frame rest, left = frame :: rest →
        Incomplete frame (parseLoop rounds state).1.bytes
          (parseLoop rounds state).1.attachments) := by
  induction rounds generalizing state frames with
  | zero =>
    refine ⟨[], frames, rfl, (append_nil _).symm, carries, ?_⟩
    intro _ _ frame rest _
    refine .inl ?_
    rw [length_encode]
    unfold parseLoop headerSize
    dsimp only
    omega
  | succ rounds ih =>
    unfold parseLoop
    cases frames with
    | nil =>
      rw [parse_next_nil carries]
      refine ⟨[], [], rfl, (append_nil _).symm, carries, ?_⟩
      intro _ _ frame rest isCons
      cases isCons
    | cons frame rest =>
      rcases parse_next_cons (limits frame mem_cons_self) carries with
        ⟨waits, incomplete⟩ | ⟨rejects, overflows⟩ |
          ⟨next, isNext, isBatch, carriesRest, sameCount, sameFds, shorter⟩
      · rw [waits]
        refine ⟨[], frame :: rest, rfl, (append_nil _).symm, carries, ?_⟩
        rintro _ _ _ _ ⟨⟩
        exact incomplete
      · rw [rejects]
        refine ⟨[], frame :: rest, rfl, (append_nil _).symm, carries, ?_⟩
        intro fits few
        rcases overflows with tooMany | tooMany
        · exact absurd (tooMany rounds) (Nat.not_le_of_lt fits)
        · exact absurd tooMany (Nat.not_le_of_lt few)
      · rw [isNext]
        have enoughRounds : next.bytes.length ≤ rounds := by
          unfold headerSize at shorter
          omega
        obtain ⟨taken, left, isRest, isTaken, carriesLeft, stops⟩ :=
          ih (fun other mem => limits other (mem_cons_of_mem _ mem)) carriesRest enoughRounds
        refine ⟨frame :: taken, left, ?_, ?_, carriesLeft, fun fits few =>
          stops (sameCount rounds ▸ fits) (sameFds ▸ few)⟩
        · rw [isRest, cons_append]
        · dsimp only
          rw [isTaken, isBatch, append_assoc]
          cases frame with
          | payload | acknowledgement => rfl

end
end Ladybone.Ipc
