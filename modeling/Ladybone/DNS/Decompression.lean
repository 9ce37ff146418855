import Ladybone.DNS.Names
import Mathlib.Data.List.Induction

/-!
# Decompression of DNS names

The parser never goes back to an octet: a pointer is resolved in the tree of names
expanded so far. This module ties the tree to the octets. Every parser of a message
keeps `At`: the stream is a window of the octets, the tree holds the names recorded
so far, and each recorded name is the wire name at its offset continued by what the
tree gave for its pointer. From this the names of an accepted message are compared
with the readings of `Reads`.
-/

namespace Ladybone.DNS

open AK.RedBlackTree ResourceRecord Support.Parsing List Option

/-! ## Recorded names -/

def treeOf (key : Nat → Nat) (sites : List Site) : Tree Nat DomainName :=
  sites.foldl (fun tree site => AK.RedBlackTree.insert (key site.offset) site.name tree) .leaf

/-- The keys of `ParseContext::pointers` are `u16`. -/
def cutToKey (offset : Nat) : Nat := offset % 2 ^ 16

def resolve (tree : Tree Nat DomainName) (target : Nat) : Option (List Octets) :=
  (findLargestNotAbove target tree none).map fun found =>
    labelsFrom found.2.labels (target - found.1)

def Pointed (tree : Tree Nat DomainName) (pointed : List Octets) : Option Nat → Prop
  | none => pointed = []
  | some target => resolve tree target = some pointed

def stopOf (octets : Octets) (site : Site) : Nat :=
  match wireName octets site.offset with
  | none => site.offset
  | some wire => wire.stop

/-- `holds earlier site` at every position of a list, `earlier` being what precedes. -/
def Each (holds : List Site → Site → Prop) : List Site → List Site → Prop
  | _, [] => True
  | earlier, site :: later => holds earlier site ∧ Each holds (earlier ++ [site]) later

theorem each_snoc {holds : List Site → Site → Prop} (past sites : List Site) (site : Site)
    (before : Each holds past sites) (last : holds (past ++ sites) site) :
    Each holds past (sites ++ [site]) := by
  induction sites generalizing past with
  | nil =>
    rw [append_nil] at last
    exact ⟨last, trivial⟩
  | cons first _ ih =>
    refine ⟨before.1, ih (past ++ [first]) before.2 ?_⟩
    rwa [append_assoc]

/-- What the parser has made of the octets at a site, given the names before it. -/
def Expands (octets : Octets) (earlier : List Site) (site : Site) : Prop :=
  (∀ other ∈ earlier, stopOf octets other ≤ site.offset) ∧
    ∃ wire pointed, wireName octets site.offset = some wire ∧
      site.name.labels = wire.labels ++ pointed ∧
      Pointed (treeOf cutToKey earlier) pointed wire.pointer

/-! ## Windows of the octets -/

def streamAt (octets : Octets) (limit offset : Nat) : CountingStream :=
  { remaining := (octets.drop offset).take (limit - offset), readBytes := offset }

def ParseContext.moveTo (ctx : ParseContext) (octets : Octets) (limit offset : Nat) :
    ParseContext :=
  { ctx with stream := streamAt octets limit offset }

open ParseContext

section
variable {octets : Octets} {limit off : Nat} {ctx after : ParseContext}

theorem read_until_filled_at {size : Nat} {read : Octets} (within : limit ≤ octets.length)
    (inside : off ≤ limit)
    (ran : readUntilFilled size (ctx.moveTo octets limit off) = .ok (read, after)) :
    off + size ≤ limit ∧ read = (octets.drop off).take size ∧
      after = ctx.moveTo octets limit (off + size) := by
  have width : ((octets.drop off).take (limit - off)).length = limit - off := by
    rw [length_take, length_drop]
    omega
  simp only [readUntilFilled, moveTo, streamAt, width] at ran
  split_ifs at ran with short
  cases ran
  refine ⟨by omega, ?_, ?_⟩
  · rw [take_take, Nat.min_eq_left (by omega)]
  · rw [drop_take, drop_drop, Nat.sub_sub]
    rfl

theorem read_u8_at {octet : UInt8} (within : limit ≤ octets.length) (inside : off ≤ limit)
    (ran : readU8 (ctx.moveTo octets limit off) = .ok (octet, after)) :
    off + 1 ≤ limit ∧ octets[off]? = some octet ∧ after = ctx.moveTo octets limit (off + 1) := by
  rcases bind_ok ran with ⟨read, between, filled, returned⟩
  rcases read_until_filled_at within inside filled with ⟨room, content, moved⟩
  cases returned
  have present : off < octets.length := by omega
  have single : read = [octets[off]] := by
    rw [content, drop_eq_getElem_cons present]
    rfl
  refine ⟨room, ?_, moved⟩
  rw [single]
  simp [fromNetworkOrder]

theorem follow_pointer_at {target : Nat} {pointed : List Octets}
    (ran : followPointer target ctx = .ok (pointed, after)) :
    resolve ctx.pointers target = some pointed ∧ after = ctx := by
  rw [followPointer] at ran
  rw [resolve]
  split at ran
  · rename_i found
    cases ran
    rw [found]
    exact ⟨rfl, rfl⟩
  · cases ran

/-- The loop of `from_raw` reads the wire name at the stream's position. -/
theorem read_labels_at {fuel : Nat} {labels res : List Octets}
    (within : limit ≤ octets.length) (inside : off ≤ limit)
    (ran : DomainName.readLabels fuel labels (ctx.moveTo octets limit off) = .ok (res, after)) :
    ∃ wire pointed, readWire octets fuel off = some wire ∧
      res = labels ++ (wire.labels ++ pointed) ∧
      Pointed ctx.pointers pointed wire.pointer ∧ wire.stop ≤ limit ∧
      after = ctx.moveTo octets limit wire.stop := by
  induction fuel generalizing labels off with
  | zero => cases ran
  | succ _ ih =>
    rcases bind_ok ran with ⟨len, between, readLength, ran⟩
    obtain ⟨room, start, rfl⟩ := read_u8_at within inside readLength
    split_ifs at ran with zero marked
    · cases ran
      exact ⟨_, [], (WireCase.root (zero ▸ start)).read, (append_nil _).symm, rfl, room, rfl⟩
    · have high := marked_iff.mp marked
      rcases bind_ok ran with ⟨low, between, readLow, ran⟩
      obtain ⟨roomLow, second, rfl⟩ := read_u8_at within room readLow
      rcases bind_ok ran with ⟨pointed, between, followed, ran⟩
      obtain ⟨resolved, rfl⟩ := follow_pointer_at followed
      rw [pointer_offset_eq high] at resolved
      cases ran
      exact ⟨_, pointed, (WireCase.pointer start high second).read, rfl, resolved, roomLow, rfl⟩
    · have unmarked := Nat.lt_of_not_le (mt marked_iff.mpr marked)
      rcases bind_ok ran with ⟨content, between, filled, ran⟩
      obtain ⟨roomLabel, rfl, rfl⟩ := read_until_filled_at within room filled
      rcases ih roomLabel ran with
        ⟨rest, pointed, readRest, resultEq, resolved, roomRest, movedRest⟩
      refine ⟨_, pointed,
        (WireCase.label start zero unmarked (Nat.le_trans roomLabel within) readRest).read,
        ?_, resolved, roomRest, movedRest⟩
      rw [resultEq, append_assoc]
      rfl

end

/-! ## The invariant of every parser -/

structure At (octets : Octets) (limit : Nat) (ctx : ParseContext) : Prop where
  within : limit ≤ octets.length
  inside : ctx.stream.readBytes ≤ limit
  window : ctx.stream = streamAt octets limit ctx.stream.readBytes
  tree : ctx.pointers = treeOf cutToKey ctx.inserted
  recorded : Each (Expands octets) [] ctx.inserted
  ended : ∀ site ∈ ctx.inserted, stopOf octets site ≤ ctx.stream.readBytes

def ParseContext.names (ctx : ParseContext) : List DomainName := ctx.inserted.map Site.name

/-- The parser records exactly `names` of its result, in that order. -/
def Collects {Result : Type} (octets : Octets) (limit : Nat) (parser : Parser Result)
    (names : Result → List DomainName) : Prop :=
  Emits (At octets limit) ParseContext.names parser fun result added => added = names result

def Quiet {Result : Type} (octets : Octets) (limit : Nat) (parser : Parser Result) : Prop :=
  Silent (At octets limit) ParseContext.names parser

variable {octets : Octets} {ctx : ParseContext} {wire : WireName} {type : ResourceType}
  {past : List Site} {site : Site}

theorem At.moved {limit off : Nat}
    (good : At octets limit ctx) (room : off ≤ limit) (forward : ctx.stream.readBytes ≤ off) :
    At octets limit (ctx.moveTo octets limit off) := by
  exact ⟨good.within, room, rfl, good.tree, good.recorded,
    fun site mem => Nat.le_trans (good.ended site mem) forward⟩

theorem At.context {limit : Nat}
    (good : At octets limit ctx) : ctx = ctx.moveTo octets limit ctx.stream.readBytes := by
  rw [moveTo, ← good.window]

section
variable {octets : Octets} {limit : Nat} {Result : Type} {parser : Parser Result}

theorem quiet_of_ok {read : ParseContext → Result}
    (reads : ∀ ctx, parser ctx = .ok (read ctx, ctx)) : Quiet octets limit parser := by
  intro ctx res after good ran
  rw [reads] at ran
  cases ran
  exact ⟨good, [], (append_nil _).symm, rfl⟩

theorem quiet_is_eof : Quiet octets limit isEof :=
  quiet_of_ok fun _ => rfl

theorem quiet_get : Quiet octets limit (get : Parser ParseContext) :=
  quiet_of_ok fun _ => rfl

theorem quiet_read_until_filled (size : Nat) : Quiet octets limit (readUntilFilled size) := by
  intro ctx res after good ran
  rw [good.context] at ran
  rcases read_until_filled_at good.within good.inside ran with ⟨room, -, moved⟩
  rw [moved]
  exact ⟨good.moved room (Nat.le_add_right _ _), [], (append_nil _).symm, rfl⟩

theorem quiet_read_until_eof : Quiet octets limit readUntilEof := by
  intro ctx res after good ran
  exact quiet_read_until_filled ctx.stream.remaining.length ctx res after good ran

theorem quiet_read_u8 : Quiet octets limit readU8 :=
  emits_after (quiet_read_until_filled 1) fun _ => emits_pure _ rfl

theorem quiet_read_u16 : Quiet octets limit readU16 :=
  emits_after (quiet_read_until_filled 2) fun _ => emits_pure _ rfl

theorem quiet_read_u32 : Quiet octets limit readU32 :=
  emits_after (quiet_read_until_filled 4) fun _ => emits_pure _ rfl

theorem stop_of_wire (found : wireName octets site.offset = some wire) :
    stopOf octets site = wire.stop := by
  rw [stopOf, found]

theorem names_domain_name : Collects octets limit DomainName.fromRaw fun name => [name] := by
  intro ctx name after good ran
  obtain ⟨marker, between, ⟨⟩, ran⟩ := bind_ok ran
  obtain ⟨copy, between, ⟨⟩, ran⟩ := bind_ok ran
  obtain ⟨labels, between, readNames, ran⟩ := bind_ok ran
  rw [good.context] at readNames
  rcases read_labels_at good.within good.inside readNames with
    ⟨wire, pointed, read, labelsEq, resolved, room, rfl⟩
  cases ran
  have fuelBound : ctx.stream.remaining.length + 1 ≤ octets.length + 1 := by
    rw [good.window, streamAt]
    rw [length_take, length_drop]
    omega
  have found : wireName octets ctx.stream.readBytes = some wire := by
    apply read_wire_more _ fuelBound
    rwa [good.context]
  have forward := starts_inside found _ (offset_mem_starts found)
  have expands : Expands octets ctx.inserted
      { offset := ctx.stream.readBytes, name := { labels := labels } } := by
    refine ⟨good.ended, wire, pointed, found, labelsEq, ?_⟩
    rwa [← good.tree]
  refine ⟨⟨good.within, room, rfl, ?_, ?_, ?_⟩, [_], map_append, rfl⟩
  · simp only [moveTo, treeOf, foldl_append, foldl_cons]
    rw [good.tree]
    rfl
  · exact each_snoc _ _ _ good.recorded expands
  · refine forall_mem_append.mpr ⟨fun site older => ?_, forall_mem_singleton.mpr ?_⟩
    · exact Nat.le_trans (good.ended site older) (Nat.le_of_lt forward.2)
    · exact Nat.le_of_eq (stop_of_wire found)

theorem names_then {next : DomainName → Parser Result} {names : Result → List DomainName}
    (rest : ∀ name, Emits (At octets limit) ParseContext.names (next name)
      fun res added => name :: added = names res) :
    Collects octets limit (DomainName.fromRaw >>= next) names := by
  apply emits_bind names_domain_name
  intro name logged isName
  rw [isName]
  exact rest name

theorem names_question :
    Collects octets limit Question.fromRaw fun question => [question.name] := by
  apply names_then
  intro name
  apply emits_after quiet_read_u16
  intro type
  apply emits_after quiet_read_u16
  intro class_
  exact emits_pure _ rfl

theorem quiet_character_string : Quiet octets limit Records.characterString :=
  emits_after quiet_read_u8 fun len => quiet_read_until_filled len.toNat

theorem names_soa : Collects octets limit Records.SOA.fromRaw fun record =>
      [record.mname, record.rname] := by
  apply names_then
  intro mname
  apply emits_bind names_domain_name
  intro rname logged isName
  rw [isName]
  apply emits_after quiet_read_u32
  intro serial
  apply emits_after quiet_read_u32
  intro refresh
  apply emits_after quiet_read_u32
  intro retry
  apply emits_after quiet_read_u32
  intro expire
  apply emits_after quiet_read_u32
  intro minimum
  exact emits_pure _ rfl

theorem names_mx : Collects octets limit Records.MX.fromRaw fun record => [record.exchange] := by
  apply emits_after quiet_read_u16
  intro preference
  apply names_then
  intro exchange
  exact emits_pure _ rfl

theorem names_srv : Collects octets limit Records.SRV.fromRaw fun record => [record.target] := by
  apply emits_after quiet_read_u16
  intro priority
  apply emits_after quiet_read_u16
  intro weight
  apply emits_after quiet_read_u16
  intro port
  apply names_then
  intro target
  exact emits_pure _ rfl

theorem quiet_dnskey : Quiet octets limit Records.DNSKEY.fromRaw := by
  apply emits_after quiet_read_u16
  intro flags
  apply emits_after quiet_read_u8
  intro protocol
  apply emits_after quiet_read_u8
  intro algorithm
  apply emits_after quiet_read_until_eof
  intro publicKey
  split
  · exact emits_throw
  · exact emits_pure _ rfl

theorem quiet_ds : Quiet octets limit Records.DS.fromRaw := by
  apply emits_after quiet_read_u16
  intro keyTag
  apply emits_after quiet_read_u8
  intro algorithm
  apply emits_after quiet_read_u8
  intro digestType
  split
  · exact emits_throw
  · apply emits_after (quiet_read_until_filled _)
    intro digest
    exact emits_pure _ rfl

theorem names_sig :
    Collects octets limit Records.SIG.fromRaw fun record => [record.signersName] := by
  apply emits_after quiet_read_u16
  intro typeCovered
  apply emits_after quiet_read_u8
  intro algorithm
  apply emits_after quiet_read_u8
  intro labels
  apply emits_after quiet_read_u32
  intro originalTtl
  apply emits_after quiet_read_u32
  intro expiration
  apply emits_after quiet_read_u32
  intro inception
  apply emits_after quiet_read_u16
  intro keyTag
  apply names_then
  intro signer
  apply emits_after quiet_read_until_eof
  intro signature
  exact emits_pure _ rfl

theorem quiet_hinfo : Quiet octets limit Records.HINFO.fromRaw := by
  apply emits_after quiet_character_string
  intro cpu
  apply emits_after quiet_character_string
  intro os
  exact emits_pure _ rfl

theorem quiet_read_options {fuel : Nat} (rdLength : UInt16) (options : List (UInt16 × Octets)) :
    Quiet octets limit (Records.OPT.readOptions fuel rdLength options) := by
  induction fuel generalizing rdLength options with
  | zero => exact emits_throw
  | succ _ ih =>
    apply emits_after quiet_is_eof
    intro eof
    split
    · exact emits_pure _ rfl
    · apply emits_after quiet_read_u16
      intro code
      apply emits_after quiet_read_u16
      intro len
      apply emits_after (quiet_read_until_filled _)
      intro data
      exact ih _ _

theorem quiet_opt : Quiet octets limit Records.OPT.fromRaw := by
  apply emits_after quiet_read_u16
  intro udpSize
  apply emits_after quiet_read_u32
  intro rcodeAndFlags
  apply emits_after quiet_read_u16
  intro rdLength
  apply emits_after quiet_get
  intro ctx
  apply emits_after (quiet_read_options _ _)
  intro read
  split
  · exact emits_throw
  · exact emits_pure _ rfl

theorem names_mapped_quiet {make : Result → Record}
    (quiet : Quiet octets limit parser) (nameless : ∀ res, (make res).names = []) :
    Collects octets limit (make <$> parser) Record.names := by
  apply emits_map
  intro ctx res after good ran
  rcases quiet ctx res after good ran with ⟨kept, added, logged, none⟩
  exact ⟨kept, added, logged, none.trans (nameless res).symm⟩

variable {parser : Parser Record} {label : String}

theorem names_of_content (parsed : ResourceRecord.contentParser type = some (label, parser)) :
    Collects octets limit parser Record.names := by
  cases type with
  | OPT | other => cases parsed
  | A | AAAA =>
    cases parsed
    exact names_mapped_quiet (quiet_read_until_filled _) fun _ => rfl
  | TXT =>
    cases parsed
    exact names_mapped_quiet quiet_character_string fun _ => rfl
  | CNAME | NS | PTR =>
    cases parsed
    exact emits_map names_domain_name
  | SOA =>
    cases parsed
    exact emits_map names_soa
  | MX =>
    cases parsed
    exact emits_map names_mx
  | SRV =>
    cases parsed
    exact emits_map names_srv
  | DNSKEY | CDNSKEY =>
    cases parsed
    exact names_mapped_quiet quiet_dnskey fun _ => rfl
  | DS | CDS =>
    cases parsed
    exact names_mapped_quiet quiet_ds fun _ => rfl
  | RRSIG =>
    cases parsed
    exact emits_map names_sig
  | HINFO =>
    cases parsed
    exact names_mapped_quiet quiet_hinfo fun _ => rfl

theorem names_parse_as {rdata : Octets} (names : Collects octets limit parser Record.names) :
    Collects octets limit (ResourceRecord.parseAs label parser rdata) Record.names := by
  apply emits_bind names
  intro record logged isNames
  rw [isNames]
  apply emits_after quiet_is_eof
  intro eof
  split
  · exact emits_pure _ (append_nil _)
  · apply emits_after (quiet_of_ok fun _ => rfl)
    intro off
    split
    all_goals exact emits_throw

end

section
variable {octets : Octets} {limit : Nat}

/-- The RDATA's own stream is a window of the same octets that ends where the outer
stream has come to, so what the content parser keeps, the outer context keeps. -/
theorem content_kept {off : Nat} {after : ParseContext}
    {rdata : Octets} {record : Record} (start : At octets limit ctx)
    (atStart : ctx.stream.readBytes = off) (room : off + rdata.length ≤ limit)
    (content : rdata = (octets.drop off).take rdata.length)
    (ran : ResourceRecord.readContent type off rdata
      (ctx.moveTo octets limit (off + rdata.length)) = .ok (record, after)) :
    At octets limit after ∧ ∃ added, after.names = ctx.names ++ added ∧ added = record.names := by
  rw [readContent] at ran
  cases parsed : contentParser type with
  | none =>
    rw [parsed] at ran
    cases ran
    exact ⟨start.moved room (by omega), [], (append_nil _).symm, rfl⟩
  | some entry =>
    rw [parsed] at ran
    have inner : At octets (off + rdata.length)
        { ctx with stream := { remaining := rdata, readBytes := off } } := by
      refine ⟨Nat.le_trans room start.within, Nat.le_add_right _ _, ?_, start.tree,
        start.recorded, ?_⟩
      · rw [streamAt, Nat.add_sub_cancel_left, ← content]
      · intro site mem
        rw [← atStart]
        exact start.ended site mem
    obtain ⟨_, innerRun, ⟨⟩⟩ := Support.Checks.bind_eq_ok.mp ran
    rcases names_parse_as (names_of_content parsed) _ _ _ inner innerRun with
      ⟨kept, added, logged, isNames⟩
    refine ⟨?_, added, logged, isNames⟩
    exact ⟨start.within, room, rfl, kept.tree, kept.recorded, fun site mem =>
      Nat.le_trans (kept.ended site mem) kept.inside⟩

theorem names_from_rdata {size : Nat} {recording : CountingStream}
    {make : Octets → Record → ResourceRecord} {first : DomainName}
    (makes : ∀ raw record, (make raw record).names = first :: record.names) :
    Emits (At octets limit) ParseContext.names
      (do
        let originalOffset ← readBytes
        let rdata ← readUntilFilled size
        let raw ← ResourceRecord.recordedSince recording
        let record ← ResourceRecord.readContent type originalOffset rdata
        return make raw record)
      fun res added => first :: added = res.names := by
  intro ctx res after good ran
  obtain ⟨off, between, ⟨⟩, ran⟩ := bind_ok ran
  obtain ⟨rdata, between, filled, ran⟩ := bind_ok ran
  rw [good.context] at filled
  obtain ⟨room, content, rfl⟩ := read_until_filled_at good.within good.inside filled
  obtain ⟨raw, between, ⟨⟩, ran⟩ := bind_ok ran
  obtain ⟨record, between, contentRun, ⟨⟩⟩ := bind_ok ran
  have width : rdata.length = size := by
    have within := good.within
    rw [content, length_take, length_drop]
    omega
  rw [← width] at room content contentRun
  rcases content_kept good rfl room content contentRun with ⟨kept, added, logged, isNames⟩
  exact ⟨kept, added, logged, (congrArg _ isNames).trans (makes _ record).symm⟩

theorem names_resource_record :
    Collects octets limit ResourceRecord.fromRaw ResourceRecord.names := by
  apply emits_after quiet_get
  intro start
  apply names_then
  intro name
  apply emits_after quiet_read_u16
  intro code
  split
  · apply emits_after quiet_opt
    intro record
    apply emits_after (quiet_of_ok fun _ => rfl)
    intro raw
    exact emits_pure _ rfl
  · apply emits_after quiet_read_u16
    intro class_
    apply emits_after quiet_read_u32
    intro ttl
    apply emits_after quiet_read_u16
    intro rdLength
    exact names_from_rdata fun raw record => rfl

theorem quiet_header : Quiet octets limit Header.fromRaw := by
  apply emits_after quiet_read_u16
  intro id
  apply emits_after quiet_read_u16
  intro options
  apply emits_after quiet_read_u16
  intro questionCount
  apply emits_after quiet_read_u16
  intro answerCount
  apply emits_after quiet_read_u16
  intro authorityCount
  apply emits_after quiet_read_u16
  intro additionalCount
  exact emits_pure _ rfl

theorem names_message : Collects octets limit Message.fromContext Message.names := by
  apply emits_after quiet_header
  intro header
  apply emits_bind (emits_repeated names_question _)
  intro questions fromQuestions questionsEq
  apply emits_bind (emits_repeated names_resource_record _)
  intro answers fromAnswers answersEq
  apply emits_bind (emits_repeated names_resource_record _)
  intro authorities fromAuthorities authoritiesEq
  apply emits_bind (emits_repeated names_resource_record _)
  intro additional fromAdditional additionalEq
  apply emits_pure
  rw [questionsEq, answersEq, authoritiesEq, additionalEq]
  simp [Message.names, map_eq_flatMap]

theorem initial_at (octets : Octets) : At octets octets.length (Message.initialContext octets) := by
  refine ⟨Nat.le_refl _, Nat.zero_le _, ?_, rfl, trivial, ?_⟩
  · simp [Message.initialContext, streamAt]
  · intro site mem
    cases mem

end

/-! ## The lookups -/

theorem tree_of_entries (key : Nat → Nat) (sites : List Site) :
    Ordered (treeOf key sites) ∧ ∀ entry, entry ∈ (treeOf key sites).toList ↔
      ∃ site ∈ sites, entry = (key site.offset, site.name) := by
  induction sites using List.reverseRecOn with
  | nil => exact ⟨List.Pairwise.nil, fun entry => by simp [treeOf, Tree.toList]⟩
  | append_singleton sites site ih =>
    have step : treeOf key (sites ++ [site]) =
        AK.RedBlackTree.insert (key site.offset) site.name (treeOf key sites) := by
      rw [treeOf, foldl_append]
      rfl
    rw [step]
    refine ⟨insert_ordered ih.1, fun entry => ?_⟩
    rw [mem_insert, ih.2]
    simp only [mem_append, mem_singleton, or_and_right, exists_or, exists_eq_left, or_comm]

section
variable {octets : Octets} {sites : List Site} {target : Nat} {other : Site}

def Spread (octets : Octets) (sites : List Site) : Prop :=
  sites.Pairwise fun earlier later => stopOf octets earlier ≤ later.offset

structure ReadRight (octets : Octets) (site : Site) : Prop where
  onWire : ∃ wire, wireName octets site.offset = some wire
  reading : Reads octets site.offset site.name.labels

theorem spread_cases (spread : Spread octets sites) {one : Site}
    (oneIn : one ∈ sites) (otherIn : other ∈ sites) :
    one = other ∨ stopOf octets one ≤ other.offset ∨ stopOf octets other ≤ one.offset := by
  apply Pairwise.forall_of_forall_of_flip (fun _ _ => .inl rfl) _ _ oneIn otherIn
  · exact spread.imp fun before => .inr (.inl before)
  · exact spread.imp fun before => .inr (.inr before)

/-- With uncut keys, looking up a length octet of a recorded name finds that name. -/
theorem find_start (spread : Spread octets sites)
    (right : ∀ site ∈ sites, ReadRight octets site) (mem : other ∈ sites)
    (found : wireName octets other.offset = some wire) (start : target ∈ wire.starts) :
    findLargestNotAbove target (treeOf id sites) none = some (other.offset, other.name) := by
  have entries := tree_of_entries id sites
  have answer := find_largest_not_above target entries.1
  have isEntry := (entries.2 (other.offset, other.name)).mpr ⟨other, mem, rfl⟩
  have bounds := starts_inside found target start
  cases looked : findLargestNotAbove target (treeOf id sites) none with
  | none =>
    rw [looked] at answer
    have above := answer (other.offset, other.name) isEntry
    exact absurd bounds.1 (Nat.not_le_of_lt above)
  | some entry =>
    rw [looked] at answer
    rcases answer with ⟨inTree, notAbove, largest⟩
    rcases (entries.2 entry).mp inTree with ⟨site, siteIn, isSite⟩
    rw [isSite] at notAbove largest ⊢
    have atLeast : other.offset ≤ site.offset := largest _ isEntry bounds.1
    rcases spread_cases spread mem siteIn with same | before | after
    · rw [same]
      rfl
    · rw [stop_of_wire found] at before
      have below : site.offset ≤ target := notAbove
      omega
    · obtain ⟨wire, found⟩ := (right site siteIn).onWire
      have positive := (starts_inside found _ (offset_mem_starts found)).2
      rw [stop_of_wire found] at *
      omega

theorem pointer_small {fuel off : Nat}
    (read : readWire octets fuel off = some wire) (pointer : wire.pointer = some target) :
    target < 2 ^ 64 := by
  induction fuel generalizing off wire with
  | zero => cases read
  | succ _ ih =>
    cases read_wire_cases read with
    | root => cases pointer
    | @pointer high low =>
      have isTarget := some.inj pointer
      have highBound := high.toNat_lt
      have lowBound := low.toNat_lt
      omega
    | label _ _ _ _ readRest => exact ih readRest pointer

theorem resolve_start (spread : Spread octets sites)
    (right : ∀ site ∈ sites, ReadRight octets site) (mem : other ∈ sites)
    (found : wireName octets other.offset = some wire)
    (start : target ∈ wire.starts) (small : target < 2 ^ 64) :
    ∃ pointed, resolve (treeOf id sites) target = some pointed ∧ Reads octets target pointed := by
  refine ⟨labelsFrom other.name.labels (target - other.offset), ?_, ?_⟩
  · rw [resolve, find_start spread right mem found start]
    rfl
  · exact reads_labels_from found (right other mem).reading start small

end

/-! ## Exactness -/

/-- The pointer that ends the name at the site, if any, leads to a length octet of an
earlier name. -/
def Lands (octets : Octets) (earlier : List Site) (site : Site) : Prop :=
  ∀ wire target, wireName octets site.offset = some wire → wire.pointer = some target →
    ∃ other ∈ earlier, ∃ otherWire, wireName octets other.offset = some otherWire ∧
      target ∈ otherWire.starts

def Exact (octets : Octets) (earlier : List Site) (site : Site) : Prop :=
  Reads octets site.offset site.name.labels ∧ Lands octets earlier site

/-- What the parser does not check. `uncut` can only fail behind the first 65536 octets
of a message, where the keys of the tree no longer tell offsets apart. -/
structure Sound (octets : Octets) (earlier : List Site) (site : Site) : Prop where
  legal : ∀ wire, wireName octets site.offset = some wire → Legal octets wire
  lands : Lands octets earlier site
  uncut : ∀ wire target, wireName octets site.offset = some wire →
    wire.pointer = some target →
      resolve (treeOf cutToKey earlier) target = resolve (treeOf id earlier) target

theorem exact_iff_sound (spread : Spread octets past)
    (right : ∀ other ∈ past, ReadRight octets other) (expands : Expands octets past site) :
    Exact octets past site ↔ Sound octets past site := by
  rcases expands with ⟨behind, wire, pointed, found, labels, resolved⟩
  constructor
  · intro exact_
    have parts := wire_of_reads found exact_.1
    refine ⟨?_, exact_.2, ?_⟩
    · intro other foundOther
      cases found.symm.trans foundOther
      exact parts.1
    · intro other target foundOther ptr
      cases found.symm.trans foundOther
      rcases exact_.2 wire target found ptr with ⟨before, mem, wire', found', start⟩
      rcases resolve_start spread right mem found' start (pointer_small found ptr) with
        ⟨reached, resolvedReached, readsReached⟩
      rcases parts.2 with ⟨rest, split, continued⟩
      rw [ptr] at continued resolved
      have sameRest : pointed = rest := append_cancel_left (labels.symm.trans split)
      have sameReading : rest = reached := reads_unique continued readsReached
      rwa [resolvedReached, ← sameReading, ← sameRest]
  · intro sound
    refine ⟨?_, sound.lands⟩
    rw [labels]
    apply reads_of_wire found (sound.legal wire found)
    cases ptr : wire.pointer with
    | none =>
      rwa [ptr] at resolved
    | some target =>
      rw [ptr] at resolved
      rcases sound.lands wire target found ptr with ⟨before, mem, wire', found', start⟩
      rcases resolve_start spread right mem found' start (pointer_small found ptr) with
        ⟨reached, resolvedReached, readsReached⟩
      have same : some pointed = some reached :=
        (resolved.symm.trans (sound.uncut wire target found ptr)).trans resolvedReached
      have upTo := behind before mem
      rw [stop_of_wire found'] at upTo
      have below := (starts_inside found' target start).2
      rw [some.inj same]
      exact ⟨by omega, readsReached⟩

theorem each_exact_iff_sound (past sites : List Site)
    (spread : Spread octets past) (right : ∀ other ∈ past, ReadRight octets other)
    (recorded : Each (Expands octets) past sites) :
    Each (Exact octets) past sites ↔ Each (Sound octets) past sites := by
  induction sites generalizing past with
  | nil => exact Iff.rfl
  | cons site later ih =>
    have here := exact_iff_sound spread right recorded.1
    have further : Exact octets past site → (Each (Exact octets) (past ++ [site]) later ↔
        Each (Sound octets) (past ++ [site]) later) := by
      intro exact_
      apply ih (past ++ [site]) _ _ recorded.2
      · apply pairwise_append.mpr
        refine ⟨spread, pairwise_singleton _ _, fun other mem last isLast => ?_⟩
        rw [mem_singleton.mp isLast]
        exact recorded.1.1 other mem
      · refine forall_mem_append.mpr ⟨right, forall_mem_singleton.mpr ?_⟩
        obtain ⟨wire, _, found, _⟩ := recorded.1.2
        exact ⟨⟨wire, found⟩, exact_.1⟩
    constructor
    · intro exacts
      exact ⟨here.mp exacts.1, (further exacts.1).mp exacts.2⟩
    · intro sounds
      have exact_ := here.mpr sounds.1
      exact ⟨exact_, (further exact_).mpr sounds.2⟩

/-- For every accepted message: its names are the recorded ones, and they all are what
RFC 1035 reads at their offsets, with every pointer leading to an earlier name, exactly
when the three things the parser leaves unchecked hold at every name. -/
theorem decompression_exact_iff {octets : Octets} {message : Message} {ctx : ParseContext}
    (accepted : Message.fromRaw octets = .ok (message, ctx)) :
    message.names = ctx.inserted.map Site.name ∧
      (Each (Exact octets) [] ctx.inserted ↔ Each (Sound octets) [] ctx.inserted) := by
  rcases names_message _ _ _ (initial_at octets) accepted with ⟨kept, added, logged, isNames⟩
  refine ⟨(logged.trans isNames).symm, ?_⟩
  exact each_exact_iff_sound [] ctx.inserted List.Pairwise.nil
    (fun _ mem => absurd mem not_mem_nil) kept.recorded

theorem sound_of_wire (wire : WireName)
    (found : wireName octets site.offset = some wire) (legal : Legal octets wire)
    (checked : ∀ target, wire.pointer = some target →
      (∃ other ∈ past, ∃ otherWire, wireName octets other.offset = some otherWire ∧
        target ∈ otherWire.starts) ∧
      resolve (treeOf cutToKey past) target = resolve (treeOf id past) target) :
    Sound octets past site := by
  refine ⟨?_, ?_, ?_⟩
  · intro other foundOther
    cases found.symm.trans foundOther
    exact legal
  · intro other target foundOther ptr
    cases found.symm.trans foundOther
    exact (checked target ptr).1
  · intro other target foundOther ptr
    cases found.symm.trans foundOther
    exact (checked target ptr).2

def www : DomainName := { labels := [[119, 119, 119]] }

/-- Two questions, the second for what stands at `target`. -/
def twoQuestions (target : UInt8) : Octets :=
  [0, 1, 0, 0, 0, 2, 0, 0, 0, 0, 0, 0] ++ [3, 119, 119, 119, 0, 0, 1, 0, 1] ++
    [0xC0, target, 0, 1, 0, 1]

def questionsFor (second : DomainName) : Message :=
  { header :=
      { id := 1, options := 0, questionCount := 2, answerCount := 0, authorityCount := 0,
        additionalCount := 0 },
    questions := [{ name := www, type := .A, class_ := .IN },
      { name := second, type := .A, class_ := .IN }],
    answers := [], authorities := [], additionalRecords := [] }

def contextAfter (second : DomainName) : ParseContext :=
  { stream := { remaining := [], readBytes := 27 },
    pointers := .node .black .leaf 12 www (.node .red .leaf 21 second .leaf),
    inserted := [{ offset := 12, name := www }, { offset := 21, name := second }] }

theorem compressed_question_exact :
    Message.fromRaw (twoQuestions 12) = .ok (questionsFor www, contextAfter www) ∧
      Each (Exact (twoQuestions 12)) [] (contextAfter www).inserted := by
  have accepted : Message.fromRaw (twoQuestions 12) = .ok (questionsFor www, contextAfter www) := by
    decide +kernel
  refine ⟨accepted, (decompression_exact_iff accepted).2.mpr ⟨?_, ?_, trivial⟩⟩
  · apply sound_of_wire ⟨[12, 16], [[119, 119, 119]], none, 17⟩ (by decide +kernel)
      (by decide +kernel)
    intro target pointer
    cases pointer
  · apply sound_of_wire ⟨[21], [], some 12, 23⟩ (by decide +kernel) (by decide +kernel)
    intro target pointer
    cases pointer
    refine ⟨⟨_, mem_cons_self, ⟨[12, 16], [[119, 119, 119]], none, 17⟩, ?_, ?_⟩, ?_⟩
    · decide +kernel
    · decide
    · decide +kernel

/-- A pointer into the middle of the first label: the walk over the labels steps past
the label's end, so the second name comes out empty and the message is accepted. -/
theorem pointer_into_label_accepted :
    Message.fromRaw (twoQuestions 13) =
        .ok (questionsFor { labels := [] }, contextAfter { labels := [] }) ∧
      ¬ Each (Exact (twoQuestions 13)) [] (contextAfter { labels := [] }).inserted := by
  refine ⟨by decide +kernel, ?_⟩
  rintro ⟨_, ⟨_, lands⟩, _⟩
  have ending : wireName (twoQuestions 13) 21 = some ⟨[21], [], some 13, 23⟩ := by
    decide +kernel
  have first : wireName (twoQuestions 13) 12 =
      some ⟨[12, 16], [[119, 119, 119]], none, 17⟩ := by decide +kernel
  rcases lands _ 13 ending rfl with ⟨other, member, wire, found, start⟩
  rw [mem_singleton.mp member] at found
  rw [← some.inj (first.symm.trans found)] at start
  revert start
  decide

end Ladybone.DNS
