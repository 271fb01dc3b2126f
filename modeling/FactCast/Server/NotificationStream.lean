import FactCast.Server.BatchSize
import FactCast.Wire.ProtoConverter

/-! Notifications as bytes.

What the adapter sends is written, and read by the client, which takes no message above
its size: one that is larger ends the call with an error, and what comes after it does
not arrive. So the subscription is told what the messages before it say (`told_cut`). A
timer sends keep-alives among them, which tell nothing. -/
namespace FactCast.Transport
open Protobuf FactStoreProto Rpc

/-- Facts as texts. That a header is one, with an identifier and a namespace, is left to who
makes the fact: the server has it from a fact that was accepted. -/
def textKind : FactKind JsonFact where
  jsonHeader := JsonFact.jsonHeader
  jsonPayload := JsonFact.jsonPayload
  of_ jsonHeader jsonPayload := some ⟨jsonHeader, jsonPayload⟩
  of_texts _ := rfl

/-! ### Notifications -/

def toProtoInfo (info : FactStreamInfo) : MsgInfo := ⟨.ofInt 64 info.startSerial, .ofInt 64 info.horizonSerial⟩

def fromProtoInfo (m : MsgInfo) : FactStreamInfo := ⟨m.serialStart.toInt, m.serialHorizon.toInt⟩

/-- An announcement is read as it was sent: its serials are numbers of 64 bits. -/
theorem fromProto_toProtoInfo {info : FactStreamInfo}
    (hstart : -2 ^ 63 ≤ info.startSerial ∧ info.startSerial < 2 ^ 63)
    (hhorizon : -2 ^ 63 ≤ info.horizonSerial ∧ info.horizonSerial < 2 ^ 63) :
    fromProtoInfo (toProtoInfo info) = info := by
  have hserial : ∀ i : Int, -2 ^ 63 ≤ i ∧ i < 2 ^ 63 → (BitVec.ofInt 64 i).toInt = i := by
    intro i hi
    rw [BitVec.toInt_ofInt]
    exact Int.bmod_eq_of_le (by omega) (by omega)
  rw [fromProtoInfo, toProtoInfo, hserial _ hstart, hserial _ hhorizon]

/-- A notification of a type, without content. -/
def ofType (type : BitVec 32) : MsgNotification := ⟨type, none, none, none, none, none⟩

def createCatchupNotification : MsgNotification := ofType 2
def createCompleteNotification : MsgNotification := ofType 3
def createKeepaliveNotification : MsgNotification := ofType 6
def createInfoNotification (info : FactStreamInfo) : MsgNotification := { ofType 7 with info := some (toProtoInfo info) }
def createNotificationFor (t : JsonFact) : MsgNotification :=
  { ofType 0 with fact := some (toProtoFact textKind t) }
def createNotificationForAll (stagedFacts : List JsonFact) : MsgNotification :=
  { ofType 4 with facts := some (toProtoFacts textKind stagedFacts) }
def toProtoPosition (id : UUID) (serial : Nat) : MsgNotification :=
  { ofType 5 with id := some (toProtoUUID id), serial := some (.ofNat 64 serial) }

/-- What is sent for a notification, with what is announced of the stream. -/
def Notification.toProto (info : FactStreamInfo) : Notification → MsgNotification
  | .info => createInfoNotification info
  | .keepAlive => createKeepaliveNotification
  | .catchup => createCatchupNotification
  | .complete => createCompleteNotification
  | .fact t => createNotificationFor t
  | .facts stagedFacts => createNotificationForAll stagedFacts
  | .ffwd id serial => toProtoPosition id serial
  | .unrecognized => ofType 8

/-- What a client makes of it. Of the types, `Id` has no meaning any more. -/
def Notification.fromProto (m : MsgNotification) : Notification :=
  match m.type.toNat with
  | 0 => .fact ⟨(m.fact.getD FactStoreProto.fact.default).header, (m.fact.getD FactStoreProto.fact.default).payload⟩
  | 2 => .catchup
  | 3 => .complete
  | 4 => .facts ((m.facts.getD FactStoreProto.facts.default).map fun f => ⟨f.header, f.payload⟩)
  | 5 => .ffwd (fromProtoUUID (m.id.getD FactStoreProto.uuid.default)) (m.serial.getD FactStoreProto.serial.default).toNat
  | 6 => .keepAlive
  | 7 => .info
  | _ => .unrecognized

/-- The serial is a number of 64 bits. -/
def Notification.Valid : Notification → Prop
  | .ffwd _ serial => serial < 2 ^ 64
  | _ => True

theorem Notification.fromProto_toProto {info : FactStreamInfo} {n : Notification} (h : n.Valid) :
    Notification.fromProto (n.toProto info) = n := by
  cases n with
  | facts facts =>
    have hfacts : (facts.map (toProtoFact textKind)).map (fun f => (⟨f.header, f.payload⟩ : JsonFact)) = facts := by
      rw [List.map_map]
      exact List.map_id _
    show Notification.facts ((facts.map (toProtoFact textKind)).map fun f => ⟨f.header, f.payload⟩) = _
    rw [hfacts]
  | ffwd id serial =>
    have hserial : (BitVec.ofNat 64 serial).toNat = serial := Nat.mod_eq_of_lt h
    show Notification.ffwd (fromProtoUUID (toProtoUUID id)) (BitVec.ofNat 64 serial).toNat = _
    rw [fromProto_toProtoUUID, hserial]
  | _ => rfl

/-! ### Calls -/

/-- What comes over the wire. -/
inductive Frame where
  | message (bytes : List UInt8)
  | completed
  | failed

def Message.frame (info : FactStreamInfo) : Message → Frame
  | .onNext n => .message (notification.encode (n.toProto info))
  | .onCompleted => .completed
  | .onError => .failed

/-- A message that is too large or malformed ends the call. -/
def ClientStreamObserver.receiveFrames (limit : Int) : ClientStreamObserver → List Frame → ClientStreamObserver
  | c, [] => c
  | c, .message bytes :: rest =>
    if (bytes.length : Int) ≤ limit then
      match notification.decode bytes with
      | some m => receiveFrames limit (c.process (.fromProto m)) rest
      | none => c.notify .error
    else c.notify .error
  | c, .completed :: rest => receiveFrames limit (c.notify .complete) rest
  | c, .failed :: rest => receiveFrames limit (c.notify .error) rest

def Notification.size (info : FactStreamInfo) (n : Notification) : Nat :=
  (notification.encode (n.toProto info)).length

/-- The messages up to one that is too large, and an error for that one. -/
def cut (limit : Int) (info : FactStreamInfo) : List Message → List Message
  | [] => []
  | .onNext n :: rest => if (n.size info : Int) ≤ limit then .onNext n :: cut limit info rest else [.onError]
  | m :: rest => m :: cut limit info rest

def Message.Valid : Message → Prop
  | .onNext n => n.Valid
  | _ => True

/-- What is sent, with keep-alives and announcements among it. -/
def Message.tells : Message → Bool
  | .onNext .keepAlive => false
  | .onNext .info => false
  | _ => true

section Frames
variable {limit : Int} {info : FactStreamInfo} {c : ClientStreamObserver} {messages : List Message}

/-- The client is told what the messages say, as far as they are not too large. -/
theorem receiveFrames_map (hlimit : limit < 2 ^ 31) (h : ∀ m ∈ messages, m.Valid) :
    c.receiveFrames limit (messages.map (Message.frame info)) = c.receiveAll (cut limit info messages) := by
  induction messages generalizing c with
  | nil => rfl
  | cons m rest ih =>
    have hrest := fun c => @ih c fun m hm => h m (List.mem_cons_of_mem _ hm)
    cases m with
    | onNext n =>
      have hvalid : n.Valid := h (.onNext n) List.mem_cons_self
      rw [List.map_cons, Message.frame, ClientStreamObserver.receiveFrames, cut, Notification.size]
      split
      · rename_i hsize
        have hread := @Codec.decode_encode _ notification (n.toProto info) (by omega)
        rw [hread]
        simp only [Notification.fromProto_toProto hvalid]
        exact hrest _
      · rfl
    | onCompleted => exact hrest _
    | onError => exact hrest _

theorem cut_eq_self (h : ∀ n, .onNext n ∈ messages → (n.size info : Int) ≤ limit) :
    cut limit info messages = messages := by
  induction messages with
  | nil => rfl
  | cons m rest ih =>
    have hrest := ih fun n hn => h n (List.mem_cons_of_mem _ hn)
    cases m with
    | onNext n => rw [cut, if_pos (h n List.mem_cons_self), hrest]
    | onCompleted => exact congrArg (Message.onCompleted :: ·) hrest
    | onError => exact congrArg (Message.onError :: ·) hrest

end Frames

/-! ### Sizes -/

section Sizes
variable {info : FactStreamInfo}

theorem encode_fact (f : JsonFact) : FactStoreProto.fact.encode (toProtoFact textKind f) = ProtoConverter.toProto f := by
  have hstring : ∀ (number : Nat) (s : String),
      writeFields ((stringContents s).map fun content => ⟨number, content⟩) = Protobuf.string number s := by
    intro number s
    unfold stringContents Protobuf.string
    by_cases hempty : s = ""
    · rw [hempty]
      rfl
    · have hchars : ¬ s.toList.isEmpty = true := by
        rw [List.isEmpty_iff, String.toList_eq_nil_iff]
        exact hempty
      rw [if_neg hempty, if_neg hchars]
      simp [writeFields, Field.write, Content.write, Content.wireType, lengthDelimited]
  show writeFields (((stringContents f.jsonHeader).map fun content => ⟨1, content⟩) ++
    ((stringContents f.jsonPayload).map fun content => ⟨2, content⟩)) = _
  rw [writeFields_append, hstring, hstring]
  rfl

/-- Bytes as a field. -/
theorem write_bytes (number : Nat) (bytes : List UInt8) :
    writeFields [⟨number, .bytes bytes⟩] = lengthDelimited number bytes := by
  simp [writeFields, Field.write, Content.write, Content.wireType, lengthDelimited]

theorem encode_toProtoFacts (facts : List JsonFact) :
    FactStoreProto.facts.encode (toProtoFacts textKind facts) = ProtoConverter.toProtos facts := by
  induction facts with
  | nil => rfl
  | cons f rest ih =>
    have hfirst := write_bytes 1 (FactStoreProto.fact.encode (toProtoFact textKind f))
    show writeFields ([⟨1, .bytes (FactStoreProto.fact.encode (toProtoFact textKind f))⟩] ++
      FactStoreProto.facts.write (toProtoFacts textKind rest)) = _
    rw [writeFields_append, hfirst, encode_fact, toProtos_cons]
    exact congrArg _ ih

/-- A batch is written as its size is reckoned. -/
theorem encode_facts (facts : List JsonFact) :
    notification.encode (Notification.toProto info (.facts facts)) = ProtoConverter.createNotificationFor facts := by
  show writeFields ([⟨1, .varint 4⟩] ++ [⟨4, .bytes (FactStoreProto.facts.encode (toProtoFacts textKind facts))⟩]) = _
  have htype : writeFields [⟨1, .varint 4⟩] = enum 1 4 := by
    simp [writeFields, Field.write, Content.write, Content.wireType, enum]
  rw [writeFields_append, write_bytes, encode_toProtoFacts, htype]
  rfl

theorem size_facts (facts : List JsonFact) : (Notification.facts facts).size info = serializedSize facts :=
  congrArg List.length (encode_facts facts)

theorem length_field_le {number : Nat} {bytes : List UInt8} (hnumber : number < 15) (h : bytes.length < 128) :
    (writeFields [⟨number, .bytes bytes⟩]).length ≤ bytes.length + 2 := by
  rw [write_bytes, length_lengthDelimited (by omega), length_varint_of_lt h]
  omega

/-- A fast-forward is small. -/
theorem size_ffwd_le (id : UUID) (serial : Nat) : (Notification.ffwd id serial).size info ≤ 100 := by
  have huuid : (uuid.encode (toProtoUUID id)).length ≤ 22 := by
    have hmsb := @length_number_le 1 (by decide) (toProtoUUID id).msb
    have hlsb := @length_number_le 2 (by decide) (toProtoUUID id).lsb
    have hencode : uuid.encode (toProtoUUID id) = writeFields
        (((numberContents 0 BitVec.toNat (toProtoUUID id).msb).map fun content => ⟨1, content⟩) ++
          ((numberContents 0 BitVec.toNat (toProtoUUID id).lsb).map fun content => ⟨2, content⟩)) := rfl
    rw [hencode, writeFields_append, List.length_append]
    omega
  have hserial : (FactStoreProto.serial.encode (BitVec.ofNat 64 serial)).length ≤ 11 :=
    @length_number_le 1 (by decide) _
  have hfirst := @length_field_le 3 _ (by decide) (show (uuid.encode (toProtoUUID id)).length < 128 by omega)
  have hsecond := @length_field_le 6 _ (by decide)
    (show (FactStoreProto.serial.encode (BitVec.ofNat 64 serial)).length < 128 by omega)
  have htype : (writeFields [⟨1, .varint 5⟩]).length = 2 := by decide +kernel
  have hencode : notification.encode (Notification.toProto info (.ffwd id serial)) = writeFields
      ([⟨1, .varint 5⟩] ++ ([⟨3, .bytes (uuid.encode (toProtoUUID id))⟩] ++
        [⟨6, .bytes (FactStoreProto.serial.encode (BitVec.ofNat 64 serial))⟩])) := rfl
  rw [Notification.size, hencode, writeFields_append, writeFields_append, List.length_append, List.length_append]
  omega

/-- So is an announcement. -/
theorem size_info_le : Notification.info.size info ≤ 100 := by
  have hinfo : (FactStoreProto.info.encode (toProtoInfo info)).length ≤ 22 := by
    have hstart := @length_number_le 1 (by decide) (toProtoInfo info).serialStart
    have hhorizon := @length_number_le 2 (by decide) (toProtoInfo info).serialHorizon
    have hencode : FactStoreProto.info.encode (toProtoInfo info) = writeFields
        (((numberContents 0 BitVec.toNat (toProtoInfo info).serialStart).map fun content => ⟨1, content⟩) ++
          ((numberContents 0 BitVec.toNat (toProtoInfo info).serialHorizon).map fun content => ⟨2, content⟩)) := rfl
    rw [hencode, writeFields_append, List.length_append]
    omega
  have hfield := @length_field_le 5 _ (by decide)
    (show (FactStoreProto.info.encode (toProtoInfo info)).length < 128 by omega)
  have htype : (writeFields [⟨1, .varint 7⟩]).length = 2 := by decide +kernel
  have hencode : notification.encode (Notification.toProto info .info) = writeFields
      ([⟨1, .varint 7⟩] ++ [⟨5, .bytes (FactStoreProto.info.encode (toProtoInfo info))⟩]) := rfl
  rw [Notification.size, hencode, writeFields_append, List.length_append]
  omega

/-- A signal has no content. -/
theorem size_ofType {n : Notification} (h : n = .catchup ∨ n = .complete ∨ n = .keepAlive) : n.size info ≤ 100 := by
  have hencode : ∀ k : Nat, (writeFields [⟨1, .varint k⟩]).length ≤ k / 128 + 3 := by
    intro k
    have hvarint := @length_varint_le k
    simp only [writeFields, List.flatMap_cons, List.flatMap_nil, List.append_nil, Field.write, Content.wireType,
      Content.write, List.length_append, @length_tag 1 0 (by decide)]
    omega
  obtain rfl | rfl | rfl := h
  · exact Nat.le_trans (hencode 2) (by decide)
  · exact Nat.le_trans (hencode 3) (by decide)
  · exact Nat.le_trans (hencode 6) (by decide)

end Sizes

/-! ### What is sent -/

/-- The adapter sends batches, catchups and completions, and the fast-forwards it is told of. -/
def Notification.Among (calls : List Call) : Notification → Prop
  | .facts _ => True
  | .catchup => True
  | .complete => True
  | .ffwd id serial => .onFastForward id serial ∈ calls
  | _ => False

def GrpcObserverAdapter.SendsOf (a : GrpcObserverAdapter) (calls : List Call) : Prop :=
  ∀ n, .onNext n ∈ a.sent → n.Among calls

section Sent
variable {info : FactStreamInfo} {requested : Int} {supportsFastForward : Bool} {calls : List Call} {ending : Ending}
  {a : GrpcObserverAdapter}

theorem SendsOf.send {m : Message} (h : a.SendsOf calls) (hm : ∀ n, m = .onNext n → n.Among calls) :
    (a.send m).SendsOf calls := by
  intro n hn
  cases List.mem_append.mp hn with
  | inl hn => exact h n hn
  | inr hn => exact hm n (List.mem_singleton.mp hn).symm

theorem SendsOf.flush (h : a.SendsOf calls) : a.flush.SendsOf calls := by
  unfold GrpcObserverAdapter.flush
  split
  · exact h
  · intro n hn
    refine SendsOf.send (m := .onNext (.facts a.stagedFacts.staged)) h (fun n hn => ?_) n hn
    injection hn with heq
    exact heq ▸ trivial

theorem SendsOf.call {c : Call} (h : a.SendsOf calls) (hc : c ∈ calls) : (a.call c).SendsOf calls := by
  cases c with
  | onNext fact =>
    show (a.onNext fact).SendsOf calls
    unfold GrpcObserverAdapter.onNext
    split
    · exact h
    · exact SendsOf.flush h
  | flush => exact SendsOf.flush h
  | onFastForward id serial =>
    show (a.onFastForward id serial).SendsOf calls
    unfold GrpcObserverAdapter.onFastForward
    split
    · refine SendsOf.send h fun n hn => ?_
      injection hn with heq
      exact heq ▸ hc
    · exact h
  | onCatchup =>
    refine SendsOf.send (SendsOf.flush h) fun n hn => ?_
    injection hn with heq
    exact heq ▸ trivial

theorem SendsOf.run {more : List Call} (h : a.SendsOf calls) (hmore : ∀ c ∈ more, c ∈ calls) :
    (a.run more).SendsOf calls := by
  induction more generalizing a with
  | nil => exact h
  | cons c rest ih =>
    exact ih (SendsOf.call h (hmore c List.mem_cons_self)) fun d hd => hmore d (List.mem_cons_of_mem _ hd)

theorem sendsOf_transported : (transported requested supportsFastForward calls ending).SendsOf calls := by
  have hrun : ((GrpcObserverAdapter.of_ requested supportsFastForward).run calls).SendsOf calls :=
    SendsOf.run (fun n hn => nomatch hn) fun c hc => hc
  cases ending with
  | onComplete =>
    refine SendsOf.send (SendsOf.send (SendsOf.flush hrun) fun n hn => ?_) fun n hn => nomatch hn
    injection hn with heq
    exact heq ▸ trivial
  | onError => exact SendsOf.send (SendsOf.flush hrun) fun n hn => nomatch hn

/-- Serials are numbers of 64 bits. -/
def Call.Valid : Call → Prop
  | .onFastForward _ serial => serial < 2 ^ 64
  | _ => True

theorem valid_transported (h : ∀ c ∈ calls, c.Valid) :
    ∀ m ∈ (transported requested supportsFastForward calls ending).sent, m.Valid := by
  intro m hm
  cases m with
  | onNext n =>
    have hamong := sendsOf_transported n hm
    cases n with
    | ffwd id serial => exact h _ hamong
    | _ => trivial
  | _ => trivial

/-- Besides the batches, all messages are small. -/
theorem size_transported
    (h : ∀ facts, .onNext (.facts facts) ∈ (transported requested supportsFastForward calls ending).sent →
      serializedSize facts ≤ calculateMaxInboundMessageSize requested) :
    ∀ n, .onNext n ∈ (transported requested supportsFastForward calls ending).sent →
      (n.size info : Int) ≤ calculateMaxInboundMessageSize requested := by
  intro n hn
  have hmin := @le_maxInbound requested
  have hamong := sendsOf_transported n hn
  cases n with
  | facts facts =>
    rw [size_facts]
    exact h facts hn
  | ffwd id serial =>
    have hsmall := @size_ffwd_le info id serial
    omega
  | catchup =>
    have hsmall := @size_ofType info .catchup (.inl rfl)
    omega
  | complete =>
    have hsmall := @size_ofType info .complete (.inr (.inl rfl))
    omega
  | _ => exact absurd hamong id

end Sent

/-! ### Over the wire -/

/-- What the subscription is told of frames, by a client that takes messages of a size. -/
def toldOverWire (requested : Int) (frames : List Frame) : List Event :=
  (ClientStreamObserver.receiveFrames (calculateMaxInboundMessageSize requested) {} frames).told

/-- The frames are those of the messages that tell something, with others in between. -/
def Carries (info : FactStreamInfo) (messages : List Message) (frames : List Frame) : Prop :=
  ∃ all : List Message, all.filter Message.tells = messages ∧ frames = all.map (Message.frame info)

section Wire
variable {info : FactStreamInfo} {requested : Int} {supportsFastForward : Bool} {calls : List Call} {ending : Ending}
  {c : ClientStreamObserver} {messages : List Message} {frames : List Frame}

theorem size_quiet {n : Notification} (h : (Message.onNext n).tells = false) :
    (n.size info : Int) ≤ calculateMaxInboundMessageSize requested := by
  have hmin := @le_maxInbound requested
  cases n with
  | keepAlive =>
    have hsmall := @size_ofType info .keepAlive (.inr (.inr rfl))
    omega
  | info =>
    have hsmall := @size_info_le info
    omega
  | _ => exact absurd h.symm Bool.false_ne_true

theorem receive_quiet {m : Message} (h : m.tells = false) : c.receive m = c := by
  cases m with
  | onNext n =>
    cases n with
    | keepAlive => rfl
    | info => rfl
    | _ => exact absurd h.symm Bool.false_ne_true
  | _ => exact absurd h.symm Bool.false_ne_true

/-- Keep-alives and announcements are never too large, and tell nothing. -/
theorem receiveAll_cut_tells :
    c.receiveAll (cut (calculateMaxInboundMessageSize requested) info messages) =
      c.receiveAll (cut (calculateMaxInboundMessageSize requested) info (messages.filter Message.tells)) := by
  induction messages generalizing c with
  | nil => rfl
  | cons m rest ih =>
    cases htells : m.tells with
    | true =>
      rw [List.filter_cons_of_pos htells]
      cases m with
      | onNext n =>
        rw [cut, cut]
        split
        · exact ih
        · rfl
      | onCompleted => exact ih
      | onError => exact ih
    | false =>
      rw [List.filter_cons_of_neg (by simp [htells])]
      cases m with
      | onNext n =>
        rw [cut, if_pos (size_quiet htells)]
        show (c.receive (.onNext n)).receiveAll _ = _
        rw [receive_quiet htells]
        exact ih
      | _ => exact absurd htells.symm Bool.false_ne_true

/-- The subscription is told what the messages up to one that is too large say. -/
theorem told_cut (hvalid : ∀ m ∈ messages, m.Valid) (h : Carries info messages frames) :
    toldOverWire requested frames =
      (ClientStreamObserver.receiveAll {} (cut (calculateMaxInboundMessageSize requested) info messages)).told := by
  obtain ⟨all, rfl, rfl⟩ := h
  have hmax := @maxInbound_le requested
  have hall : ∀ m ∈ all, m.Valid := by
    intro m hm
    cases htells : m.tells with
    | true => exact hvalid m (List.mem_filter.mpr ⟨hm, htells⟩)
    | false =>
      cases m with
      | onNext n => cases n <;> first | exact absurd htells.symm Bool.false_ne_true | trivial
      | _ => trivial
  rw [toldOverWire, receiveFrames_map (by omega) hall, receiveAll_cut_tells]

/-- If the batches fit, nothing of what the messages say is lost. -/
theorem told_transported_over_wire (hvalid : ∀ call ∈ calls, call.Valid)
    (hsize : ∀ facts, .onNext (.facts facts) ∈ (transported requested supportsFastForward calls ending).sent →
      serializedSize facts ≤ calculateMaxInboundMessageSize requested)
    (h : Carries info (transported requested supportsFastForward calls ending).sent frames) :
    toldOverWire requested frames =
      (ClientStreamObserver.receiveAll {} (transported requested supportsFastForward calls ending).sent).told := by
  rw [told_cut (valid_transported hvalid) h, cut_eq_self (size_transported hsize)]

end Wire

/-- Whatever else is sent in between: the subscription is told what the messages up to one
that is too large say. For facts of ASCII texts that fit one by one none is, and then the
calls arrive, all and in order, exactly if they all get through. -/
theorem lossless_over_wire (info : FactStreamInfo) (requested : Int) (supportsFastForward : Bool) (calls : List Call)
    (ending : Ending) (frames : List Frame) (hvalid : ∀ call ∈ calls, call.Valid)
    (h : Carries info (transported requested supportsFastForward calls ending).sent frames) :
    toldOverWire requested frames =
      (ClientStreamObserver.receiveAll {} (cut (calculateMaxInboundMessageSize requested) info
        (transported requested supportsFastForward calls ending).sent)).told ∧
    ((∀ fact ∈ factsOf calls, (Ascii fact.jsonHeader ∧ Ascii fact.jsonPayload) ∧
        serializedSize [fact] ≤ calculateMaxInboundMessageSize requested) →
      (toldOverWire requested frames = given calls ending ↔
      (GrpcObserverAdapter.of_ requested supportsFastForward).takesAll calls = true)) := by
  refine ⟨told_cut (valid_transported hvalid) h, fun hfacts => ?_⟩
  have hwithin : WithinSize requested (factsOf calls) :=
    (withinSize_iff fun fact hfact => (hfacts fact hfact).2).mpr
      (budgetSuffices_of_ascii fun fact hfact => (hfacts fact hfact).1)
  rw [told_transported_over_wire hvalid (hwithin supportsFastForward calls ending rfl) h]
  exact ⟨fun htold => takesAll_of_lossless (lossless_of_told htold), fun htakes => (lossless_of_takesAll htakes).2⟩

/-- A fact and a catchup. -/
def plainCalls : List Call := [.onNext plainFact, .onCatchup]

theorem plainCalls_valid : ∀ call ∈ plainCalls, call.Valid := by
  intro call hcall
  obtain rfl | hcatchup := List.mem_cons.mp hcall
  · exact trivial
  · rw [List.mem_singleton.mp hcatchup]
    exact trivial

def plainMessages : List Message := .onNext .keepAlive :: (transported 0 true plainCalls .onComplete).sent

theorem plainMessages_tell : plainMessages.filter Message.tells = (transported 0 true plainCalls .onComplete).sent := by
  decide +kernel

theorem plainCalls_taken : (GrpcObserverAdapter.of_ 0 true).takesAll plainCalls = true := by decide +kernel

theorem plainCalls_fit : ∀ fact ∈ factsOf plainCalls, (Ascii fact.jsonHeader ∧ Ascii fact.jsonPayload) ∧
    serializedSize [fact] ≤ calculateMaxInboundMessageSize 0 := by decide +kernel

/-- They arrive, behind a keep-alive. -/
theorem lossless_over_wire_plain : toldOverWire 0 (plainMessages.map (Message.frame ⟨0, 7⟩)) =
    [.fact plainFact, .catchup, .complete] := by
  have h := (lossless_over_wire ⟨0, 7⟩ 0 true plainCalls .onComplete (plainMessages.map (Message.frame ⟨0, 7⟩))
    plainCalls_valid ⟨plainMessages, plainMessages_tell, rfl⟩).2 plainCalls_fit
  exact h.mpr plainCalls_taken

end FactCast.Transport
