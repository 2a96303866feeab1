import Wzp.Client.Analyzer
import Wzp.Lib.Records

/-!
# Capture files

The analyzer writes the packets it sees to a file as they come, and shows them again from the
file. A capture that was not ended properly stops somewhere within what was written.
-/
namespace Wzp.Client.Analyzer
open Bytes Proto Crypto Records
open QuinnTransport (ReadDatagram)

/-! ## The file -/

structure CaptureHeader where
  room : String
  relay : String
  startTime : String
  version : ℕ
  deriving DecidableEq

/-- What the JSON library gives: the bytes of a header, and the room in bytes that parse. -/
structure Json where
  toVec : CaptureHeader → Buf
  fromSlice : Buf → Except String (Option String)

/-- The header parses as it was written. -/
def Json.Reads (json : Json) (header : CaptureHeader) : Prop :=
  json.fromSlice (json.toVec header) = .ok (some header.room)

/-- `WZP` and the version. -/
def captureMagic : Buf := [0x57, 0x5A, 0x50, 1]

structure CaptureWriter where
  file : Buf
  start : ℕ

namespace CaptureWriter

def new (json : Json) (room relay startTime : String) (start : ℕ) : CaptureWriter :=
  let headerBytes := json.toVec ⟨room, relay, startTime, 1⟩
  ⟨captureMagic ++ (leBytes 4 headerBytes.length ++ headerBytes), start⟩

/-- Instants are in nanoseconds. -/
def elapsedUs (start now : ℕ) : UInt64 := UInt64.ofNat ((now - start) / 1000)

def writePacket (w : CaptureWriter) (pkt : MediaPacket) (now : ℕ) : CaptureWriter :=
  let raw := pkt.toBytes
  { w with file := w.file ++ leBytes 8 (elapsedUs w.start now).toNat ++ leBytes 4 raw.length ++ raw }

end CaptureWriter

inductive CaptureError where
  | unexpectedEof
  | notACapture
  | badHeader (error : String)
  | malformedPacket
  deriving DecidableEq

structure CaptureReader where
  reader : Buf
  room : Option String

namespace CaptureReader

def openCapture (json : Json) (file : Buf) : Except CaptureError CaptureReader :=
  match split 4 file with
  | .error _ => .error .unexpectedEof
  | .ok (magic, reader) =>
      if magic ≠ captureMagic then .error .notACapture
      else
        match split 4 reader with
        | .error _ => .error .unexpectedEof
        | .ok (lenBuf, reader) =>
            match split (ofLeBytes lenBuf) reader with
            | .error _ => .error .unexpectedEof
            | .ok (headerBytes, reader) =>
                match json.fromSlice headerBytes with
                | .error e => .error (.badHeader e)
                | .ok room => .ok ⟨reader, room⟩

/-- The bytes of a record as a packet. -/
def parse (stamp : UInt64) (body : Buf) : Except CaptureError (UInt64 × MediaPacket) :=
  match MediaPacket.fromBytes body with
  | some pkt => .ok (stamp, pkt)
  | none => .error .malformedPacket

/-- `none` at the end of the file, which may be within the time of a packet. -/
def nextPacket (reader : Buf) : Except CaptureError (Option ((UInt64 × MediaPacket) × Buf)) :=
  match next reader with
  | .done => .ok none
  | .cut => .error .unexpectedEof
  | .record stamp body rest =>
      match parse stamp body with
      | .error e => .error e
      | .ok entry => .ok (some (entry, rest))

theorem nextPacket_length {reader rest : Buf} {entry : UInt64 × MediaPacket}
    (h : nextPacket reader = .ok (some (entry, rest))) : rest.length < reader.length := by
  rw [nextPacket] at h
  split at h
  · cases h
  · cases h
  · next hnext =>
      split at h
      · cases h
      · obtain ⟨-, rfl⟩ := Prod.mk.inj (Option.some.inj (Except.ok.inj h))
        exact next_length hnext

end CaptureReader

/-! ## Recording -/

/-- What a run without a terminal keeps. -/
structure Session where
  participants : List ParticipantStats
  totalPackets : ℕ
  videoProbe : Option VideoProbe
  captureWriter : Option CaptureWriter

/-- One turn of the loop: whether the time is up, what comes within its wait, and the time
then. -/
structure Turn where
  expired : Bool
  reads : List ReadDatagram
  now : ℕ

def Session.receive (s : Session) (pkt : MediaPacket) (now : ℕ) : Session where
  participants := observe s.participants pkt
  totalPackets := s.totalPackets + 1
  videoProbe := s.videoProbe.map (·.ingest pkt)
  captureWriter := s.captureWriter.map (·.writePacket pkt now)

/-- The loop ends with its time, with the connection, or with the first error. -/
def runNoTui (s : Session) (queue : List ReadDatagram) : List Turn → Session
  | [] => s
  | turn :: turns =>
      if turn.expired then s
      else
        match QuinnTransport.recvMedia (queue ++ turn.reads) with
        | none => runNoTui s [] turns
        | some (.ok none, _) => s
        | some (.error _, _) => s
        | some (.ok (some pkt), rest) => runNoTui (s.receive pkt turn.now) rest turns

/-! ## Replaying -/

structure TimelineEntry where
  timestampUs : UInt64
  streamId : ℕ
  codec : CodecId
  seq : UInt32
  payloadLen : ℕ
  deriving DecidableEq

structure Replay where
  participants : List ParticipantStats
  totalPackets : ℕ
  decryptSession : Option ChaChaSession
  decryptOk : ℕ
  decryptFail : ℕ
  timeline : List TimelineEntry

namespace Replay

def new (P : Primitives) (key : Option Bytes32) : Replay where
  participants := []
  totalPackets := 0
  decryptSession := key.map (ChaChaSession.new P)
  decryptOk := 0
  decryptFail := 0
  timeline := []

def decrypt (P : Primitives) (r : Replay) (pkt : MediaPacket) : Replay :=
  match r.decryptSession with
  | none => r
  | some session =>
      match session.decrypt P pkt.header.writeTo pkt.payload [] with
      | (.ok (), session, _) =>
          { r with decryptSession := some session, decryptOk := r.decryptOk + 1 }
      | (.error _, session, _) =>
          { r with decryptSession := some session, decryptFail := r.decryptFail + 1 }

def step (P : Primitives) (r : Replay) (entry : UInt64 × MediaPacket) : Replay :=
  let (tsUs, pkt) := entry
  let (participants, idx) := findOrCreateParticipant r.participants pkt.header.seq pkt.header.codecId
  let r := { r with
    participants := participants.modify idx (·.ingest pkt)
    totalPackets := r.totalPackets + 1 }
  let r := r.decrypt P pkt
  { r with timeline := r.timeline ++
      [⟨tsUs, idx, pkt.header.codecId, pkt.header.seq, pkt.payload.length⟩] }

end Replay

/-- Every packet of the file, or the first error. -/
def replayPackets (P : Primitives) (r : Replay) (reader : Buf) : Except CaptureError Replay :=
  match _h : CaptureReader.nextPacket reader with
  | .error e => .error e
  | .ok none => .ok r
  | .ok (some (entry, rest)) => replayPackets P (r.step P entry) rest
termination_by reader.length
decreasing_by exact CaptureReader.nextPacket_length _h

/-- The room, and what the summary shows. An error shows nothing. -/
def runReplay (P : Primitives) (json : Json) (key : Option Bytes32) (file : Buf) :
    Except CaptureError (String × Replay) :=
  match CaptureReader.openCapture json file with
  | .error e => .error e
  | .ok reader =>
      match replayPackets P (Replay.new P key) reader.reader with
      | .error e => .error e
      | .ok replay => .ok (reader.room.getD "?", replay)

/-! ## What a replay shows -/

/-- The counters after some packets, with one entry of the timeline for each. -/
structure Replay.Shows (key : Option Bytes32) (r : Replay) (entries : List (UInt64 × MediaPacket)) :
    Prop where
  participants : r.participants = observeAll (entries.map Prod.snd)
  totalPackets : r.totalPackets = entries.length
  decryptSession : r.decryptSession.isSome = key.isSome
  decrypted : r.decryptOk + r.decryptFail = if key.isSome then entries.length else 0
  timeline : r.timeline.map (fun e => (e.timestampUs, e.codec, e.seq, e.payloadLen)) =
    entries.map fun e => (e.1, e.2.header.codecId, e.2.header.seq, e.2.payload.length)

namespace Replay
variable {P : Primitives} {key : Option Bytes32} {r : Replay} {entries : List (UInt64 × MediaPacket)}

theorem shows_new : (new P key).Shows key [] where
  participants := rfl
  totalPackets := rfl
  decryptSession := Option.isSome_map
  decrypted := by split <;> rfl
  timeline := rfl

/-- Opening a packet changes nothing but the session and its counters. -/
theorem decrypt_cases (r : Replay) (pkt : MediaPacket) :
    ∃ session ok fail,
      r.decrypt P pkt =
        { r with decryptSession := session, decryptOk := ok, decryptFail := fail } ∧
      session.isSome = r.decryptSession.isSome ∧
      ok + fail = r.decryptOk + r.decryptFail + if r.decryptSession.isSome then 1 else 0 := by
  obtain ⟨participants, total, session, ok, fail, timeline⟩ := r
  cases session with
  | none => exact ⟨none, ok, fail, rfl, rfl, rfl⟩
  | some session =>
      simp only [decrypt]
      split
      · next session' _ _ => exact ⟨some session', ok + 1, fail, rfl, rfl, Nat.add_right_comm ok 1 fail⟩
      · next session' _ _ => exact ⟨some session', ok, fail + 1, rfl, rfl, rfl⟩

theorem Shows.step (h : r.Shows key entries) (entry : UInt64 × MediaPacket) :
    (r.step P entry).Shows key (entries ++ [entry]) := by
  obtain ⟨session, ok, fail, hdecrypt, hsome, hsum⟩ := decrypt_cases (P := P)
    { r with
      participants := observe r.participants entry.2
      totalPackets := r.totalPackets + 1 } entry.2
  have hstep : r.step P entry =
      let opened := Replay.decrypt P { r with
        participants := observe r.participants entry.2
        totalPackets := r.totalPackets + 1 } entry.2
      { opened with
        timeline := opened.timeline ++ [⟨entry.1, (findOrCreateParticipant r.participants
          entry.2.header.seq entry.2.header.codecId).2, entry.2.header.codecId,
            entry.2.header.seq, entry.2.payload.length⟩] } := rfl
  rw [hstep, hdecrypt]
  refine ⟨?_, ?_, hsome.trans h.decryptSession, ?_, ?_⟩
  · rw [List.map_append, observeAll, List.foldl_append, ← observeAll, ← h.participants]
    rfl
  · rw [List.length_append, ← h.totalPackets]
    rfl
  · have hold := h.decrypted
    rw [h.decryptSession] at hsum
    change ok + fail = _
    rw [hsum, hold, List.length_append, List.length_singleton]
    cases key.isSome <;> rfl
  · rw [List.map_append, List.map_append, h.timeline]
    rfl

theorem Shows.foldl (h : r.Shows key entries) (more : List (UInt64 × MediaPacket)) :
    (more.foldl (Replay.step P) r).Shows key (entries ++ more) := by
  induction more generalizing r entries with
  | nil => rwa [List.append_nil]
  | cons entry more ih =>
      rw [List.append_cons]
      exact ih (h.step entry)

end Replay

/-- What the reader finds in the file, to its end. -/
def replayed (P : Primitives) (r : Replay)
    (found : List (UInt64 × MediaPacket) × Ending CaptureError) : Except CaptureError Replay :=
  match found.2 with
  | .done => .ok (found.1.foldl (Replay.step P) r)
  | .cut => .error .unexpectedEof
  | .refused e => .error e

theorem replayPackets_eq (P : Primitives) (r : Replay) (reader : Buf) :
    replayPackets P r reader = replayed P r (readAll CaptureReader.parse reader) := by
  induction hn : reader.length using Nat.strongRecOn generalizing reader r with
  | ind n ih =>
      subst hn
      rw [replayPackets]
      cases hnext : next reader with
      | done =>
          have hpacket : CaptureReader.nextPacket reader = .ok none := by
            rw [CaptureReader.nextPacket, hnext]
          rw [readAll_done hnext]
          split <;> simp_all [replayed]
      | cut =>
          have hpacket : CaptureReader.nextPacket reader = .error .unexpectedEof := by
            rw [CaptureReader.nextPacket, hnext]
          rw [readAll_cut hnext]
          split <;> simp_all [replayed]
      | record stamp body rest =>
          have hlt := next_length hnext
          rw [readAll_record hnext]
          cases hparse : CaptureReader.parse stamp body with
          | error e =>
              have hpacket : CaptureReader.nextPacket reader = .error e := by
                rw [CaptureReader.nextPacket, hnext]
                simp only [hparse]
              split <;> simp_all [replayed]
          | ok entry =>
              have hpacket : CaptureReader.nextPacket reader = .ok (some (entry, rest)) := by
                rw [CaptureReader.nextPacket, hnext]
                simp only [hparse]
              split
              · simp_all
              · simp_all
              · next hsome =>
                  rw [hpacket] at hsome
                  obtain ⟨rfl, rfl⟩ := Prod.mk.inj (Option.some.inj (Except.ok.inj hsome))
                  exact ih _ hlt _ _ rfl

/-! ## What is recorded -/

/-- The packets that the loop takes, with their times. -/
def receivedBy (queue : List ReadDatagram) : List Turn → List (MediaPacket × ℕ)
  | [] => []
  | turn :: turns =>
      if turn.expired then []
      else
        match QuinnTransport.recvMedia (queue ++ turn.reads) with
        | none => receivedBy [] turns
        | some (.ok none, _) => []
        | some (.error _, _) => []
        | some (.ok (some pkt), rest) => (pkt, turn.now) :: receivedBy rest turns

theorem runNoTui_eq (s : Session) (queue : List ReadDatagram) (turns : List Turn) :
    runNoTui s queue turns = (receivedBy queue turns).foldl (fun s x => s.receive x.1 x.2) s := by
  induction turns generalizing s queue with
  | nil => rfl
  | cons turn turns ih =>
      rw [runNoTui, receivedBy]
      by_cases hexpired : turn.expired = true
      · rw [if_pos hexpired, if_pos hexpired]
        rfl
      · rw [if_neg hexpired, if_neg hexpired]
        split
        · exact ih s []
        · rfl
        · rfl
        · exact ih _ _

/-- A packet that is received is the parse of a datagram. -/
theorem recvMedia_packet {reads rest : List ReadDatagram} {pkt : MediaPacket}
    (h : QuinnTransport.recvMedia reads = some (.ok (some pkt), rest)) :
    (∃ bytes, .data bytes ∈ reads ∧ MediaPacket.fromBytes bytes = some pkt) ∧ rest ⊆ reads := by
  induction reads with
  | nil => exact nomatch h
  | cons read reads ih =>
      cases read with
      | applicationClosed | locallyClosed | failed e =>
          rw [QuinnTransport.recvMedia] at h
          cases h
      | data bytes =>
          rw [QuinnTransport.recvMedia] at h
          split at h
          · next hparse =>
              obtain ⟨hpkt, rfl⟩ := Prod.mk.inj (Option.some.inj h)
              obtain rfl := Option.some.inj (Except.ok.inj hpkt)
              exact ⟨⟨bytes, List.mem_cons_self, hparse⟩, List.subset_cons_self _ _⟩
          · obtain ⟨⟨bytes', hmem, hparse⟩, hsub⟩ := ih h
            exact ⟨⟨bytes', List.mem_cons_of_mem _ hmem, hparse⟩,
              List.Subset.trans hsub (List.subset_cons_self _ _)⟩

theorem receivedBy_datagram {queue : List ReadDatagram} {turns : List Turn} {x : MediaPacket × ℕ}
    (h : x ∈ receivedBy queue turns) :
    ∃ bytes, .data bytes ∈ queue ++ turns.flatMap (·.reads) ∧
      MediaPacket.fromBytes bytes = some x.1 := by
  induction turns generalizing queue with
  | nil => cases h
  | cons turn turns ih =>
      rw [receivedBy] at h
      rw [List.flatMap_cons, ← List.append_assoc]
      split at h
      · cases h
      · split at h
        · obtain ⟨bytes, hmem, hparse⟩ := ih h
          exact ⟨bytes, List.mem_append_right _ hmem, hparse⟩
        · cases h
        · cases h
        · next hread =>
            obtain ⟨⟨bytes, hmem, hparse⟩, hsub⟩ := recvMedia_packet hread
            rcases List.mem_cons.mp h with rfl | h
            · exact ⟨bytes, List.mem_append_left _ hmem, hparse⟩
            · obtain ⟨bytes', hmem', hparse'⟩ := ih h
              rcases List.mem_append.mp hmem' with hrest | hmore
              · exact ⟨bytes', List.mem_append_left _ (hsub hrest), hparse'⟩
              · exact ⟨bytes', List.mem_append_right _ hmore, hparse'⟩

section recorded
variable (received : List (MediaPacket × ℕ))

theorem receive_participants (s : Session) :
    let after := received.foldl (fun s x => s.receive x.1 x.2) s
    after.participants = (received.map Prod.fst).foldl observe s.participants ∧
      after.totalPackets = s.totalPackets + received.length := by
  induction received generalizing s with
  | nil => exact ⟨rfl, rfl⟩
  | cons x received ih =>
      obtain ⟨hparticipants, htotal⟩ := ih (s.receive x.1 x.2)
      refine ⟨hparticipants, htotal.trans ?_⟩
      change s.totalPackets + 1 + received.length = s.totalPackets + (received.length + 1)
      omega

theorem receive_captureWriter {s : Session} {w : CaptureWriter} (h : s.captureWriter = some w) :
    (received.foldl (fun s x => s.receive x.1 x.2) s).captureWriter =
      some (received.foldl (fun w x => w.writePacket x.1 x.2) w) := by
  induction received generalizing s w with
  | nil => exact h
  | cons x received ih =>
      refine ih ?_
      change s.captureWriter.map _ = _
      rw [h]
      rfl

variable {received}

/-- The file is the header and one record for each packet. -/
theorem writePackets_records (w : CaptureWriter)
    (hsmall : ∀ x ∈ received, x.1.toBytes.length < 2 ^ 32) :
    ∃ rs : List Record,
      (received.foldl (fun w x => w.writePacket x.1 x.2) w).file = w.file ++ encodeAll rs ∧
      List.Forall₂ (fun (r : Record) (x : MediaPacket × ℕ) =>
        r.stamp = CaptureWriter.elapsedUs w.start x.2 ∧ r.body = x.1.toBytes) rs received := by
  induction received generalizing w with
  | nil => exact ⟨[], (List.append_nil _).symm, List.Forall₂.nil⟩
  | cons x received ih =>
      obtain ⟨rs, hfile, hrs⟩ := ih (w.writePacket x.1 x.2)
        fun y hy => hsmall y (List.mem_cons_of_mem x hy)
      refine ⟨⟨CaptureWriter.elapsedUs w.start x.2, x.1.toBytes, hsmall x List.mem_cons_self⟩ :: rs,
        ?_, List.Forall₂.cons ⟨rfl, rfl⟩ hrs⟩
      refine hfile.trans ?_
      change w.file ++ leBytes 8 _ ++ leBytes 4 _ ++ _ ++ encodeAll rs =
        w.file ++ (leBytes 8 _ ++ (leBytes 4 _ ++ _) ++ encodeAll rs)
      simp only [List.append_assoc]

end recorded

/-! ## Opening -/

theorem captureMagic_length : captureMagic.length = 4 := rfl

/-- The part of a capture in front of its packets. -/
def prologue (json : Json) (header : CaptureHeader) : Buf :=
  captureMagic ++ (leBytes 4 (json.toVec header).length ++ json.toVec header)

variable {json : Json} {header : CaptureHeader}

theorem prologue_length : (prologue json header).length = 8 + (json.toVec header).length := by
  rw [prologue, List.length_append, List.length_append, captureMagic_length, leBytes_length]
  omega

theorem openCapture_prologue (hjson : json.Reads header)
    (hsize : (json.toVec header).length < 2 ^ 32) (rest : Buf) :
    CaptureReader.openCapture json (prologue json header ++ rest) =
      .ok ⟨rest, some header.room⟩ := by
  have hlen : ofLeBytes (leBytes 4 (json.toVec header).length) = (json.toVec header).length := by
    rw [ofLeBytes_leBytes]
    exact Nat.mod_eq_of_lt hsize
  simp only [CaptureReader.openCapture, prologue, List.append_assoc,
    split_left captureMagic_length, ne_eq, not_true_eq_false, if_false,
    split_left (leBytes_length _ _), hlen, split_append]
  rw [hjson]

/-- A capture that ends within its header does not open. -/
theorem openCapture_short (hsize : (json.toVec header).length < 2 ^ 32) {n : ℕ}
    (hn : n < (prologue json header).length) :
    CaptureReader.openCapture json ((prologue json header).take n) = .error .unexpectedEof := by
  have hshort {k m : ℕ} {b : Buf} (hm : m < k) : split k (b.take m) = .error .outOfRange :=
    split_short ((List.length_take_le _ _).trans_lt hm)
  rw [prologue_length] at hn
  by_cases hmagic : n < 4
  · rw [CaptureReader.openCapture, hshort hmagic]
  · have htake : (prologue json header).take n = captureMagic ++
        (leBytes 4 (json.toVec header).length ++ json.toVec header).take (n - 4) :=
      take_behind captureMagic_length (Nat.le_of_not_lt hmagic) _
    simp only [CaptureReader.openCapture, htake, split_left captureMagic_length, ne_eq,
      not_true_eq_false, if_false]
    by_cases hlen : n - 4 < 4
    · rw [hshort hlen]
    · have hnat : ofLeBytes (leBytes 4 (json.toVec header).length) = (json.toVec header).length := by
        rw [ofLeBytes_leBytes]
        exact Nat.mod_eq_of_lt hsize
      rw [take_behind (leBytes_length _ _) (Nat.le_of_not_lt hlen)]
      simp only [split_left (leBytes_length _ _), hnat]
      rw [hshort (by omega)]

/-- A file that opens starts with a header. -/
theorem openCapture_sound {file : Buf} {reader : CaptureReader}
    (h : CaptureReader.openCapture json file = .ok reader) :
    ∃ headerBytes : Buf,
      file = captureMagic ++ (leBytes 4 headerBytes.length ++ headerBytes) ++ reader.reader ∧
      json.fromSlice headerBytes = .ok reader.room := by
  rw [CaptureReader.openCapture] at h
  split at h
  · cases h
  next magic b₁ hmagic =>
  split at h
  · cases h
  next hmagic' =>
  split at h
  · cases h
  next lenBuf b₂ hlenBuf =>
  split at h
  · cases h
  next headerBytes b₃ hheader =>
  split at h
  · cases h
  next parsed hparsed =>
  obtain rfl := Except.ok.inj h
  obtain ⟨rfl, -⟩ := split_ok hmagic
  obtain ⟨rfl, hlen⟩ := split_ok hlenBuf
  obtain ⟨rfl, hheader'⟩ := split_ok hheader
  obtain rfl := not_not.mp hmagic'
  have hlenBuf' : leBytes 4 headerBytes.length = lenBuf := by
    rw [hheader', ← hlen, leBytes_ofLeBytes]
  refine ⟨headerBytes, ?_, hparsed⟩
  rw [hlenBuf', List.append_assoc, List.append_assoc]

/-! ## A capture that ends anywhere -/
section anywhere
variable (P : Primitives) (key : Option Bytes32) {rs : List Record}
  {entries : List (UInt64 × MediaPacket)}

/-- The records stand for the packets. -/
def Recorded (rs : List Record) (entries : List (UInt64 × MediaPacket)) : Prop :=
  List.Forall₂ (fun r e => r.stamp = e.1 ∧ r.body = e.2.toBytes ∧ e.2.WellFormed) rs entries

theorem parse_toBytes {e : UInt64 × MediaPacket} (h : e.2.WellFormed) :
    CaptureReader.parse e.1 e.2.toBytes = .ok e := by
  rw [CaptureReader.parse, MediaPacket.fromBytes_toBytes h]

theorem parse_eq {stamp : UInt64} {body : Buf} {e : UInt64 × MediaPacket}
    (h : CaptureReader.parse stamp body = .ok e) :
    stamp = e.1 ∧ body = e.2.toBytes ∧ e.2.WellFormed := by
  rw [CaptureReader.parse] at h
  split at h
  · next hparse =>
      obtain rfl := Except.ok.inj h
      exact ⟨rfl, (MediaPacket.toBytes_of_fromBytes hparse).symm,
        MediaPacket.fromBytes_wellFormed hparse⟩
  · cases h

theorem Recorded.sizes (h : Recorded rs entries) :
    rs.map (·.encode.length) = entries.map fun e => 12 + e.2.toBytes.length := by
  rw [← List.forall₂_eq_eq_eq, List.forall₂_map_left_iff, List.forall₂_map_right_iff]
  refine h.imp fun r e hre => ?_
  rw [Record.encode_length, hre.2.1]

theorem Recorded.parses (h : Recorded rs entries) :
    List.Forall₂ (fun r e => CaptureReader.parse r.stamp r.body = .ok e) rs entries := by
  refine h.imp fun r e hre => ?_
  rw [hre.1, hre.2.1, parse_toBytes hre.2.2]

/-- The packets that are whole are shown, if the end is not within a packet. -/
theorem runReplay_take (hjson : json.Reads header) (hsize : (json.toVec header).length < 2 ^ 32)
    (h : Recorded rs entries) (n : ℕ) :
    let start := (prologue json header).length
    let sizes := entries.map fun e => 12 + e.2.toBytes.length
    let file := (prologue json header ++ encodeAll rs).take n
    if n < start ∨ 8 ≤ left sizes (n - start) then
      runReplay P json key file = .error .unexpectedEof
    else
      ∃ replay, runReplay P json key file = .ok (header.room, replay) ∧
        replay.Shows key (entries.take (whole sizes (n - start))) := by
  intro start sizes file
  by_cases hn : n < start
  · have hfile : file = (prologue json header).take n :=
      List.take_append_of_le_length (Nat.le_of_lt hn)
    rw [if_pos (Or.inl hn), hfile, runReplay, openCapture_short hsize hn]
  · have hfile : file = prologue json header ++ (encodeAll rs).take (n - start) :=
      take_behind rfl (Nat.le_of_not_lt hn) _
    have hread := readAll_take h.parses (n - start)
    rw [h.sizes] at hread
    rw [hfile, runReplay, openCapture_prologue hjson hsize]
    simp only [replayPackets_eq, hread, replayed]
    by_cases hleft : left sizes (n - start) < 8
    · rw [if_neg (by omega), if_pos hleft]
      exact ⟨_, rfl, by simpa using Replay.shows_new.foldl (P := P) (entries.take _)⟩
    · rw [if_pos (by omega), if_neg hleft]

theorem runReplay_whole (hjson : json.Reads header) (hsize : (json.toVec header).length < 2 ^ 32)
    (h : Recorded rs entries) :
    ∃ replay, runReplay P json key (prologue json header ++ encodeAll rs) =
      .ok (header.room, replay) ∧ replay.Shows key entries := by
  have hsum : (encodeAll rs).length = (entries.map fun e => 12 + e.2.toBytes.length).sum := by
    rw [← h.sizes, encodeAll, List.length_flatMap]
  obtain ⟨hwhole, hleft⟩ := whole_of_le (Nat.le_refl
    (entries.map fun e => 12 + e.2.toBytes.length).sum)
  have hall := runReplay_take P key hjson hsize h
    ((prologue json header).length + (entries.map fun e => 12 + e.2.toBytes.length).sum)
  simp only [Nat.add_sub_cancel_left, hleft, hwhole] at hall
  rw [if_neg (by omega), List.take_of_length_le (by rw [List.length_append, hsum]),
    List.take_of_length_le (by rw [List.length_map])] at hall
  exact hall

end anywhere

/-- The bytes of one header and no other. -/
def sampleJson : Json where
  toVec h := ("\x7b\"relay\":\"" ++ h.relay ++ "\",\"room\":\"" ++ h.room ++ "\",\"start_time\":\"" ++
    h.startTime ++ "\",\"version\":1\x7d").toUTF8.toList
  fromSlice b :=
    if b = "\x7b\"relay\":\"r\",\"room\":\"test\",\"start_time\":\"t\",\"version\":1\x7d".toUTF8.toList then
      .ok (some "test")
    else .error "expected value"

theorem sampleJson_reads : sampleJson.Reads ⟨"test", "r", "t", 1⟩ := if_pos (by decide +kernel)

theorem sampleJson_size : (sampleJson.toVec ⟨"test", "r", "t", 1⟩).length < 2 ^ 32 := by
  decide +kernel

/-- Two packets with a malformed datagram between them, and a third that comes too late. -/
def sampleTurns : List Turn :=
  [⟨false, [.data (roomPacket .audio .opus24k 7).toBytes, .data [1, 2, 3]], 5000⟩,
    ⟨false, [], 6000⟩, ⟨false, [.data (roomPacket .audio .opus24k 9).toBytes], 9000⟩,
    ⟨true, [.data (roomPacket .audio .opus24k 10).toBytes], 9500⟩]

theorem sampleTurns_small :
    ∀ turn ∈ sampleTurns, ∀ bytes, .data bytes ∈ turn.reads → bytes.length < 2 ^ 32 := by
  have hall : ∀ turn ∈ sampleTurns, ∀ read ∈ turn.reads,
      (match read with | .data bytes => decide (bytes.length < 2 ^ 32) | _ => true) = true := by
    decide
  exact fun turn hturn bytes hbytes => of_decide_eq_true (hall turn hturn _ hbytes)

/-- Three packets of one size. -/
def sampleEntries : List (UInt64 × MediaPacket) :=
  [(5000, roomPacket .audio .opus24k 7), (9000, roomPacket .audio .opus24k 9),
    (9500, roomPacket .audio .opus24k 10)]

def sampleRecords : List Record :=
  [⟨5000, (roomPacket .audio .opus24k 7).toBytes, by decide⟩,
    ⟨9000, (roomPacket .audio .opus24k 9).toBytes, by decide⟩,
    ⟨9500, (roomPacket .audio .opus24k 10).toBytes, by decide⟩]

theorem sampleRecords_recorded : Recorded sampleRecords sampleEntries :=
  .cons ⟨rfl, rfl, rfl, rfl⟩ (.cons ⟨rfl, rfl, rfl, rfl⟩ (.cons ⟨rfl, rfl, rfl, rfl⟩ .nil))

/-- The capture of the three, cut off five bytes behind the second. -/
def cutCapture : Buf :=
  (prologue sampleJson ⟨"test", "r", "t", 1⟩ ++ encodeAll sampleRecords).take
    ((prologue sampleJson ⟨"test", "r", "t", 1⟩).length +
      2 * (12 + (roomPacket .audio .opus24k 7).toBytes.length) + 5)

end Wzp.Client.Analyzer
