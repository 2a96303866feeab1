import Wzp.Crypto.Delivery
import Mathlib.Data.List.ReduceOption

/-!
# The encrypted media transport

The client wraps its QUIC transport so that every media payload is sealed and
opened by the session of the call. The network between the two ends may drop,
repeat, reorder, change and invent datagrams.
-/
namespace Wzp.Crypto
open Bytes Proto

/-! ## Any number at a window -/
namespace AntiReplayWindow

/-- Only the set of the numbers seen matters. -/
theorem tracks_congr {W : ℕ} {b : UInt32} {w : AntiReplayWindow} {seen seen' : List UInt32}
    (h : Tracks W b w seen) (hmem : ∀ s, s ∈ seen ↔ s ∈ seen') : Tracks W b w seen' := by
  obtain ⟨r, c, href, hW, hc, hnone, hacc⟩ := h
  refine ⟨r, c, href, hW, hc, ?_, ?_⟩
  · rw [hnone]
    simp only [List.eq_nil_iff_forall_not_mem, hmem]
  · intro e
    rw [hacc e]
    simp only [hmem]

/-- A number a window or more behind another one is refused. -/
theorem tracks_late {W : ℕ} {b s t : UInt32} {w : AntiReplayWindow} {seen : List UInt32}
    (h : Tracks W b w seen) (hs : offset b s < 2 ^ 31) (hspan : ∀ t ∈ seen, offset b t < 2 ^ 31)
    (ht : t ∈ seen) (hlate : offset b s + W ≤ offset b t) :
    (w.checkAndUpdate s).1 = .error (.replayDetected s) ∧
      Tracks W b (w.checkAndUpdate s).2 seen := by
  obtain ⟨r, c, href, hW, hc, hnone, hacc⟩ := h
  obtain ⟨h, hh⟩ : ∃ h, r.highest = some h := by
    refine Option.ne_none_iff_exists'.mp fun hn => ?_
    rw [hnone.mp hn] at ht
    exact List.not_mem_nil ht
  obtain ⟨_, _, htop, _⟩ := href.started h hh
  have hread := tracks_nearest hc hacc htop hs hspan
  have hle := href.bounded.le h hh _ ((hacc _).mpr ⟨t, ht, rfl⟩)
  have hcheck : r.check w.windowSize.toNat s = (none, r) := by
    simp only [ReplayReference.check, hh, hread]
    rw [if_neg (by omega), if_neg]
    rintro ⟨hbehind, _⟩
    omega
  obtain ⟨hout, hsize, hnext⟩ := checkAndUpdate_refines href s
  rw [hcheck] at hout hnext
  exact ⟨hout, r, c, hnext, hsize ▸ hW, hc, hnone, hacc⟩

/-- A number is accepted if it is new, or refused without a trace. -/
theorem tracks_any {W : ℕ} {b s : UInt32} {w : AntiReplayWindow} {seen : List UInt32}
    (h : Tracks W b w seen) (hs : offset b s < 2 ^ 31)
    (hspan : ∀ t ∈ seen, offset b t < 2 ^ 31) :
    ((w.checkAndUpdate s).1 = .ok () ∧ s ∉ seen ∧ Tracks W b (w.checkAndUpdate s).2 (seen ++ [s])) ∨
      ((w.checkAndUpdate s).1 = .error (.replayDetected s) ∧
        Tracks W b (w.checkAndUpdate s).2 seen) := by
  by_cases hold : s ∈ seen
  · right
    obtain ⟨herr, hnext⟩ := tracks_again h hspan hold
    refine ⟨herr, tracks_congr hnext fun t => ?_⟩
    rw [List.mem_append, List.mem_singleton]
    constructor
    · rintro (ht | rfl)
      · exact ht
      · exact hold
    · exact Or.inl
  · by_cases hnear : ∀ t ∈ seen, offset b t < offset b s + W
    · left
      obtain ⟨hok, hnext⟩ := tracks_new h hs hspan hnear hold
      exact ⟨hok, hold, hnext⟩
    · right
      simp only [not_forall, not_lt] at hnear
      obtain ⟨t, ht, hlate⟩ := hnear
      exact tracks_late h hs hspan ht hlate

end AntiReplayWindow

/-- The text of an error. -/
def CryptoError.display : CryptoError → String
  | .decryptionFailed => "decryption failed (bad key or tampered data)"
  | .invalidPublicKey => "invalid public key"
  | .rekeyFailed reason => "rekey failed: " ++ reason
  | .replayDetected seq => s!"anti-replay: duplicate or old packet (seq={seq.toNat})"
  | .internal reason => "internal crypto error: " ++ reason

end Wzp.Crypto

namespace Wzp.Client
open Bytes Proto Crypto

inductive TransportError where
  | datagramTooLarge (size max : ℕ)
  | internal (reason : String)
  deriving DecidableEq, Repr

/-! ## The QUIC transport -/
namespace QuinnTransport

/-- What the connection says about sending: the largest datagram, if there is a
limit, and its answer to a datagram. -/
structure Connection where
  maxDatagramSize : Option ℕ
  sendDatagram : Buf → Except String Unit

/-- What reading a datagram from the connection gives. -/
inductive ReadDatagram where
  | data (bytes : Buf)
  | applicationClosed
  | locallyClosed
  | failed (error : String)
  deriving DecidableEq

/-- The result, and the datagram if the connection took it. -/
def sendMedia (connection : Connection) (packet : MediaPacket) :
    Except TransportError Unit × Option Buf :=
  let data := packet.toBytes
  match connection.maxDatagramSize.filter (· < data.length) with
  | some max => (.error (.datagramTooLarge data.length max), none)
  | none =>
      match connection.sendDatagram data with
      | .error e => (.error (.internal ("send datagram error: " ++ e)), none)
      | .ok () => (.ok (), some data)

/-- The next packet, with what is left to read; `none` while the call waits. A
malformed datagram is skipped. -/
def recvMedia : List ReadDatagram →
    Option (Except TransportError (Option MediaPacket) × List ReadDatagram)
  | [] => none
  | .applicationClosed :: rest => some (.ok none, rest)
  | .locallyClosed :: rest => some (.ok none, rest)
  | .failed e :: rest => some (.error (.internal ("recv datagram error: " ++ e)), rest)
  | .data bytes :: rest =>
      match MediaPacket.fromBytes bytes with
      | some packet => some (.ok (some packet), rest)
      | none => recvMedia rest

/-- A call that returns has read something. -/
theorem recvMedia_length {reads rest : List ReadDatagram}
    {result : Except TransportError (Option MediaPacket)}
    (h : recvMedia reads = some (result, rest)) : rest.length < reads.length := by
  induction reads with
  | nil => exact nomatch h
  | cons read reads ih =>
      cases read with
      | applicationClosed | locallyClosed | failed e =>
          obtain ⟨-, rfl⟩ := Prod.mk.inj (Option.some.inj h)
          exact Nat.lt_succ_self _
      | data bytes =>
          rw [recvMedia] at h
          split at h
          · obtain ⟨-, rfl⟩ := Prod.mk.inj (Option.some.inj h)
            exact Nat.lt_succ_self _
          · exact Nat.lt_succ_of_lt (ih h)

/-- What the calls meet one after another: packets and failures, until the
connection is closed. -/
def arrivals : List ReadDatagram → List (Except TransportError MediaPacket)
  | [] => []
  | .applicationClosed :: _ => []
  | .locallyClosed :: _ => []
  | .failed e :: rest => .error (.internal ("recv datagram error: " ++ e)) :: arrivals rest
  | .data bytes :: rest =>
      match MediaPacket.fromBytes bytes with
      | some packet => .ok packet :: arrivals rest
      | none => arrivals rest

/-- The first arrival is the next call's result. -/
theorem arrivals_cases (reads : List ReadDatagram) :
    (recvMedia reads = none ∧ arrivals reads = []) ∨
      (∃ rest, recvMedia reads = some (.ok none, rest) ∧ arrivals reads = []) ∨
      (∃ e rest, recvMedia reads = some (.error e, rest) ∧
        arrivals reads = .error e :: arrivals rest) ∨
      ∃ packet rest, recvMedia reads = some (.ok (some packet), rest) ∧
        arrivals reads = .ok packet :: arrivals rest := by
  induction reads with
  | nil => exact Or.inl ⟨rfl, rfl⟩
  | cons read reads ih =>
      cases read with
      | applicationClosed | locallyClosed => exact Or.inr (Or.inl ⟨reads, rfl, rfl⟩)
      | failed e => exact Or.inr (Or.inr (Or.inl ⟨_, reads, rfl, rfl⟩))
      | data bytes =>
          rw [recvMedia, arrivals]
          cases hparse : MediaPacket.fromBytes bytes with
          | none => exact ih
          | some packet => exact Or.inr (Or.inr (Or.inr ⟨packet, reads, rfl, rfl⟩))

/-- What follows a closed connection does not arrive. -/
theorem arrivals_append (before : List ReadDatagram) :
    (∀ rest, arrivals (before ++ rest) = arrivals before) ∨
      ∀ rest, arrivals (before ++ rest) = arrivals before ++ arrivals rest := by
  induction before with
  | nil => exact Or.inr fun rest => rfl
  | cons read before ih =>
      cases read with
      | applicationClosed | locallyClosed => exact Or.inl fun rest => rfl
      | failed e =>
          rcases ih with hclosed | hopen
          · exact Or.inl fun rest => by simp only [List.cons_append, arrivals, hclosed rest]
          · exact Or.inr fun rest => by simp only [List.cons_append, arrivals, hopen rest]
      | data bytes =>
          simp only [List.cons_append, arrivals]
          cases MediaPacket.fromBytes bytes with
          | none => exact ih
          | some packet =>
              rcases ih with hclosed | hopen
              · exact Or.inl fun rest => by simp only [hclosed rest]
              · exact Or.inr fun rest => by simp only [hopen rest, List.cons_append]

end QuinnTransport

/-! ## The wrapper -/
namespace EncryptingTransport
open QuinnTransport (Connection ReadDatagram)

def sendMedia (P : Primitives) (session : ChaChaSession) (connection : Connection)
    (packet : MediaPacket) : Except TransportError Unit × Option Buf × ChaChaSession :=
  match session.encrypt P packet.header.writeTo packet.payload [] with
  | (.error e, session, _) => (.error (.internal ("encrypt: " ++ e.display)), none, session)
  | (.ok (), session, ciphertext) =>
      let (result, sent) :=
        QuinnTransport.sendMedia connection { packet with payload := ciphertext }
      (result, sent, session)

def recvMedia (P : Primitives) (session : ChaChaSession) (reads : List ReadDatagram) :
    Option (Except TransportError (Option MediaPacket) × ChaChaSession × List ReadDatagram) :=
  match QuinnTransport.recvMedia reads with
  | none => none
  | some (.error e, rest) => some (.error e, session, rest)
  | some (.ok none, rest) => some (.ok none, session, rest)
  | some (.ok (some packet), rest) =>
      match session.decrypt P packet.header.writeTo packet.payload [] with
      | (.error e, session, _) =>
          some (.error (.internal ("decrypt: " ++ e.display)), session, rest)
      | (.ok (), session, plaintext) =>
          some (.ok (some { packet with payload := plaintext }), session, rest)

theorem recvMedia_length {P : Primitives} {session session' : ChaChaSession}
    {reads rest : List ReadDatagram} {result : Except TransportError (Option MediaPacket)}
    (h : recvMedia P session reads = some (result, session', rest)) :
    rest.length < reads.length := by
  simp only [recvMedia] at h
  split at h
  · exact nomatch h
  all_goals
    rename_i hread
    have hlt := QuinnTransport.recvMedia_length hread
  · simp only [Option.some.injEq, Prod.mk.injEq] at h
    exact h.2.2 ▸ hlt
  · simp only [Option.some.injEq, Prod.mk.injEq] at h
    exact h.2.2 ▸ hlt
  · split at h
    · simp only [Option.some.injEq, Prod.mk.injEq] at h
      exact h.2.2 ▸ hlt
    · simp only [Option.some.injEq, Prod.mk.injEq] at h
      exact h.2.2 ▸ hlt

/-- What a caller gets that reads on after an error, until the connection is
closed or nothing is left to read. -/
def recvAll (P : Primitives) (session : ChaChaSession) (reads : List ReadDatagram) :
    List (Except TransportError MediaPacket) :=
  match _h : recvMedia P session reads with
  | none => []
  | some (.ok none, _, _) => []
  | some (.error e, session, rest) => .error e :: recvAll P session rest
  | some (.ok (some packet), session, rest) => .ok packet :: recvAll P session rest
termination_by reads.length
decreasing_by all_goals exact recvMedia_length _h

/-- The packets that the receive task of the client gives to its decoder: it ends
with the connection, or with the first error. -/
def recvTask (P : Primitives) (session : ChaChaSession) (reads : List ReadDatagram) :
    List MediaPacket :=
  match _h : recvMedia P session reads with
  | none => []
  | some (.ok none, _, _) => []
  | some (.error _, _, _) => []
  | some (.ok (some packet), session, rest) => packet :: recvTask P session rest
termination_by reads.length
decreasing_by all_goals exact recvMedia_length _h

/-- What one packet from the wire becomes. -/
def opened (P : Primitives) (session : ChaChaSession) (packet : MediaPacket) :
    Except TransportError MediaPacket × ChaChaSession :=
  match session.decrypt P packet.header.writeTo packet.payload [] with
  | (.error e, session, _) => (.error (.internal ("decrypt: " ++ e.display)), session)
  | (.ok (), session, plaintext) => (.ok { packet with payload := plaintext }, session)

def openAll (P : Primitives) : ChaChaSession → List (Except TransportError MediaPacket) →
    List (Except TransportError MediaPacket)
  | _, [] => []
  | session, .error e :: rest => .error e :: openAll P session rest
  | session, .ok packet :: rest =>
      (opened P session packet).1 :: openAll P (opened P session packet).2 rest

section reading
variable (P : Primitives) (session : ChaChaSession) (reads : List ReadDatagram)

theorem recvMedia_arrivals :
    (recvMedia P session reads = none ∧ QuinnTransport.arrivals reads = []) ∨
      (∃ rest, recvMedia P session reads = some (.ok none, session, rest) ∧
        QuinnTransport.arrivals reads = []) ∨
      (∃ e rest, recvMedia P session reads = some (.error e, session, rest) ∧
        QuinnTransport.arrivals reads = .error e :: QuinnTransport.arrivals rest) ∨
      ∃ packet rest, recvMedia P session reads =
          some ((opened P session packet).1.map some, (opened P session packet).2, rest) ∧
        QuinnTransport.arrivals reads = .ok packet :: QuinnTransport.arrivals rest := by
  rcases QuinnTransport.arrivals_cases reads with ⟨hread, harr⟩ | ⟨rest, hread, harr⟩ |
    ⟨e, rest, hread, harr⟩ | ⟨packet, rest, hread, harr⟩
  · exact Or.inl ⟨by simp only [recvMedia, hread], harr⟩
  · exact Or.inr (Or.inl ⟨rest, by simp only [recvMedia, hread], harr⟩)
  · exact Or.inr (Or.inr (Or.inl ⟨e, rest, by simp only [recvMedia, hread], harr⟩))
  · refine Or.inr (Or.inr (Or.inr ⟨packet, rest, ?_, harr⟩))
    simp only [recvMedia, hread, opened]
    split <;> rfl

theorem recvAll_eq : recvAll P session reads = openAll P session (QuinnTransport.arrivals reads) := by
  induction hn : reads.length using Nat.strong_induction_on generalizing session reads with
  | _ n ih =>
      subst hn
      rcases recvMedia_arrivals P session reads with ⟨hread, harr⟩ | ⟨rest, hread, harr⟩ |
        ⟨e, rest, hread, harr⟩ | ⟨packet, rest, hread, harr⟩
      · rw [recvAll, harr, openAll]
        split <;> simp_all
      · rw [recvAll, harr, openAll]
        split <;> simp_all
      · have hrest := ih _ (recvMedia_length hread) session rest rfl
        rw [recvAll, harr, openAll, ← hrest]
        split <;> simp_all
      · have hrest := ih _ (recvMedia_length hread) (opened P session packet).2 rest rfl
        rw [recvAll, harr, openAll, ← hrest]
        cases hopened : (opened P session packet).1 <;> split <;> simp_all [Except.map]

theorem recvTask_eq : recvTask P session reads =
    (((recvAll P session reads).map Except.toOption).takeWhile Option.isSome).reduceOption := by
  induction hn : reads.length using Nat.strong_induction_on generalizing session reads with
  | _ n ih =>
      subst hn
      rw [recvTask, recvAll]
      split
      · rfl
      · rfl
      · rfl
      · rename_i packet session' rest hread
        simp only [List.map_cons, Except.toOption, List.takeWhile_cons, Option.isSome_some, if_true,
          List.reduceOption_cons_of_some]
        rw [ih _ (recvMedia_length hread) session' rest rfl]

end reading

/-! ## What was sealed, and what of it arrives -/
open ChaChaSession (SealedPacket Received)
open AntiReplayWindow (offset)

/-- A packet sealed under this key. -/
def sealPacket (P : Primitives) (key : Bytes32) (packet : MediaPacket) : Option SealedPacket :=
  match (ChaChaSession.new P key).encrypt P packet.header.writeTo packet.payload [] with
  | (.error _, _, _) => none
  | (.ok (), _, ciphertext) =>
      some ⟨packet.header, packet.header.writeTo, packet.payload, ciphertext⟩

/-- The datagrams that the connection takes from a sequence of calls. -/
def sendAll (P : Primitives) : ChaChaSession → List (Connection × MediaPacket) → List Buf
  | _, [] => []
  | session, (connection, packet) :: rest =>
      let (_, sent, session) := sendMedia P session connection packet
      sent.toList ++ sendAll P session rest

/-- The sealed packet that a packet from the wire carries. -/
def carried (sent : List SealedPacket) (packet : MediaPacket) : Option SealedPacket :=
  sent.find? fun x => x.header = packet.header ∧ x.ciphertext = packet.payload

/-- The sealed packets among the arrivals, with their repetitions. -/
def genuine (sent : List SealedPacket) (arrivals : List (Except TransportError MediaPacket)) :
    List SealedPacket :=
  arrivals.filterMap fun a => a.toOption.bind (carried sent)

/-- For each arrival, the packet it should become: the first copy of a sealed packet
its plaintext, anything else nothing. -/
def firstCopies (sent : List SealedPacket) :
    List SealedPacket → List (Except TransportError MediaPacket) → List (Option MediaPacket)
  | _, [] => []
  | seen, .error _ :: rest => none :: firstCopies sent seen rest
  | seen, .ok packet :: rest =>
      match carried sent packet with
      | none => none :: firstCopies sent seen rest
      | some x =>
          if x ∈ seen then none :: firstCopies sent seen rest
          else some { packet with payload := x.plaintext } :: firstCopies sent (seen ++ [x]) rest

/-- Nothing opens that was not sealed. -/
def Unforged (P : Primitives) (key : Bytes32) (sent : List SealedPacket)
    (arrivals : List (Except TransportError MediaPacket)) : Prop :=
  ∀ packet, .ok packet ∈ arrivals →
    (P.aeadOpen key ((ChaChaSession.new P key).nonceFor packet.header) packet.header.writeTo
      packet.payload).isSome → (carried sent packet).isSome

/-- No first copy comes a window or more behind its stream. -/
def Timely (base : UInt8 × MediaType → UInt32) (deliveries : List SealedPacket) : Prop :=
  ∀ pre x, pre ++ [x] <+: deliveries → x ∉ pre → ∀ y ∈ pre, y.stream = x.stream →
    offset (base x.stream) y.seq <
      offset (base x.stream) x.seq + (defaultWindowSize x.header.mediaType).toNat

/-- The packets of a list have a number of their own on their stream. -/
def Numbered (packets : List MediaPacket) : Prop :=
  packets.Pairwise fun p q => streamOf p.header = streamOf q.header → p.header.seq ≠ q.header.seq

/-- A header parses back as itself, if at all. -/
theorem parseHeader_own {h header : MediaHeader} (hp : parseHeader h.writeTo = some header) :
    header = h := by
  by_cases hv : h.version = MediaHeader.versionByte
  · rw [parseHeader_writeTo hv] at hp
    exact (Option.some.inj hp).symm
  · have hnone := MediaHeader.readFrom_other_version hv []
    rw [List.append_nil] at hnone
    simp only [parseHeader, hnone, Option.map_none, ite_self, reduceCtorEq] at hp

section sealing
variable {P : Primitives} {key : Bytes32} {session : ChaChaSession} {packet : MediaPacket}
  {x : SealedPacket}

/-- Sealing needs only the key. -/
theorem encrypt_same (hkey : session.cipher = key) (hid : session.sessionId = sessionIdOf P key)
    (headerBytes plaintext : Buf) :
    (session.encrypt P headerBytes plaintext []).1 =
        ((ChaChaSession.new P key).encrypt P headerBytes plaintext []).1 ∧
      (session.encrypt P headerBytes plaintext []).2.2 =
        ((ChaChaSession.new P key).encrypt P headerBytes plaintext []).2.2 ∧
      (session.encrypt P headerBytes plaintext []).2.1.cipher = key ∧
      (session.encrypt P headerBytes plaintext []).2.1.sessionId = sessionIdOf P key := by
  have hnonce : ∀ header, session.nonceFor header = (ChaChaSession.new P key).nonceFor header := by
    intro header
    simp only [ChaChaSession.nonceFor, ChaChaSession.new, hid]
  have hcipher : session.cipher = (ChaChaSession.new P key).cipher := hkey
  simp only [ChaChaSession.encrypt, hnonce, hcipher]
  cases parseHeader headerBytes with
  | none => exact ⟨rfl, rfl, hkey, hid⟩
  | some header =>
      dsimp only
      cases P.aeadSeal (ChaChaSession.new P key).cipher
        ((ChaChaSession.new P key).nonceFor header) headerBytes plaintext with
      | none => exact ⟨rfl, rfl, hkey, hid⟩
      | some ciphertext => exact ⟨rfl, rfl, rfl, hid⟩

theorem sealPacket_sealed (h : sealPacket P key packet = some x) :
    (ChaChaSession.new P key).SealedUnder P x ∧ x.header = packet.header ∧
      x.headerBytes = packet.header.writeTo ∧ x.plaintext = packet.payload := by
  rcases ChaChaSession.encrypt_cases P (ChaChaSession.new P key) packet.header.writeTo
    packet.payload [] with ⟨header, ciphertext, hparse, hseal, henc⟩ | ⟨e, henc⟩
  · simp only [sealPacket, henc, List.nil_append, Option.some.injEq] at h
    obtain rfl := parseHeader_own hparse
    subst h
    exact ⟨⟨hparse, hseal⟩, rfl, rfl, rfl⟩
  · simp only [sealPacket, henc, reduceCtorEq] at h

/-- What one call seals and hands to the connection. -/
theorem sendMedia_sent (hkey : session.cipher = key) (hid : session.sessionId = sessionIdOf P key)
    (connection : Connection) (packet : MediaPacket) :
    (∀ data ∈ (sendMedia P session connection packet).2.1, ∃ x, sealPacket P key packet = some x ∧
        data = MediaPacket.toBytes { packet with payload := x.ciphertext }) ∧
      (sendMedia P session connection packet).2.2.cipher = key ∧
      (sendMedia P session connection packet).2.2.sessionId = sessionIdOf P key := by
  obtain ⟨hresult, hout, hkey', hid'⟩ :=
    encrypt_same hkey hid packet.header.writeTo packet.payload
  simp only [sendMedia]
  split
  · rename_i henc
    rw [henc] at hkey' hid'
    exact ⟨fun data hdata => (nomatch hdata), hkey', hid'⟩
  · rename_i after ciphertext henc
    rw [henc] at hresult hout hkey' hid'
    refine ⟨?_, hkey', hid'⟩
    intro data hdata
    refine ⟨⟨packet.header, packet.header.writeTo, packet.payload, ciphertext⟩, ?_, ?_⟩
    · generalize hnew : (ChaChaSession.new P key).encrypt P packet.header.writeTo packet.payload []
        = result at hresult hout
      obtain ⟨outcome, next, out⟩ := result
      simp only at hresult hout
      subst hresult
      subst hout
      simp only [sealPacket, hnew]
    · simp only [QuinnTransport.sendMedia] at hdata
      split at hdata
      · exact nomatch hdata
      · split at hdata
        · exact nomatch hdata
        · exact (Option.mem_some_iff.mp hdata).symm

/-- Every datagram on the wire is a sealed packet with its report. -/
theorem sendAll_sent (hkey : session.cipher = key) (hid : session.sessionId = sessionIdOf P key)
    (calls : List (Connection × MediaPacket)) :
    ∀ data ∈ sendAll P session calls, ∃ call ∈ calls, ∃ x, sealPacket P key call.2 = some x ∧
      data = MediaPacket.toBytes { call.2 with payload := x.ciphertext } := by
  induction calls generalizing session with
  | nil => exact fun data hdata => absurd hdata List.not_mem_nil
  | cons call calls ih =>
      obtain ⟨connection, packet⟩ := call
      obtain ⟨hsent, hkey', hid'⟩ := sendMedia_sent hkey hid connection packet
      intro data hdata
      simp only [sendAll, List.mem_append, Option.mem_toList] at hdata
      rcases hdata with hdata | hdata
      · obtain ⟨x, hx, heq⟩ := hsent data hdata
        exact ⟨(connection, packet), List.mem_cons_self, x, hx, heq⟩
      · obtain ⟨call, hcall, hx⟩ := ih hkey' hid' data hdata
        exact ⟨call, List.mem_cons_of_mem _ hcall, hx⟩

end sealing

/-! ## One arrival -/
section arrival
variable {P : Primitives} {key : Bytes32} {base : UInt8 × MediaType → UInt32}
  {session : ChaChaSession} {packet : MediaPacket} {x : SealedPacket}
  {sent accepted : List SealedPacket}

theorem carried_some (h : carried sent packet = some x) :
    x ∈ sent ∧ x.header = packet.header ∧ x.ciphertext = packet.payload := by
  have hx := List.find?_some h
  exact ⟨List.mem_of_find?_eq_some h, of_decide_eq_true hx⟩

/-- A packet that does not open leaves the session as it is. -/
theorem opened_forged (h : Received P key base session accepted)
    (hclosed : P.aeadOpen key ((ChaChaSession.new P key).nonceFor packet.header)
      packet.header.writeTo packet.payload = none) :
    (opened P session packet).1.toOption = none ∧ (opened P session packet).2 = session := by
  have hnonce : ∀ header, session.nonceFor header = (ChaChaSession.new P key).nonceFor header := by
    intro header
    simp only [ChaChaSession.nonceFor, ChaChaSession.new, h.ident]
  simp only [opened, ChaChaSession.decrypt]
  cases hparse : parseHeader packet.header.writeTo with
  | none => exact ⟨rfl, rfl⟩
  | some header =>
      obtain rfl := parseHeader_own hparse
      simp only [h.cipher, hnonce, hclosed]
      exact ⟨rfl, trivial⟩

theorem span_seqsOn {deliveries : List SealedPacket}
    (hspan : ∀ x ∈ deliveries, offset (base x.stream) x.seq < 2 ^ 31) (stream : UInt8 × MediaType) :
    ∀ t ∈ ChaChaSession.seqsOn stream deliveries, offset (base stream) t < 2 ^ 31 := by
  intro t ht
  obtain ⟨y, hy, rfl, rfl⟩ := ChaChaSession.mem_seqsOn.mp ht
  exact hspan y hy

/-- A sealed packet is accepted if it is new, or refused without a trace. -/
theorem opened_sealed (haead : P.AeadCorrect) (h : Received P key base session accepted)
    (hx : (ChaChaSession.new P key).SealedUnder P x) (hbytes : x.headerBytes = x.header.writeTo)
    (hheader : x.header = packet.header) (hpayload : x.ciphertext = packet.payload)
    (hspan : ∀ y ∈ x :: accepted, offset (base y.stream) y.seq < 2 ^ 31)
    (hsame : ∀ y ∈ accepted, y.stream = x.stream → y.seq = x.seq → y = x) :
    ((opened P session packet).1 = .ok { packet with payload := x.plaintext } ∧ x ∉ accepted ∧
        Received P key base (opened P session packet).2 (accepted ++ [x])) ∨
      ((opened P session packet).1.toOption = none ∧
        Received P key base (opened P session packet).2 accepted ∧
        (x ∈ accepted ∨ ∃ y ∈ accepted, y.stream = x.stream ∧
          offset (base x.stream) x.seq + (defaultWindowSize x.header.mediaType).toNat ≤
            offset (base x.stream) y.seq)) := by
  obtain ⟨hparse, hseal⟩ := hx
  have hopen : P.aeadOpen session.cipher (session.nonceFor x.header) x.headerBytes x.ciphertext =
      some x.plaintext := by
    rw [h.cipher, ChaChaSession.nonceFor, h.ident]
    exact haead _ _ _ _ _ hseal
  have hspanOn := span_seqsOn (fun y hy => hspan y (List.mem_cons_of_mem x hy)) x.stream
  have hhere := hspan x List.mem_cons_self
  have htracks : AntiReplayWindow.Tracks (defaultWindowSize x.header.mediaType).toNat
      (base x.stream) (session.windowOf x.header) (ChaChaSession.seqsOn x.stream accepted) :=
    h.windows x.stream
  have hother : ∀ stream, x.stream ≠ stream →
      AntiReplayWindow.Tracks (defaultWindowSize stream.2).toNat (base stream)
        (((session.received x.header).antiReplay stream).getD
          (defaultWindowForMediaType stream.2)) (ChaChaSession.seqsOn stream accepted) := by
    intro stream hne
    rw [ChaChaSession.received_antiReplay_other session x.header hne.symm]
    exact h.windows stream
  have hdecrypt : session.decrypt P _ _ [] = _ := ChaChaSession.decrypt_authentic hparse hopen
  rw [hbytes, hheader, hpayload] at hdecrypt
  simp only [opened, hdecrypt]
  rw [← hheader]
  rcases AntiReplayWindow.tracks_any htracks hhere hspanOn with
    ⟨hok, hnew, hnext⟩ | ⟨herr, hnext⟩
  · left
    simp only [SealedPacket.seq] at hok
    rw [hok]
    refine ⟨rfl, ?_, h.cipher, h.ident, ?_⟩
    · intro hmem
      exact hnew (ChaChaSession.mem_seqsOn.mpr ⟨x, hmem, rfl, rfl⟩)
    · intro stream
      rw [ChaChaSession.seqsOn_snoc]
      by_cases hs : x.stream = stream
      · subst hs
        rw [if_pos rfl]
        simp only [SealedPacket.stream, ChaChaSession.received_antiReplay_self, Option.getD_some]
        exact hnext
      · rw [if_neg hs, List.append_nil]
        exact hother stream hs
  · right
    simp only [SealedPacket.seq] at herr
    rw [herr]
    refine ⟨rfl, ⟨h.cipher, h.ident, ?_⟩, ?_⟩
    · intro stream
      by_cases hs : x.stream = stream
      · subst hs
        simp only [SealedPacket.stream, ChaChaSession.received_antiReplay_self, Option.getD_some]
        exact hnext
      · exact hother stream hs
    · by_contra hneither
      simp only [not_or, not_exists, not_and, not_le] at hneither
      obtain ⟨hnew, hnear⟩ := hneither
      -- a new number inside the window would have been accepted
      have hok := (AntiReplayWindow.tracks_new htracks hhere hspanOn ?_ ?_).1
      · simp only [SealedPacket.seq] at hok
        cases hok.symm.trans herr
      · intro t ht
        obtain ⟨y, hy, hstream, rfl⟩ := ChaChaSession.mem_seqsOn.mp ht
        exact hnear y hy hstream
      · intro ht
        obtain ⟨y, hy, hstream, hseq⟩ := ChaChaSession.mem_seqsOn.mp ht
        exact hnew (hsame y hy hstream hseq ▸ hy)

/-- What the receiver may rely on: packets sealed under the key, each with a number
of its own on its stream, the numbers of a stream within half their range. -/
structure Sealing (P : Primitives) (key : Bytes32) (base : UInt8 × MediaType → UInt32)
    (sent : List SealedPacket) : Prop where
  sealed : ∀ x ∈ sent, (ChaChaSession.new P key).SealedUnder P x ∧
    x.headerBytes = x.header.writeTo
  numbered : sent.Pairwise fun x y => x.stream = y.stream → x.seq ≠ y.seq
  span : ∀ x ∈ sent, offset (base x.stream) x.seq < 2 ^ 31

/-- What one packet from the wire can do. -/
theorem opened_cases (haead : P.AeadCorrect) (hsent : Sealing P key base sent)
    (h : Received P key base session accepted) (hsub : ∀ x ∈ accepted, x ∈ sent)
    (hreal : (P.aeadOpen key ((ChaChaSession.new P key).nonceFor packet.header)
      packet.header.writeTo packet.payload).isSome → (carried sent packet).isSome) :
    (∃ x, carried sent packet = some x ∧ x ∉ accepted ∧
        (opened P session packet).1 = .ok { packet with payload := x.plaintext } ∧
        Received P key base (opened P session packet).2 (accepted ++ [x])) ∨
      ((opened P session packet).1.toOption = none ∧
        Received P key base (opened P session packet).2 accepted ∧
        ∀ x, carried sent packet = some x → x ∈ accepted ∨ ∃ y ∈ accepted, y.stream = x.stream ∧
          offset (base x.stream) x.seq + (defaultWindowSize x.header.mediaType).toNat ≤
            offset (base x.stream) y.seq) := by
  cases hcarried : carried sent packet with
  | none =>
      right
      rw [hcarried, Option.isSome_none, Bool.false_eq_true, imp_false, Bool.not_eq_true,
        Option.isSome_eq_false_iff, Option.isNone_iff_eq_none] at hreal
      obtain ⟨hnone, hsame⟩ := opened_forged h hreal
      exact ⟨hnone, by rwa [hsame], fun x hx => nomatch hx⟩
  | some x =>
      obtain ⟨hmem, hheader, hpayload⟩ := carried_some hcarried
      obtain ⟨hunder, hbytes⟩ := hsent.sealed x hmem
      have hspan : ∀ y ∈ x :: accepted, offset (base y.stream) y.seq < 2 ^ 31 := by
        intro y hy
        rcases List.mem_cons.mp hy with rfl | hy
        · exact hsent.span y hmem
        · exact hsent.span y (hsub y hy)
      rcases opened_sealed haead h hunder hbytes hheader hpayload hspan
          (fun y hy => ChaChaSession.identified hsent.numbered (hsub y hy) hmem) with
        ⟨hok, hnew, hnext⟩ | ⟨hnone, hnext, hwhy⟩
      · exact Or.inl ⟨x, rfl, hnew, hok, hnext⟩
      · refine Or.inr ⟨hnone, hnext, ?_⟩
        rintro _ ⟨⟩
        exact hwhy

end arrival

/-! ## All arrivals -/
section run
variable {P : Primitives} {key : Bytes32} {base : UInt8 × MediaType → UInt32}
  {session : ChaChaSession} {sent accepted : List SealedPacket}
  {arrived : List (Except TransportError MediaPacket)}

theorem Unforged.tail {a : Except TransportError MediaPacket}
    (h : Unforged P key sent (a :: arrived)) : Unforged P key sent arrived :=
  fun packet hp => h packet (List.mem_cons_of_mem a hp)

/-- In header and payload, the packets that come out are different sealed packets,
in the order of their arrival. -/
theorem openAll_distinct (haead : P.AeadCorrect) (hsent : Sealing P key base sent)
    (h : Received P key base session accepted) (hsub : ∀ x ∈ accepted, x ∈ sent)
    (hreal : Unforged P key sent arrived) :
    ∃ xs : List SealedPacket, xs.Sublist (genuine sent arrived) ∧ xs.Nodup ∧ xs.Disjoint accepted ∧
      ((openAll P session arrived).filterMap Except.toOption).map
        (fun p => (p.header, p.payload)) = xs.map fun x => (x.header, x.plaintext) := by
  induction arrived generalizing session accepted with
  | nil => exact ⟨[], List.Sublist.refl _, List.nodup_nil, List.disjoint_nil_left _, rfl⟩
  | cons a arrived ih =>
      cases a with
      | error e =>
          obtain ⟨xs, hxs, hnodup, hdisj, heq⟩ := ih h hsub hreal.tail
          exact ⟨xs, hxs, hnodup, hdisj, heq⟩
      | ok packet =>
          rcases opened_cases haead hsent h hsub (hreal packet List.mem_cons_self) with
            ⟨x, hx, hnew, hok, hnext⟩ | ⟨hnone, hnext, -⟩
          · have hmem := (carried_some hx).1
            obtain ⟨xs, hxs, hnodup, hdisj, heq⟩ := ih hnext (by
              intro y hy
              rcases List.mem_append.mp hy with hy | hy
              · exact hsub y hy
              · exact List.mem_singleton.mp hy ▸ hmem) hreal.tail
            have hxs' : x ∉ xs := fun hmem' =>
              hdisj hmem' (List.mem_append_right _ (List.mem_singleton_self x))
            refine ⟨x :: xs, ?_, List.nodup_cons.mpr ⟨hxs', hnodup⟩, ?_, ?_⟩
            · simp only [genuine, List.filterMap_cons, Except.toOption, Option.bind_some, hx]
              exact hxs.cons_cons x
            · intro y hy hacc
              rcases List.mem_cons.mp hy with rfl | hy
              · exact hnew hacc
              · exact hdisj hy (List.mem_append_left _ hacc)
            · simp only [openAll, hok, List.filterMap_cons, Except.toOption, List.map_cons, heq,
                (carried_some hx).2.1]
          · obtain ⟨xs, hxs, hnodup, hdisj, heq⟩ := ih hnext hsub hreal.tail
            refine ⟨xs, ?_, hnodup, hdisj, ?_⟩
            · exact hxs.trans ((List.sublist_cons_self _ _).filterMap _)
            · simp only [openAll, List.filterMap_cons, hnone, heq]

/-- If no first copy comes too late, each of them comes out. -/
theorem openAll_firstCopies (haead : P.AeadCorrect) (hsent : Sealing P key base sent)
    (h : Received P key base session accepted) (hsub : ∀ x ∈ accepted, x ∈ sent)
    (hreal : Unforged P key sent arrived) {pre : List SealedPacket}
    (hpre : ∀ x, x ∈ accepted ↔ x ∈ pre) (htimely : Timely base (pre ++ genuine sent arrived)) :
    (openAll P session arrived).map Except.toOption = firstCopies sent accepted arrived := by
  induction arrived generalizing session accepted pre with
  | nil => rfl
  | cons a arrived ih =>
      cases a with
      | error e =>
          simp only [openAll, firstCopies, List.map_cons]
          exact congrArg _ (ih h hsub hreal.tail hpre htimely)
      | ok packet =>
          have hgenuine : genuine sent (.ok packet :: arrived) =
              (carried sent packet).toList ++ genuine sent arrived := by
            cases hc : carried sent packet <;>
              simp [genuine, Except.toOption, hc]
          rw [hgenuine, ← List.append_assoc] at htimely
          rcases opened_cases haead hsent h hsub (hreal packet List.mem_cons_self) with
            ⟨x, hx, hnew, hok, hnext⟩ | ⟨hnone, hnext, hwhy⟩
          · have hmem := (carried_some hx).1
            simp only [openAll, firstCopies, hx, if_neg hnew, hok, List.map_cons, Except.toOption]
            refine congrArg _ (ih hnext ?_ hreal.tail ?_ htimely)
            · intro y hy
              rcases List.mem_append.mp hy with hy | hy
              · exact hsub y hy
              · exact List.mem_singleton.mp hy ▸ hmem
            · intro y
              rw [List.mem_append, List.mem_append, hpre y, hx, Option.toList_some]
          · simp only [openAll, firstCopies, List.map_cons, hnone]
            cases hx : carried sent packet with
            | none =>
                rw [hx, Option.toList_none, List.append_nil] at htimely
                exact congrArg _ (ih hnext hsub hreal.tail hpre htimely)
            | some x =>
                have hold : x ∈ accepted := by
                  by_contra hnew
                  rcases hwhy x hx with hacc | ⟨y, hy, hstream, hlate⟩
                  · exact hnew hacc
                  · rw [hx, Option.toList_some] at htimely
                    have hnear := htimely pre x (List.prefix_append _ _)
                      (fun hmem => hnew ((hpre x).mpr hmem)) y ((hpre y).mp hy) hstream
                    omega
                simp only [if_pos hold]
                refine congrArg _ (ih hnext hsub hreal.tail ?_ htimely)
                intro y
                rw [List.mem_append, hx, Option.toList_some, List.mem_singleton, hpre y]
                constructor
                · exact Or.inl
                · rintro (hy | rfl)
                  · exact hy
                  · exact (hpre y).mp hold

/-- An arrival that is no first copy ends a sequence of successes. -/
theorem openAll_stops (haead : P.AeadCorrect) (hsent : Sealing P key base sent)
    (h : Received P key base session accepted) (hsub : ∀ x ∈ accepted, x ∈ sent)
    {packet : MediaPacket} (later : List (Except TransportError MediaPacket))
    (hreal : Unforged P key sent (arrived ++ [.ok packet]))
    (hold : ∀ x, carried sent packet = some x → x ∈ accepted ∨ x ∈ genuine sent arrived) :
    ((openAll P session (arrived ++ .ok packet :: later)).map Except.toOption).takeWhile
        Option.isSome =
      ((openAll P session arrived).map Except.toOption).takeWhile Option.isSome := by
  induction arrived generalizing session accepted with
  | nil =>
      rcases opened_cases haead hsent h hsub (hreal packet List.mem_cons_self) with
        ⟨x, hx, hnew, -⟩ | ⟨hnone, -⟩
      · exact absurd ((hold x hx).resolve_right List.not_mem_nil) hnew
      · simp only [List.nil_append, openAll, List.map_cons, hnone, List.map_nil,
          List.takeWhile_nil, List.takeWhile_cons, Option.isSome_none, Bool.false_eq_true, if_false]
  | cons a arrived ih =>
      cases a with
      | error e =>
          simp only [List.cons_append, openAll, List.map_cons, Except.toOption,
            List.takeWhile_cons, Option.isSome_none, Bool.false_eq_true, if_false]
      | ok first =>
          rcases opened_cases haead hsent h hsub (hreal first List.mem_cons_self) with
            ⟨x, hx, hnew, hok, hnext⟩ | ⟨hnone, -⟩
          · have hmem := (carried_some hx).1
            have hrest := ih hnext (by
              intro y hy
              rcases List.mem_append.mp hy with hy | hy
              · exact hsub y hy
              · exact List.mem_singleton.mp hy ▸ hmem) hreal.tail (by
              intro y hy
              rcases hold y hy with hacc | hgen
              · exact Or.inl (List.mem_append_left _ hacc)
              · simp only [genuine, List.filterMap_cons, Except.toOption, Option.bind_some, hx,
                  List.mem_cons] at hgen
                rcases hgen with rfl | hgen
                · exact Or.inl (List.mem_append_right _ (List.mem_singleton_self y))
                · exact Or.inr hgen)
            simp only [List.cons_append, openAll, hok, List.map_cons, Except.toOption,
              List.takeWhile_cons, Option.isSome_some, if_true]
            exact congrArg _ hrest
          · simp only [List.cons_append, openAll, List.map_cons, hnone, List.takeWhile_cons,
              Option.isSome_none, Bool.false_eq_true, if_false]

end run

/-! ## From the sender's calls to the receiver's results -/
section channel
variable {P : Primitives} {key : Bytes32} {base : UInt8 × MediaType → UInt32}

def sealedOf (P : Primitives) (key : Bytes32) (calls : List (Connection × MediaPacket)) :
    List SealedPacket := calls.filterMap fun call => sealPacket P key call.2

/-- The numbers of a stream lie within half their range. -/
def Spanned (base : UInt8 × MediaType → UInt32) (packets : List MediaPacket) : Prop :=
  ∀ p ∈ packets, offset (base (streamOf p.header)) p.header.seq < 2 ^ 31

theorem mem_sealedOf {calls : List (Connection × MediaPacket)} {x : SealedPacket} :
    x ∈ sealedOf P key calls ↔ ∃ call ∈ calls, sealPacket P key call.2 = some x := by
  rw [sealedOf, List.mem_filterMap]

theorem sealing_sealedOf {calls : List (Connection × MediaPacket)}
    (hnum : Numbered (calls.map Prod.snd)) (hspan : Spanned base (calls.map Prod.snd)) :
    Sealing P key base (sealedOf P key calls) := by
  refine ⟨?_, ?_, ?_⟩
  · intro x hx
    obtain ⟨call, -, hseal⟩ := mem_sealedOf.mp hx
    obtain ⟨hunder, hheader, hbytes, -⟩ := sealPacket_sealed hseal
    exact ⟨hunder, by rw [hbytes, hheader]⟩
  · refine List.Pairwise.filterMap _ ?_ (List.pairwise_map.mp hnum)
    intro p q hpq x hx y hy hstream
    have hp := (sealPacket_sealed hx).2.1
    have hq := (sealPacket_sealed hy).2.1
    simp only [SealedPacket.stream, SealedPacket.seq, hp, hq] at hstream ⊢
    exact hpq hstream
  · intro x hx
    obtain ⟨call, hcall, hseal⟩ := mem_sealedOf.mp hx
    rw [SealedPacket.stream, SealedPacket.seq, (sealPacket_sealed hseal).2.1]
    exact hspan call.2 (List.mem_map_of_mem hcall)

/-- A datagram as it was sent carries the packet that was given to the call. -/
theorem wire_carried {calls : List (Connection × MediaPacket)}
    (hnum : Numbered (calls.map Prod.snd)) (hspan : Spanned base (calls.map Prod.snd))
    (hwf : ∀ call ∈ calls, call.2.WellFormed) :
    ∀ data ∈ sendAll P (ChaChaSession.new P key) calls, ∃ call ∈ calls, ∃ packet x,
      MediaPacket.fromBytes data = some packet ∧
        carried (sealedOf P key calls) packet = some x ∧
        { packet with payload := x.plaintext } = call.2 := by
  intro data hdata
  obtain ⟨call, hcall, x, hseal, rfl⟩ := sendAll_sent rfl rfl calls data hdata
  obtain ⟨-, hheader, -, hplain⟩ := sealPacket_sealed hseal
  have hmem : x ∈ sealedOf P key calls := mem_sealedOf.mpr ⟨call, hcall, hseal⟩
  refine ⟨call, hcall, { call.2 with payload := x.ciphertext }, x,
    MediaPacket.fromBytes_toBytes ⟨(hwf call hcall).version, (hwf call hcall).quality⟩, ?_, ?_⟩
  · cases hc : carried (sealedOf P key calls) { call.2 with payload := x.ciphertext } with
    | none =>
        have hnone := List.find?_eq_none.mp hc x hmem
        simp only [hheader, and_self, decide_true, not_true_eq_false] at hnone
    | some y =>
        obtain ⟨hy, hyh, -⟩ := carried_some hc
        have hsame : y.header = x.header := hyh.trans hheader.symm
        have hsealing : Sealing P key base (sealedOf P key calls) := sealing_sealedOf hnum hspan
        rw [ChaChaSession.identified hsealing.numbered hy hmem (by simp only [SealedPacket.stream, hsame])
          (by simp only [SealedPacket.seq, hsame])]
  · simp only [hplain]

end channel

/-! ## Two packets -/
namespace Sample
open Primitives (zeroKey)

def connection : Connection := ⟨some 1200, fun _ => .ok ()⟩

def header (seq : UInt32) : MediaHeader := { ChaChaSession.sampleHeader with seq }

def calls : List (Connection × MediaPacket) :=
  [(connection, ⟨header 0, [7], none⟩), (connection, ⟨header 1, [8], none⟩)]

/-- The second packet, the first one twice, and something that is no packet. -/
def reads : List ReadDatagram :=
  ((sendAll .tagged (ChaChaSession.new .tagged zeroKey) calls).reverse.map .data) ++
    [.data [1, 2, 3]] ++
    ((sendAll .tagged (ChaChaSession.new .tagged zeroKey) calls).take 1).map .data

theorem numbered : Numbered (calls.map Prod.snd) := by
  simp only [Numbered, calls, List.map_cons, List.map_nil, List.pairwise_cons]
  decide

theorem spanned : Spanned (fun _ => 0) (calls.map Prod.snd) := by
  have hsmall : ∀ p ∈ calls.map Prod.snd, offset 0 p.header.seq < 2 := by decide
  intro p hp
  exact (hsmall p hp).trans (by decide)

theorem unforged : Unforged .tagged zeroKey (sealedOf .tagged zeroKey calls)
    (QuinnTransport.arrivals reads) := by
  have hall : ∀ a ∈ QuinnTransport.arrivals reads,
      ((a.toOption).bind (carried (sealedOf .tagged zeroKey calls))).isSome := by decide
  intro packet hpacket _
  exact hall _ hpacket

theorem timely : Timely (fun _ => 0)
    (genuine (sealedOf .tagged zeroKey calls) (QuinnTransport.arrivals reads)) := by
  have hsmall : ∀ x ∈ genuine (sealedOf .tagged zeroKey calls) (QuinnTransport.arrivals reads),
      offset 0 x.seq < 2 := by decide
  intro pre x hpre _ y hy _
  have hlt := hsmall y (hpre.subset (List.mem_append_left _ hy))
  have hle : ∀ mediaType, 2 ≤ (defaultWindowSize mediaType).toNat := by
    intro mediaType
    cases mediaType <;> decide
  exact hlt.trans_le ((hle _).trans (Nat.le_add_left _ _))

theorem wellFormed : ∀ call ∈ calls, call.2.WellFormed := by
  intro call hcall
  simp only [calls, List.mem_cons, List.not_mem_nil, or_false] at hcall
  rcases hcall with rfl | rfl
  · exact ⟨rfl, rfl⟩
  · exact ⟨rfl, rfl⟩

/-- The second packet as it is on the wire. -/
def second : Buf :=
  MediaPacket.toBytes ⟨header 1, 8 :: Primitives.tagBytes zeroKey
    ((ChaChaSession.new .tagged zeroKey).nonceFor (header 1)), none⟩

end Sample

section results
variable {P : Primitives} {key : Bytes32} {base : UInt8 × MediaType → UInt32}

/-- After a datagram that carries no sealed packet, or one that came before, the
receive task of the client takes nothing any more. -/
theorem recvTask_deaf (haead : P.AeadCorrect) (calls : List (Connection × MediaPacket))
    (hnum : Numbered (calls.map Prod.snd)) (hspan : Spanned base (calls.map Prod.snd))
    (before later : List ReadDatagram) (data : Buf) (packet : MediaPacket)
    (hparse : MediaPacket.fromBytes data = some packet)
    (hreal : Unforged P key (sealedOf P key calls)
      (QuinnTransport.arrivals (before ++ [.data data])))
    (hold : ∀ x, carried (sealedOf P key calls) packet = some x →
      x ∈ genuine (sealedOf P key calls) (QuinnTransport.arrivals before)) :
    recvTask P (ChaChaSession.new P key) (before ++ .data data :: later) =
      recvTask P (ChaChaSession.new P key) before := by
  rw [recvTask_eq, recvTask_eq, recvAll_eq, recvAll_eq]
  rcases QuinnTransport.arrivals_append before with hclosed | hopen
  · rw [hclosed]
  · have harrive : ∀ rest, QuinnTransport.arrivals (.data data :: rest) =
        .ok packet :: QuinnTransport.arrivals rest := by
      intro rest
      simp only [QuinnTransport.arrivals, hparse]
    rw [hopen, harrive] at hreal
    rw [hopen, harrive, openAll_stops haead (sealing_sealedOf hnum hspan)
      (ChaChaSession.received_new P key base) (fun x hx => absurd hx List.not_mem_nil)
      (QuinnTransport.arrivals later) hreal (fun x hx => Or.inr (hold x hx))]

theorem recvTask_deaf_sample :
    recvTask .tagged (ChaChaSession.new .tagged Primitives.zeroKey)
        ([.data Sample.second] ++ .data Sample.second :: Sample.reads) =
      recvTask .tagged (ChaChaSession.new .tagged Primitives.zeroKey) [.data Sample.second] := by
  have hall : ∀ a ∈ QuinnTransport.arrivals ([.data Sample.second] ++ [.data Sample.second]),
      ((a.toOption).bind (carried (sealedOf .tagged Primitives.zeroKey Sample.calls))).isSome := by
    decide
  refine recvTask_deaf Primitives.tagged_aeadCorrect Sample.calls Sample.numbered Sample.spanned
    [.data Sample.second] Sample.reads Sample.second _ (by decide : _ = some
      ⟨Sample.header 1, 8 :: Primitives.tagBytes Primitives.zeroKey
        ((ChaChaSession.new .tagged Primitives.zeroKey).nonceFor (Sample.header 1)), none⟩)
    (fun packet hpacket _ => hall _ hpacket) ?_
  intro x hx
  have hcarried : genuine (sealedOf .tagged Primitives.zeroKey Sample.calls)
      (QuinnTransport.arrivals [.data Sample.second]) = (some x).toList := by
    rw [← hx]
    decide
  rw [hcarried]
  exact List.mem_singleton_self x

end results

end EncryptingTransport
end Wzp.Client
