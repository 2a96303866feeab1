import Mathlib.Logic.Function.Basic
import Wzp.Lib.Runs
import Wzp.Video.Transport

/-!
# The continuity of received video

The receive task watches the packet numbers for gaps, asks for a keyframe at one,
and lets no other frame through until a keyframe has come. It watches the numbers
of all senders of the room together. Times are in milliseconds.
-/
namespace Wzp.Desktop
open Proto Video Runs

def videoPliMinIntervalMs : ℕ := 250

structure VideoContinuity where
  expectedSeq : Option UInt32
  waitForKeyframe : Bool
  lastPliSent : Option ℕ
  gaps : ℕ
  droppedFrames : ℕ
  deriving DecidableEq, Repr

namespace VideoContinuity

def default : VideoContinuity := ⟨none, false, none, 0, 0⟩

def observePacket (c : VideoContinuity) (seq : UInt32) : VideoContinuity × Option UInt32 :=
  match c.expectedSeq with
  | none => ({ c with expectedSeq := some (seq + 1) }, none)
  | some expected =>
      let delta := seq - expected
      -- taken for a packet from before the expected one
      if 10000 ≤ delta then (c, none)
      else if 0 < delta then
        ({ c with expectedSeq := some (seq + 1), gaps := c.gaps + 1, waitForKeyframe := true },
          some delta)
      else ({ c with expectedSeq := some (seq + 1) }, none)

def shouldDecode (c : VideoContinuity) (isKeyframe : Bool) : VideoContinuity × Bool :=
  if isKeyframe then ({ c with waitForKeyframe := false }, true)
  else if c.waitForKeyframe then ({ c with droppedFrames := c.droppedFrames + 1 }, false)
  else (c, true)

def shouldSendPli (c : VideoContinuity) (now : ℕ) : VideoContinuity × Bool :=
  if c.lastPliSent.all fun last => videoPliMinIntervalMs ≤ now - last then
    ({ c with lastPliSent := some now }, true)
  else (c, false)

end VideoContinuity

/-- What the receive task does about the video. -/
inductive VideoAction where
  | seqGap (gap : UInt32)
  | pictureLossIndication (streamId : UInt8)
  | dropUntilKeyframe
  | decode (frame : ReassembledVideoFrame)
  deriving DecidableEq, Repr

structure VideoReceiver where
  continuity : VideoContinuity
  reassembler : VideoReassembler

namespace VideoReceiver

def new : VideoReceiver := ⟨VideoContinuity.default, VideoReassembler.new⟩

/-- A gap is answered, not more often than the interval allows. -/
def observe (c : VideoContinuity) (now : ℕ) (pkt : MediaPacket) :
    VideoContinuity × List VideoAction :=
  match c.observePacket pkt.header.seq with
  | (c, none) => (c, [])
  | (c, some gap) =>
      let (c, pli) := c.shouldSendPli now
      (c, .seqGap gap :: if pli then [.pictureLossIndication pkt.header.streamId] else [])

def complete (s : VideoReceiver) (timestamp : UInt32) (frame : ReassembledVideoFrame) :
    VideoReceiver × VideoAction :=
  let (c, decode) := s.continuity.shouldDecode frame.isKeyframe
  (⟨c, s.reassembler.evictStale timestamp 5000⟩, if decode then .decode frame else .dropUntilKeyframe)

/-- One packet in the receive task. -/
def recvMedia (s : VideoReceiver) (now : ℕ) (pkt : MediaPacket) : VideoReceiver × List VideoAction :=
  if pkt.header.mediaType = .video then
    let (c, actions) := observe s.continuity now pkt
    match s.reassembler.push pkt with
    | (r, none) => (⟨c, r⟩, actions)
    | (r, some frame) =>
        let (s, action) := complete ⟨c, r⟩ pkt.header.timestamp frame
        (s, actions ++ [action])
  else (s, [])

/-- All that is done about packets that arrive one after the other. -/
def actions (s : VideoReceiver) : List (ℕ × MediaPacket) → List VideoAction
  | [] => []
  | (now, pkt) :: rest =>
      let (s, actions) := s.recvMedia now pkt
      actions ++ s.actions rest

end VideoReceiver

/-! ## A room without loss -/

/-- A packet as the relay hands it to the receiver, but for its number. -/
structure VideoArrival (Sender : Type*) where
  sender : Sender
  now : ℕ
  packet : MediaPacket

/-- An interleaving of the video of any senders, each of which counts its own packets on. -/
structure RoomVideo (Sender : Type*) where
  start : Sender → UInt32
  arrivals : List (VideoArrival Sender)

namespace RoomVideo
variable {Sender : Type*} [DecidableEq Sender]

def numbered (seq : UInt32) (pkt : MediaPacket) : MediaPacket :=
  { pkt with header := { pkt.header with mediaType := .video, seq } }

/-- The arrivals with their numbers, from the next number of each sender. -/
def count (next : Sender → UInt32) : List (VideoArrival Sender) → List (ℕ × MediaPacket)
  | [] => []
  | a :: rest =>
      (a.now, numbered (next a.sender) a.packet) ::
        count (Function.update next a.sender (next a.sender + 1)) rest

def packets (room : RoomVideo Sender) : List (ℕ × MediaPacket) := count room.start room.arrivals

def numbers (room : RoomVideo Sender) : List UInt32 := room.packets.map fun p => p.2.header.seq

/-- Every frame goes to the decoder, and nothing else is done. -/
def Undisturbed (room : RoomVideo Sender) : Prop :=
  ∀ action ∈ VideoReceiver.new.actions room.packets, ∃ frame, action = .decode frame

end RoomVideo

/-! ## The number that is waited for -/

/-- The number behind the first one that arrived, moved on by its own arrival alone. -/
def followed (awaited : Option UInt32) (seq : UInt32) : Option UInt32 :=
  match awaited with
  | none => some (seq + 1)
  | some next => if seq = next then some (seq + 1) else some next

/-- The number is less than 10000 ahead of the one that is waited for. -/
def JumpsAhead (awaited : Option UInt32) (seq : UInt32) : Prop :=
  ∃ next ∈ awaited, 0 < seq - next ∧ seq - next < 10000

instance (awaited : Option UInt32) (seq : UInt32) : Decidable (JumpsAhead awaited seq) :=
  match awaited with
  | none => isFalse fun h => by simp [JumpsAhead] at h
  | some next =>
      decidable_of_iff (0 < seq - next ∧ seq - next < 10000) (by simp [JumpsAhead])

namespace VideoContinuity

/-- Nothing has been missed so far. -/
def Steady (c : VideoContinuity) (awaited : Option UInt32) : Prop :=
  c.expectedSeq = awaited ∧ c.waitForKeyframe = false

theorem observePacket_steady {c : VideoContinuity} {awaited : Option UInt32} {seq : UInt32}
    (h : c.Steady awaited) (hjump : ¬ JumpsAhead awaited seq) :
    ∃ c', c.observePacket seq = (c', none) ∧ c'.Steady (followed awaited seq) := by
  obtain ⟨rfl, hwait⟩ := h
  unfold observePacket followed
  cases hexpected : c.expectedSeq with
  | none => exact ⟨_, rfl, rfl, hwait⟩
  | some next =>
      have hnot : ¬ (0 < seq - next ∧ seq - next < 10000) := fun hin =>
        hjump ⟨next, hexpected, hin⟩
      dsimp only
      by_cases heq : seq = next
      · subst heq
        simp only [UInt32.sub_self, if_true]
        exact ⟨_, rfl, rfl, hwait⟩
      · have hlate : 10000 ≤ seq - next := by
          have hne : seq - next ≠ 0 := fun h0 =>
            heq ((UInt32.sub_eq_iff_eq_add.mp h0).trans (UInt32.zero_add next))
          have hpos : 0 < seq - next := UInt32.pos_iff_ne_zero.mpr hne
          exact UInt32.not_lt.mp fun hlt => hnot ⟨hpos, hlt⟩
        rw [if_pos hlate, if_neg heq]
        exact ⟨_, rfl, hexpected, hwait⟩

theorem observePacket_jump {c : VideoContinuity} {seq : UInt32}
    (hjump : JumpsAhead c.expectedSeq seq) : ∃ c' gap, c.observePacket seq = (c', some gap) := by
  obtain ⟨next, hnext, hpos, hlt⟩ := hjump
  unfold observePacket
  rw [hnext]
  dsimp only
  rw [if_neg (UInt32.not_le.mpr hlt), if_pos hpos]
  exact ⟨_, _, rfl⟩

theorem shouldDecode_steady {c : VideoContinuity} {awaited : Option UInt32} (isKeyframe : Bool)
    (h : c.Steady awaited) : ∃ c', c.shouldDecode isKeyframe = (c', true) ∧ c'.Steady awaited := by
  unfold shouldDecode
  split
  · exact ⟨_, rfl, h.1, rfl⟩
  · rw [if_neg (by rw [h.2]; exact Bool.false_ne_true)]
    exact ⟨c, rfl, h⟩

end VideoContinuity

namespace VideoReceiver

theorem recvMedia_steady {s : VideoReceiver} {awaited : Option UInt32} (now : ℕ)
    {pkt : MediaPacket} (hvideo : pkt.header.mediaType = .video)
    (h : s.continuity.Steady awaited) (hjump : ¬ JumpsAhead awaited pkt.header.seq) :
    ∃ s' actions, s.recvMedia now pkt = (s', actions) ∧
      s'.continuity.Steady (followed awaited pkt.header.seq) ∧
      ∀ action ∈ actions, ∃ frame, action = .decode frame := by
  obtain ⟨c, hobserve, hsteady⟩ := VideoContinuity.observePacket_steady h hjump
  have hquiet : observe s.continuity now pkt = (c, []) := by rw [observe, hobserve]
  unfold recvMedia
  rw [if_pos hvideo, hquiet]
  dsimp only
  cases s.reassembler.push pkt with
  | mk r completed =>
      cases completed with
      | none => exact ⟨_, _, rfl, hsteady, fun _ hmem => absurd hmem List.not_mem_nil⟩
      | some frame =>
          obtain ⟨c', hdecode, hsteady'⟩ :=
            VideoContinuity.shouldDecode_steady frame.isKeyframe hsteady
          dsimp only [complete]
          rw [hdecode]
          exact ⟨_, _, rfl, hsteady', fun action hmem => ⟨frame, List.mem_singleton.mp hmem⟩⟩

theorem recvMedia_jump {s : VideoReceiver} (now : ℕ) {pkt : MediaPacket}
    (hvideo : pkt.header.mediaType = .video)
    (hjump : JumpsAhead s.continuity.expectedSeq pkt.header.seq) :
    ∃ gap, .seqGap gap ∈ (s.recvMedia now pkt).2 := by
  obtain ⟨c, gap, hobserve⟩ := VideoContinuity.observePacket_jump hjump
  have hgap : .seqGap gap ∈ (observe s.continuity now pkt).2 := by
    rw [observe, hobserve]
    exact List.mem_cons_self
  refine ⟨gap, ?_⟩
  unfold recvMedia
  rw [if_pos hvideo]
  cases hpush : s.reassembler.push pkt with
  | mk r completed =>
      cases completed with
      | none => exact hgap
      | some frame => exact List.mem_append_left _ hgap

theorem actions_cons (s : VideoReceiver) (now : ℕ) (pkt : MediaPacket)
    (rest : List (ℕ × MediaPacket)) :
    s.actions ((now, pkt) :: rest) = (s.recvMedia now pkt).2 ++ (s.recvMedia now pkt).1.actions rest :=
  rfl

/-- By induction over the packets: as long as no number jumps ahead the receiver waits
for the number that is followed, and the first jump is a gap. -/
theorem actions_decode_iff {s : VideoReceiver} {awaited : Option UInt32}
    (h : s.continuity.Steady awaited) (packets : List (ℕ × MediaPacket))
    (hvideo : ∀ p ∈ packets, p.2.header.mediaType = .video) :
    (∀ action ∈ s.actions packets, ∃ frame, action = .decode frame) ↔
      EachStep followed (fun awaited seq => ¬ JumpsAhead awaited seq) awaited
        (packets.map fun p => p.2.header.seq) := by
  induction packets generalizing s awaited with
  | nil => exact ⟨fun _ => trivial, fun _ _ hmem => absurd hmem List.not_mem_nil⟩
  | cons p rest ih =>
      obtain ⟨now, pkt⟩ := p
      have hpkt := hvideo _ List.mem_cons_self
      have hrest := fun q hq => hvideo q (List.mem_cons_of_mem _ hq)
      rw [actions_cons, List.map_cons, EachStep]
      by_cases hjump : JumpsAhead awaited pkt.header.seq
      · obtain ⟨gap, hgap⟩ := recvMedia_jump now hpkt (h.1 ▸ hjump)
        refine iff_of_false (fun hall => ?_) fun hok => hok.1 hjump
        obtain ⟨frame, hframe⟩ := hall _ (List.mem_append_left _ hgap)
        cases hframe
      · obtain ⟨s', acts, hrecv, hsteady, hacts⟩ := recvMedia_steady now hpkt h hjump
        rw [hrecv, List.forall_mem_append, ih hsteady hrest]
        exact ⟨fun hall => ⟨hjump, hall.2⟩, fun hok => ⟨hacts, hok.2⟩⟩

end VideoReceiver

namespace RoomVideo
variable {Sender : Type*} [DecidableEq Sender]

theorem count_video (next : Sender → UInt32) (arrivals : List (VideoArrival Sender)) :
    ∀ p ∈ count next arrivals, p.2.header.mediaType = .video := by
  induction arrivals generalizing next with
  | nil => exact fun _ hmem => absurd hmem List.not_mem_nil
  | cons a rest ih =>
      rintro p (_ | ⟨_, hmem⟩)
      · rfl
      · exact ih _ p hmem

/-- Video without loss is left alone exactly if none of the numbers jumps ahead of
the one that is waited for. -/
theorem undisturbed_iff (room : RoomVideo Sender) :
    room.Undisturbed ↔
      EachStep followed (fun awaited seq => ¬ JumpsAhead awaited seq) none room.numbers :=
  VideoReceiver.actions_decode_iff ⟨rfl, rfl⟩ room.packets (count_video _ _)

/-- A lone sender is followed to the end. -/
theorem lone_sender_follows (sender : Sender) (next : Sender → UInt32)
    (arrivals : List (VideoArrival Sender)) (hlone : ∀ a ∈ arrivals, a.sender = sender)
    {awaited : Option UInt32} (hawaited : ∀ n ∈ awaited, n = next sender) :
    EachStep followed (fun awaited seq => ¬ JumpsAhead awaited seq) awaited
      ((count next arrivals).map fun p => p.2.header.seq) := by
  induction arrivals generalizing next awaited with
  | nil => trivial
  | cons a rest ih =>
      have ha : a.sender = sender := hlone a List.mem_cons_self
      have hseq : (numbered (next a.sender) a.packet).header.seq = next sender := by
        rw [← ha]
        rfl
      rw [count, List.map_cons]
      dsimp only
      rw [hseq]
      constructor
      · rintro ⟨n, hn, hpos, -⟩
        rw [hawaited n hn, UInt32.sub_self] at hpos
        exact absurd hpos (by decide)
      · apply ih _ fun b hb => hlone b (List.mem_cons_of_mem _ hb)
        intro n hn
        rw [ha, Function.update_self]
        cases awaited with
        | none => exact (Option.some.inj hn).symm
        | some e =>
            rw [followed, if_pos (hawaited e rfl).symm] at hn
            exact (Option.some.inj hn).symm

theorem lone_sender_undisturbed (room : RoomVideo Sender) (sender : Sender)
    (hlone : ∀ a ∈ room.arrivals, a.sender = sender) : room.Undisturbed :=
  (VideoReceiver.actions_decode_iff ⟨rfl, rfl⟩ _ (count_video _ _)).mpr
    (lone_sender_follows sender room.start room.arrivals hlone fun _ hn => nomatch hn)

/-- One packet of a sender that starts at 0, then one of a sender that starts at 500. -/
def twoSenders : RoomVideo Bool where
  start late := if late then 500 else 0
  arrivals := [false, true].map fun sender =>
    ⟨sender, 0, fragmentPacket .h264Baseline true 0 0 1 0 [1]⟩

/-- The first packet of the second sender is a gap of 499, answered with an indication. -/
theorem two_senders_disturbed :
    ¬ twoSenders.Undisturbed ∧
      .pictureLossIndication 0 ∈ VideoReceiver.new.actions twoSenders.packets := by
  constructor
  · intro hundisturbed
    obtain ⟨frame, hgap⟩ := hundisturbed (.seqGap 499) (by decide +kernel)
    cases hgap
  · decide +kernel

end RoomVideo
end Wzp.Desktop
