import VrxServer.Base.Run
import VrxServer.Dsp.VirtualReceiver
import VrxServer.SpyServer.Protocol
import Mathlib.Data.List.AList
import Mathlib.Logic.Function.Basic

/-! The SpyServer endpoint of one receiver.

`Server` is what the client threads and the streaming thread share. Its operations are the
source's critical sections of `clientsMutex_`, each one atomic; `handleCommand` says which
of them a command runs, in order. Every send is kept, per connection, with the bytes it was
given and how many of them the kernel accepted. -/
namespace VrxServer.SpyServer
open Base Config Dsp

/-! ### What the server keeps -/

structure ClientState where
  handshakeDone : Bool
  streamingEnabled : Bool
  streamingMode : UInt32
  sequenceNumber : UInt32
  deriving DecidableEq

def ClientState.initial : ClientState := ⟨false, false, 0, 0⟩

/-- The client is one a broadcast sends to. -/
def ClientState.streams (c : ClientState) : Bool :=
  c.handshakeDone && c.streamingEnabled && c.streamingMode &&& kStreamTypeIq != 0

/-- One `send`: the buffer, and how much of it was accepted. -/
structure Sent where
  buf : List UInt8
  accepted : ℕ
  deriving DecidableEq

/-- The bytes a list of sends put on the wire. -/
def wireOf (sends : List Sent) : List UInt8 := sends.flatMap fun a => a.buf.take a.accepted

structure Server (K : Type) where
  vrx : VirtualReceiver K
  clients : AList fun _ : ℕ => ClientState
  broadcastScratch : List UInt8
  /-- The sends to each descriptor since it was accepted. -/
  sent : ℕ → List Sent

variable {K : Type}

namespace Server

def initial (vrx : VirtualReceiver K) : Server K := ⟨vrx, ∅, [], fun _ => []⟩

/-- What the connection's peer has been sent so far. -/
def wire (s : Server K) (fd : ℕ) : List UInt8 := wireOf (s.sent fd)

def setClient (s : Server K) (fd : ℕ) (c : ClientState) : Server K := {s with clients := s.clients.insert fd c}

def logSend (s : Server K) (fd : ℕ) (a : Sent) : Server K :=
  {s with sent := Function.update s.sent fd (s.sent fd ++ [a])}

/-! ### Sending -/

/-- A message body: its length is a 32-bit number. -/
structure Body where
  bytes : List UInt8
  lt : bytes.length < 4294967296

/-- The header of a reply. -/
def replyHeader (messageType streamType sequenceNumber : UInt32) (body : Body) : MessageHeader where
  protocolId := kProtocolVersion
  messageType := messageType
  streamType := streamType
  sequenceNumber := sequenceNumber
  bodySize := UInt32.ofNat body.bytes.length

/-- A blocking send: all of the message is accepted. -/
def sendMessage (s : Server K) (fd : ℕ) (messageType streamType : UInt32) (body : Body) : Server K :=
  match s.clients.lookup fd with
  | none => s
  | some c =>
    let buf := (replyHeader messageType streamType c.sequenceNumber body).bytes ++ body.bytes
    (s.setClient fd {c with sequenceNumber := c.sequenceNumber + 1}).logSend fd ⟨buf, buf.length⟩

/-- The header of a broadcast. -/
def iqHeader (sequenceNumber : UInt32) (len : ℕ) : MessageHeader where
  protocolId := kProtocolVersion
  messageType := kMsgTypeUint8Iq
  streamType := kStreamTypeIq
  sequenceNumber := sequenceNumber
  bodySize := UInt32.ofNat len

/-- One round of the broadcast loop. `outcome` is how much of its message each client's
non-blocking send accepts, 0 where it fails. -/
def broadcastTo (len : ℕ) (outcome : ℕ → ℕ) (s : Server K) (fd : ℕ) : Server K :=
  match s.clients.lookup fd with
  | none => s
  | some c =>
    if !c.streams then s
    else
      let scratch := memcpy s.broadcastScratch 0 (iqHeader c.sequenceNumber len).bytes
      ({s with broadcastScratch := scratch}.setClient fd {c with sequenceNumber := c.sequenceNumber + 1}).logSend fd
        ⟨scratch, min (outcome fd) scratch.length⟩

/-- The data into the scratch buffer, behind room for a header. -/
def load (s : Server K) (data : List UInt8) : Server K :=
  {s with broadcastScratch := memcpy (resize 0 s.broadcastScratch (20 + data.length)) 20 data}

def broadcastIq (s : Server K) (data : List UInt8) (outcome : ℕ → ℕ) : Server K :=
  if s.clients.keys = [] then s
  else s.clients.keys.foldl (broadcastTo data.length outcome) (s.load data)

/-! ### Clients -/

def accept (s : Server K) (fd : ℕ) : Server K :=
  {s.setClient fd ClientState.initial with sent := Function.update s.sent fd []}

def removeClient (s : Server K) (fd : ℕ) : Server K := {s with clients := s.clients.erase fd}

/-- A change to a client's state, if it is still registered. -/
def modifyClient (s : Server K) (fd : ℕ) (f : ClientState → ClientState) : Server K :=
  match s.clients.lookup fd with
  | none => s
  | some c => s.setClient fd (f c)

def retune [Field K] [LinearOrder K] (T : Trig K) (s : Server K) (value : UInt32) : Server K :=
  match s.vrx.retune T (value.toNat : K) with
  | .ok vrx => {s with vrx := vrx}
  | .error _ => s

end Server

/-! ### Commands -/

/-- What a client thread does in one go while it handles a command. -/
inductive Section where
  /-- The first block of `handleHello`: the handshake is done, the mode is IQ. -/
  | greet
  | deviceInfo
  | clientSync
  | pong
  | streamingMode (value : UInt32)
  | streamingEnabled (value : UInt32)
  /-- No lock is taken for this one. -/
  | retune (value : UInt32)
  deriving DecidableEq

/-- A body too short for the handshake is ignored. -/
def handleHello (body : List UInt8) : List Section :=
  if body.length < 4 then [] else [.greet, .deviceInfo, .clientSync]

/-- A body too short for a setting and its value is ignored, and so are all other settings. -/
def handleSetSetting (body : List UInt8) : List Section :=
  match readU32 body 0, readU32 body 4 with
  | some setting, some value =>
    if setting = SettingType.streamingMode then [.streamingMode value]
    else if setting = SettingType.streamingEnabled then [.streamingEnabled value]
    else if setting = SettingType.iqFrequency then [.retune value]
    else []
  | _, _ => []

def handleCommand (commandType : UInt32) (body : List UInt8) : List Section :=
  if commandType = CommandType.hello then handleHello body
  else if commandType = CommandType.setSetting then handleSetSetting body
  else if commandType = CommandType.ping then [.pong]
  else []

/-! ### The replies -/

/-- The receiver's arithmetic: the trigonometric functions, and what a cast to `uint32_t`
gives where it is undefined. -/
structure Platform (K : Type) where
  trig : Trig K
  undefinedCast : K → UInt32

/-- The platform the samples run on. -/
def Platform.sample : Platform ℚ := ⟨Trig.coarse, fun _ => 0⟩

section
variable [Field K] [LinearOrder K] [FloorRing K]

/-- `static_cast<uint32_t>`. -/
def Platform.toUint32 (P : Platform K) (x : K) : UInt32 :=
  if 0 ≤ trunc x ∧ trunc x < 4294967296 then UInt32.ofNat (trunc x).toNat else P.undefinedCast x

variable (P : Platform K)

/-- The lower and the upper end of the tuning range. -/
def loLo (vrx : VirtualReceiver K) : K := vrx.widebandCenterHz - vrx.widebandSampleRateHz / 2
def loHi (vrx : VirtualReceiver K) : K := vrx.widebandCenterHz + vrx.widebandSampleRateHz / 2

def helloDeviceInfo (vrx : VirtualReceiver K) : DeviceInfo where
  deviceType := kDeviceTypeRtlSdr
  deviceSerial := 0
  maximumSampleRate := P.toUint32 vrx.getSampleRateHz
  maximumBandwidth := P.toUint32 vrx.getSampleRateHz
  decimationStageCount := 0
  gainStageCount := 0
  maximumGainIndex := 0
  minimumFrequency := P.toUint32 (loLo vrx)
  maximumFrequency := P.toUint32 (loHi vrx)
  resolution := 1
  minimumIqDecimation := 0
  forcedIqFormat := kStreamFormatUint8

def helloClientSync (vrx : VirtualReceiver K) : ClientSync where
  canControl := 1
  gain := 0
  deviceCenterFrequency := P.toUint32 vrx.widebandCenterHz
  iqCenterFrequency := P.toUint32 vrx.centerFrequencyHz
  fftCenterFrequency := 0
  minimumIqCenterFrequency := P.toUint32 (loLo vrx)
  maximumIqCenterFrequency := P.toUint32 (loHi vrx)
  minimumFftCenterFrequency := 0
  maximumFftCenterFrequency := 0

/-- The message a section sends, if it sends one. -/
def Section.reply (vrx : VirtualReceiver K) : Section → Option (UInt32 × Server.Body)
  | .deviceInfo => some (kMsgTypeDeviceInfo, ⟨(helloDeviceInfo P vrx).bytes, by simp⟩)
  | .clientSync => some (kMsgTypeClientSync, ⟨(helloClientSync P vrx).bytes, by simp⟩)
  | .pong => some (kMsgTypePong, ⟨[], by simp⟩)
  | _ => none

namespace Server

/-- One section of `fd`'s thread. -/
def perform (s : Server K) (fd : ℕ) (sec : Section) : Server K :=
  match sec with
  | .greet => s.modifyClient fd fun c => {c with handshakeDone := true, streamingMode := kStreamTypeIq}
  | .streamingMode value => s.modifyClient fd fun c => {c with streamingMode := value}
  | .streamingEnabled value => s.modifyClient fd fun c => {c with streamingEnabled := value != 0}
  | .retune value => s.retune P.trig value
  | .deviceInfo | .clientSync | .pong =>
    match sec.reply P s.vrx with
    | some (messageType, body) => s.sendMessage fd messageType kStreamTypeStatus body
    | none => s

end Server
end

/-! ### What a broadcast does -/

/-- The send a client's state earns it in a broadcast. -/
def iqSends (data : List UInt8) (outcome : ℕ) : Option ClientState → List Sent
  | some c =>
    if c.streams then
      [⟨(Server.iqHeader c.sequenceNumber data.length).bytes ++ data, min outcome (20 + data.length)⟩]
    else []
  | none => []

def ClientState.afterBroadcast (c : ClientState) : ClientState :=
  if c.streams then {c with sequenceNumber := c.sequenceNumber + 1} else c

namespace Server

/-- The scratch buffer holds the data behind room for a header. -/
def Loaded (s : Server K) (data : List UInt8) : Prop :=
  s.broadcastScratch.length = 20 + data.length ∧ s.broadcastScratch.drop 20 = data

/-- What a client whose state is `c` has been sent once its message is out. -/
def sendIq (s : Server K) (data : List UInt8) (outcome : ℕ) (fd : ℕ) (c : ClientState) : Server K :=
  ({s with broadcastScratch := (iqHeader c.sequenceNumber data.length).bytes ++ data}.setClient fd
    {c with sequenceNumber := c.sequenceNumber + 1}).logSend fd
      ⟨(iqHeader c.sequenceNumber data.length).bytes ++ data, min outcome (20 + data.length)⟩

/-- A client that does not stream is passed over. -/
theorem broadcastTo_skip {s : Server K} {fd : ℕ} (h : ∀ c, s.clients.lookup fd = some c → c.streams = false)
    (len : ℕ) (outcome : ℕ → ℕ) : broadcastTo len outcome s fd = s := by
  unfold broadcastTo
  cases hc : s.clients.lookup fd with
  | none => rfl
  | some c => simp [h c hc]

theorem broadcastTo_send {s : Server K} {data : List UInt8} (h : s.Loaded data) {fd : ℕ} {c : ClientState}
    (hc : s.clients.lookup fd = some c) (hstreams : c.streams = true) (outcome : ℕ → ℕ) :
    broadcastTo data.length outcome s fd = s.sendIq data (outcome fd) fd c := by
  have hscratch : memcpy s.broadcastScratch 0 (iqHeader c.sequenceNumber data.length).bytes =
      (iqHeader c.sequenceNumber data.length).bytes ++ data := by
    rw [memcpy_front, MessageHeader.length_bytes, h.2]
  unfold broadcastTo
  simp [hc, hstreams, hscratch, sendIq]

/-- One round: the client's message goes out, and no other client's. -/
theorem broadcastTo_spec {s : Server K} {data : List UInt8} (h : s.Loaded data) (outcome : ℕ → ℕ) (fd : ℕ) :
    (broadcastTo data.length outcome s fd).Loaded data ∧
      (broadcastTo data.length outcome s fd).vrx = s.vrx ∧
      (∀ g, (broadcastTo data.length outcome s fd).clients.lookup g =
        if g = fd then (s.clients.lookup fd).map ClientState.afterBroadcast else s.clients.lookup g) ∧
      ∀ g, (broadcastTo data.length outcome s fd).sent g =
        if g = fd then s.sent fd ++ iqSends data (outcome fd) (s.clients.lookup fd) else s.sent g := by
  by_cases hstreams : ∃ c, s.clients.lookup fd = some c ∧ c.streams = true
  · obtain ⟨c, hc, hstreams⟩ := hstreams
    rw [broadcastTo_send h hc hstreams, hc]
    refine ⟨⟨?_, List.drop_left' (MessageHeader.length_bytes _)⟩, rfl, fun g => ?_, fun g => ?_⟩
    · simp [sendIq, setClient, logSend]
    · show (s.clients.insert fd _).lookup g = _
      rw [Option.map_some, ClientState.afterBroadcast, if_pos hstreams]
      split
      · next hg => rw [hg, AList.lookup_insert]
      · next hg => rw [AList.lookup_insert_ne hg]
    · show Function.update s.sent fd _ g = _
      rw [Function.update_apply, iqSends, if_pos hstreams]
      rfl
  · have hskip : ∀ c, s.clients.lookup fd = some c → c.streams = false :=
      fun c hc => Bool.eq_false_iff.mpr fun hs => hstreams ⟨c, hc, hs⟩
    have hsame : (s.clients.lookup fd).map ClientState.afterBroadcast = s.clients.lookup fd ∧
        iqSends data (outcome fd) (s.clients.lookup fd) = [] := by
      cases hc : s.clients.lookup fd with
      | none => exact ⟨rfl, rfl⟩
      | some c => simp [ClientState.afterBroadcast, iqSends, hskip c hc]
    rw [broadcastTo_skip hskip, hsame.1, hsame.2, List.append_nil]
    refine ⟨h, rfl, fun g => ?_, fun g => ?_⟩
    · split
      · next hg => rw [hg]
      · rfl
    · split
      · next hg => rw [hg]
      · rfl

/-- The loop over any list of distinct descriptors. -/
theorem broadcastLoop_spec {s : Server K} {data : List UInt8} (h : s.Loaded data) (outcome : ℕ → ℕ)
    {fds : List ℕ} (hnodup : fds.Nodup) :
    (fds.foldl (broadcastTo data.length outcome) s).vrx = s.vrx ∧
      (∀ g, (fds.foldl (broadcastTo data.length outcome) s).clients.lookup g =
        if g ∈ fds then (s.clients.lookup g).map ClientState.afterBroadcast else s.clients.lookup g) ∧
      ∀ g, (fds.foldl (broadcastTo data.length outcome) s).sent g =
        if g ∈ fds then s.sent g ++ iqSends data (outcome g) (s.clients.lookup g) else s.sent g := by
  induction fds generalizing s with
  | nil => simp
  | cons fd fds ih =>
    obtain ⟨hfd, hnodup⟩ := List.nodup_cons.mp hnodup
    obtain ⟨hloaded, hvrx, hclients, hsent⟩ := broadcastTo_spec h outcome fd
    obtain ⟨hvrx', hclients', hsent'⟩ := ih hloaded hnodup
    rw [List.foldl_cons]
    refine ⟨hvrx'.trans hvrx, fun g => ?_, fun g => ?_⟩
    · rw [hclients', hclients]
      by_cases hg : g = fd
      · subst hg
        simp [hfd]
      · simp [hg]
    · rw [hsent', hsent, hclients]
      by_cases hg : g = fd
      · subst hg
        simp [hfd]
      · simp [hg]

/-- **A broadcast sends each streaming client one message with the data it was given**,
whatever the scratch buffer held and whoever else is connected. -/
theorem broadcastIq_spec (s : Server K) (data : List UInt8) (outcome : ℕ → ℕ) :
    (s.broadcastIq data outcome).vrx = s.vrx ∧
      (∀ fd, (s.broadcastIq data outcome).clients.lookup fd =
        (s.clients.lookup fd).map ClientState.afterBroadcast) ∧
      ∀ fd, (s.broadcastIq data outcome).sent fd =
        s.sent fd ++ iqSends data (outcome fd) (s.clients.lookup fd) := by
  have habsent : ∀ fd, fd ∉ s.clients.keys → s.clients.lookup fd = none :=
    fun fd h => AList.lookup_eq_none.mpr h
  unfold broadcastIq
  split
  · next hkeys =>
    have hnone : ∀ fd, s.clients.lookup fd = none := fun fd => habsent fd (by simp [hkeys])
    exact ⟨rfl, fun fd => by rw [hnone]; rfl, fun fd => by rw [hnone]; exact (List.append_nil _).symm⟩
  · have hload : (s.load data).Loaded data := by
      constructor
      · show (memcpy _ 20 data).length = _
        rw [length_memcpy _ _ _ (by simp), length_resize]
      · exact drop_memcpy _ _ _ (by simp)
    obtain ⟨hvrx, hclients, hsent⟩ := broadcastLoop_spec hload outcome s.clients.keys_nodup
    refine ⟨hvrx, fun fd => ?_, fun fd => ?_⟩
    · rw [hclients]
      split
      · rfl
      · next h =>
        show s.clients.lookup fd = _
        rw [habsent fd h]
        rfl
    · rw [hsent]
      split
      · rfl
      · next h =>
        rw [habsent fd h]
        exact (List.append_nil _).symm

end Server

/-! ### Every operation on the shared state -/

/-- A critical section, of any thread. -/
inductive Op where
  | accept (fd : ℕ)
  | removeClient (fd : ℕ)
  | perform (fd : ℕ) (sec : Section)
  | sendMessage (fd : ℕ) (messageType streamType : UInt32) (body : Server.Body)
  | broadcastIq (data : List UInt8) (outcome : ℕ → ℕ)

/-- What a section makes of its client's state. -/
def Section.onClient (c : ClientState) : Section → ClientState
  | .greet => {c with handshakeDone := true, streamingMode := kStreamTypeIq}
  | .streamingMode value => {c with streamingMode := value}
  | .streamingEnabled value => {c with streamingEnabled := value != 0}
  | .deviceInfo | .clientSync | .pong => {c with sequenceNumber := c.sequenceNumber + 1}
  | .retune _ => c

/-- What an operation makes of the state registered for `fd`. -/
def Op.onClient (fd : ℕ) (c : Option ClientState) : Op → Option ClientState
  | .accept g => if fd = g then some ClientState.initial else c
  | .removeClient g => if fd = g then none else c
  | .perform g sec => if fd = g then c.map sec.onClient else c
  | .sendMessage g _ _ _ => if fd = g then c.map fun c => {c with sequenceNumber := c.sequenceNumber + 1} else c
  | .broadcastIq _ _ => c.map ClientState.afterBroadcast

/-- The send of a reply. -/
def replySends (messageType streamType : UInt32) (body : Server.Body) : Option ClientState → List Sent
  | some c =>
    let buf := (Server.replyHeader messageType streamType c.sequenceNumber body).bytes ++ body.bytes
    [⟨buf, buf.length⟩]
  | none => []

variable [Field K] [LinearOrder K] [FloorRing K] (P : Platform K)

/-- The operation opens the connection at a descriptor. -/
def Op.opens (fd : ℕ) : Op → Bool
  | .accept g => fd == g
  | _ => false

/-- What an operation sends to a descriptor. -/
def Op.sends (s : Server K) (fd : ℕ) : Op → List Sent
  | .perform g sec =>
    match sec.reply P s.vrx with
    | some (messageType, body) =>
      if fd = g then replySends messageType kStreamTypeStatus body (s.clients.lookup fd) else []
    | none => []
  | .sendMessage g messageType streamType body =>
    if fd = g then replySends messageType streamType body (s.clients.lookup fd) else []
  | .broadcastIq data outcome => iqSends data (outcome fd) (s.clients.lookup fd)
  | .accept _ | .removeClient _ => []

namespace Server

def apply (s : Server K) : Op → Server K
  | .accept fd => s.accept fd
  | .removeClient fd => s.removeClient fd
  | .perform fd sec => s.perform P fd sec
  | .sendMessage fd messageType streamType body => s.sendMessage fd messageType streamType body
  | .broadcastIq data outcome => s.broadcastIq data outcome

/-- The machine of all critical sections, in any order. -/
def machine : Machine (Server K) Op := ⟨fun s op => some (s.apply P op)⟩

section
omit [Field K] [LinearOrder K] [FloorRing K]

theorem setClient_lookup (s : Server K) (fd : ℕ) (c : ClientState) (g : ℕ) :
    (s.setClient fd c).clients.lookup g = if g = fd then some c else s.clients.lookup g := by
  show (s.clients.insert fd c).lookup g = _
  split
  · next hg => rw [hg, AList.lookup_insert]
  · next hg => rw [AList.lookup_insert_ne hg]

theorem modifyClient_lookup (s : Server K) (fd : ℕ) (f : ClientState → ClientState) (g : ℕ) :
    (s.modifyClient fd f).clients.lookup g =
      if g = fd then (s.clients.lookup g).map f else s.clients.lookup g := by
  unfold modifyClient
  by_cases hg : g = fd
  · subst hg
    rw [if_pos rfl]
    cases hc : s.clients.lookup g with
    | none => exact hc
    | some c => exact (setClient_lookup s g _ g).trans (if_pos rfl)
  · rw [if_neg hg]
    cases s.clients.lookup fd with
    | none => rfl
    | some c => exact (setClient_lookup s fd _ g).trans (if_neg hg)

@[simp] theorem modifyClient_sent (s : Server K) (fd : ℕ) (f : ClientState → ClientState) :
    (s.modifyClient fd f).sent = s.sent := by
  unfold modifyClient
  cases s.clients.lookup fd <;> rfl

/-- A reply counts on its client's sequence number. -/
theorem sendMessage_clients (s : Server K) (fd : ℕ) (messageType streamType : UInt32) (body : Body) :
    (s.sendMessage fd messageType streamType body).clients =
      (s.modifyClient fd fun c => {c with sequenceNumber := c.sequenceNumber + 1}).clients := by
  unfold sendMessage modifyClient
  cases s.clients.lookup fd <;> rfl

theorem sendMessage_sent (s : Server K) (fd : ℕ) (messageType streamType : UInt32) (body : Body) (g : ℕ) :
    (s.sendMessage fd messageType streamType body).sent g =
      s.sent g ++ if g = fd then replySends messageType streamType body (s.clients.lookup g) else [] := by
  unfold sendMessage
  by_cases hg : g = fd
  · subst hg
    rw [if_pos rfl]
    cases s.clients.lookup g with
    | none => exact (List.append_nil _).symm
    | some c => exact Function.update_self ..
  · rw [if_neg hg, List.append_nil]
    cases s.clients.lookup fd with
    | none => rfl
    | some c => exact Function.update_of_ne hg ..

end

omit [FloorRing K] in
theorem retune_frame (s : Server K) (value : UInt32) :
    (s.retune P.trig value).clients = s.clients ∧ (s.retune P.trig value).sent = s.sent := by
  unfold retune
  cases s.vrx.retune P.trig (value.toNat : K) <;> exact ⟨rfl, rfl⟩

/-- **What an operation does to the state registered for a descriptor** depends on that
state alone. -/
theorem apply_lookup (s : Server K) (op : Op) (fd : ℕ) :
    (s.apply P op).clients.lookup fd = op.onClient fd (s.clients.lookup fd) := by
  cases op with
  | accept g => exact setClient_lookup s g _ fd
  | removeClient g =>
    show (s.clients.erase g).lookup fd = _
    rw [Op.onClient]
    split
    · next h => rw [h, AList.lookup_erase]
    · next h => rw [AList.lookup_erase_ne h]
  | sendMessage g messageType streamType body =>
    show (s.sendMessage g messageType streamType body).clients.lookup fd = _
    rw [sendMessage_clients, modifyClient_lookup]
    rfl
  | broadcastIq data outcome => exact (broadcastIq_spec s data outcome).2.1 fd
  | perform g sec =>
    have hid : ∀ c : Option ClientState, (if fd = g then c.map fun c => c else c) = c := by simp
    cases sec with
    | greet => exact modifyClient_lookup ..
    | streamingMode value => exact modifyClient_lookup ..
    | streamingEnabled value => exact modifyClient_lookup ..
    | deviceInfo | clientSync | pong =>
      show (s.sendMessage g _ kStreamTypeStatus _).clients.lookup fd = _
      rw [sendMessage_clients, modifyClient_lookup]
      rfl
    | retune value =>
      show (s.retune P.trig value).clients.lookup fd = _
      rw [(retune_frame P s value).1]
      exact (hid _).symm

/-- An accepted connection starts with nothing sent; every other operation adds to what
has been. -/
theorem apply_sent (s : Server K) (op : Op) (fd : ℕ) :
    (s.apply P op).sent fd = if op.opens fd then [] else s.sent fd ++ op.sends P s fd := by
  cases op with
  | accept g =>
    show Function.update s.sent g [] fd = _
    rw [Function.update_apply]
    simp [Op.opens, Op.sends]
  | removeClient g => exact (List.append_nil _).symm
  | sendMessage g messageType streamType body => exact sendMessage_sent ..
  | broadcastIq data outcome => exact (broadcastIq_spec s data outcome).2.2 fd
  | perform g sec =>
    cases sec with
    | greet => exact (congrFun (modifyClient_sent ..) fd).trans (List.append_nil _).symm
    | streamingMode value => exact (congrFun (modifyClient_sent ..) fd).trans (List.append_nil _).symm
    | streamingEnabled value => exact (congrFun (modifyClient_sent ..) fd).trans (List.append_nil _).symm
    | retune value => exact (congrFun (retune_frame P s value).2 fd).trans (List.append_nil _).symm
    | deviceInfo => exact sendMessage_sent ..
    | clientSync => exact sendMessage_sent ..
    | pong => exact sendMessage_sent ..

end Server

end VrxServer.SpyServer
