import VrxServer.WebSocket.Client

/-! Whole messages, from whatever frames they come in.

A peer's `Script` is what it sends: messages cut into fragments, control frames before any of
these, each frame masked or not and its length in any form that fits. `messages_reassembled`:
however the reads cut its bytes, each message is handed over once, whole and in order, and
each Ping is answered by one Pong. -/
namespace VrxServer.WebSocket
open Base

/-! ### Frames on the wire -/

inductive LengthForm where
  | short
  | medium
  | long

namespace LengthForm

/-- The largest length the form can carry. -/
def max : LengthForm → ℕ
  | short => 125
  | medium => 65535
  | long => maxSize

def len7 (n : ℕ) : LengthForm → ℕ
  | short => n
  | medium => 126
  | long => 127

def extension (n : ℕ) : LengthForm → List UInt8
  | short => []
  | medium => natBytes 2 n
  | long => natBytes 8 n

theorem len7_lt {form : LengthForm} {n : ℕ} (h : n ≤ form.max) : form.len7 n < 128 := by
  cases form <;> simp only [max, len7] at h ⊢ <;> omega

theorem lengthBytes_len7 {form : LengthForm} {n : ℕ} (h : n ≤ form.max) :
    lengthBytes (form.len7 n) = (form.extension n).length := by
  cases form with
  | short =>
    simp only [max] at h
    show lengthBytes n = 0
    rw [lengthBytes, if_neg (by omega), if_neg (by omega)]
  | medium => rfl
  | long => rfl

/-- The two length fields together are the length. -/
theorem extension_value {form : LengthForm} {n : ℕ} (h : n ≤ form.max) :
    (if lengthBytes (form.len7 n) = 0 then form.len7 n else bytesNat (form.extension n)) = n := by
  rw [lengthBytes_len7 h]
  cases form with
  | short => rfl
  | medium => exact bytesNat_natBytes 2 n (by simp only [max] at h; omega)
  | long => exact bytesNat_natBytes 8 n (by simp only [max, maxSize] at h; omega)

end LengthForm

/-- What a frame carries, and how. -/
structure Body where
  payload : List UInt8
  mask : Option (Fin 4 → UInt8)
  form : LengthForm
  fits : payload.length ≤ form.max

namespace Body

def maskBytes (b : Body) : List UInt8 :=
  match b.mask with
  | none => []
  | some key => List.ofFn key

/-- The byte that masks the `i`-th of the payload. -/
def maskAt (b : Body) (i : ℕ) : UInt8 :=
  match b.mask with
  | none => 0
  | some key => key ⟨i % 4, Nat.mod_lt _ (by decide)⟩

theorem length_maskBytes (b : Body) : b.maskBytes.length = if b.mask.isSome then 4 else 0 := by
  rw [maskBytes]
  cases b.mask with
  | none => rfl
  | some key => rw [List.length_ofFn, Option.isSome_some, if_pos rfl]

end Body

/-- A frame a peer sends. -/
structure WireFrame where
  fin : Bool
  opcode : UInt8
  body : Body
  opcode_lt : opcode.toNat < 16

namespace WireFrame

def flagByte (flag : Bool) (low : ℕ) : UInt8 := UInt8.ofNat ((if flag then 0x80 else 0) + low)

def front (w : WireFrame) : List UInt8 :=
  flagByte w.fin w.opcode.toNat :: flagByte w.body.mask.isSome (w.body.form.len7 w.body.payload.length) ::
    w.body.form.extension w.body.payload.length

def bytes (w : WireFrame) : List UInt8 :=
  w.front ++ (w.body.maskBytes ++ w.body.payload.mapIdx fun i b => b ^^^ w.body.maskAt i)

/-- The same frame as the loop sees it. -/
def frame (w : WireFrame) : Frame := ⟨w.fin, w.opcode, w.body.payload⟩

def header (w : WireFrame) : FrameHeader where
  fin := w.fin
  opcode := w.opcode
  masked := w.body.mask.isSome
  headerLen := w.front.length + w.body.maskBytes.length
  payloadLen := w.body.payload.length

theorem flagByte_flag : ∀ flag : Bool, ∀ low < 128, (flagByte flag low &&& 0x80 != 0) = flag := by decide +kernel

theorem flagByte_low : ∀ flag : Bool, ∀ low < 128, (flagByte flag low &&& 0x7F).toNat = low := by decide +kernel

theorem flagByte_opcode : ∀ flag : Bool, ∀ low < 16, flagByte flag low &&& 0x0F = UInt8.ofNat low := by
  decide +kernel

theorem frameHeader_bytes (w : WireFrame) : frameHeader w.bytes = some w.header := by
  have hlen7 := LengthForm.len7_lt w.body.fits
  have hext := LengthForm.lengthBytes_len7 w.body.fits
  have hvalue := LengthForm.extension_value w.body.fits
  unfold frameHeader bytes front
  simp only [List.cons_append, List.length_cons, List.length_append, List.getD_cons_zero, List.getD_cons_succ,
    flagByte_flag _ _ hlen7, flagByte_low _ _ hlen7, hext, List.drop_succ_cons, List.drop_zero]
  rw [if_neg (by omega), if_neg (by omega), List.take_left, ← hext, hvalue, hext,
    flagByte_flag _ _ (by have := w.opcode_lt; omega), flagByte_opcode _ _ w.opcode_lt, UInt8.ofNat_toNat]
  simp only [header, front, List.length_cons, Option.some.injEq, FrameHeader.mk.injEq, true_and, and_true]
  rw [Body.length_maskBytes]
  omega

theorem readPayload_bytes (w : WireFrame) : readPayload w.bytes w.header = w.body.payload := by
  have hmask := w.body.length_maskBytes
  refine List.ext_getElem (by simp [readPayload, header]) fun i hi _ => ?_
  have hi' : i < w.body.payload.length := by simpa [readPayload, header] using hi
  simp only [readPayload, header, List.getElem_map, List.getElem_range]
  have hbyte : w.bytes.getD (w.front.length + w.body.maskBytes.length + i) 0 =
      w.body.payload[i] ^^^ w.body.maskAt i := by
    have hindex : w.front.length + w.body.maskBytes.length + i - w.front.length - w.body.maskBytes.length = i := by
      omega
    rw [bytes, List.getD_append_right _ _ _ _ (by omega), List.getD_append_right _ _ _ _ (by omega), hindex,
      List.getD_eq_getElem _ _ (by rwa [List.length_mapIdx]), List.getElem_mapIdx]
  have hkey : (if w.body.mask.isSome then
      w.bytes.getD (w.front.length + w.body.maskBytes.length - 4 + i % 4) 0 else 0) = w.body.maskAt i := by
    have hmod : i % 4 < 4 := Nat.mod_lt _ (by decide)
    simp only [bytes, Body.maskBytes, Body.maskAt]
    cases w.body.mask with
    | none => rfl
    | some key =>
      have hindex : w.front.length + (List.ofFn key).length - 4 + i % 4 - w.front.length = i % 4 := by
        rw [List.length_ofFn]
        omega
      rw [Option.isSome_some, if_pos rfl, List.getD_append_right _ _ _ _ (by rw [List.length_ofFn]; omega), hindex,
        List.getD_append _ _ _ _ (by rwa [List.length_ofFn]), List.getD_eq_getElem _ _ (by rwa [List.length_ofFn]),
        List.getElem_ofFn]
  rw [hbyte, hkey, UInt8.xor_assoc, UInt8.xor_self, UInt8.xor_zero]

theorem nextFrame_bytes (w : WireFrame) : nextFrame w.bytes = .item w.frame w.bytes.length := by
  refine nextFrame_item.mpr ⟨w.header, frameHeader_bytes w, ?_, ?_, ?_, ?_⟩
  · have := w.body.fits
    simp only [header]
    cases hform : w.body.form <;> simp only [hform, LengthForm.max, maxSize] at this ⊢ <;> omega
  · simp [header, bytes]
    omega
  · rw [readPayload_bytes]
    rfl
  · simp [header, bytes]
    omega

/-- A stream of frames without a Close is drained to its last byte. -/
theorem drain_bytes (ws : List WireFrame) (hclose : ∀ w ∈ ws, w.opcode ≠ 0x8) :
    decoder.drain (ws.flatMap bytes) = ⟨ws.map frame, [], none⟩ := by
  induction ws with
  | nil => exact Decoder.drain_more rfl
  | cons w ws ih =>
    have hlast : decoder.last w.frame = false := beq_eq_false_iff_ne.mpr (hclose w List.mem_cons_self)
    rw [List.flatMap_cons, Decoder.drain_item_append (nextFrame_bytes w) hlast,
      ih fun v hv => hclose v (List.mem_cons_of_mem _ hv)]
    rfl

end WireFrame

/-! ### What a peer sends -/

inductive Kind where
  | text
  | binary
  deriving DecidableEq

def Kind.opcode : Kind → UInt8
  | text => 0x1
  | binary => 0x2

def Kind.event (payload : List UInt8) : Kind → Event
  | text => .text payload
  | binary => .binary payload

inductive Control where
  | ping (body : Body)
  | pong (body : Body)

namespace Control

def wire : Control → WireFrame
  | ping body => ⟨true, 0x9, body, by decide⟩
  | pong body => ⟨true, 0xA, body, by decide⟩

/-- The payload to answer with, if it is to be answered. -/
def pinged : Control → Option (List UInt8)
  | ping body => some body.payload
  | pong _ => none

end Control

/-- One frame of a message, and the control frames sent before it. -/
structure Fragment where
  before : List Control
  body : Body

structure Message where
  kind : Kind
  first : Fragment
  more : List Fragment

structure Script where
  messages : List Message
  trailing : List Control

/-- The continuation frames; the last one has FIN. -/
def continuations : List Fragment → List WireFrame
  | [] => []
  | p :: ps => p.before.map Control.wire ++ ⟨ps.isEmpty, 0x0, p.body, by decide⟩ :: continuations ps

namespace Message

theorem opcode_lt : ∀ kind : Kind, kind.opcode.toNat < 16
  | .text => by decide
  | .binary => by decide

def wire (m : Message) : List WireFrame :=
  m.first.before.map Control.wire ++
    ⟨m.more.isEmpty, m.kind.opcode, m.first.body, opcode_lt m.kind⟩ :: continuations m.more

def payload (m : Message) : List UInt8 := m.first.body.payload ++ m.more.flatMap fun p => p.body.payload

def controls (m : Message) : List Control := m.first.before ++ m.more.flatMap Fragment.before

end Message

namespace Script

def wire (s : Script) : List WireFrame := s.messages.flatMap Message.wire ++ s.trailing.map Control.wire

def bytes (s : Script) : List UInt8 := s.wire.flatMap WireFrame.bytes

def controls (s : Script) : List Control := s.messages.flatMap Message.controls ++ s.trailing

end Script

/-! ### What the loop makes of it -/

def pongs (cs : List Control) : List Event := (cs.filterMap Control.pinged).map (Event.sendFrame 0xA)

theorem pongs_append (cs ds : List Control) : pongs (cs ++ ds) = pongs cs ++ pongs ds := by
  simp only [pongs, List.filterMap_append, List.map_append]

/-- Control frames are answered, and leave a message they come inside of as it is. -/
theorem dispatch_controls (handlers : Handlers) (a : Assembly) (cs : List Control) (fs : List Frame) :
    dispatchAll handlers a ((cs.map Control.wire).map WireFrame.frame ++ fs) =
      (pongs cs ++ (dispatchAll handlers a fs).1, (dispatchAll handlers a fs).2) := by
  induction cs with
  | nil => rfl
  | cons c cs ih =>
    simp only [List.map_cons, List.cons_append, dispatchAll]
    cases c with
    | ping body =>
      have hstep : dispatch handlers a (Control.ping body).wire.frame = ([.sendFrame 0xA body.payload], a) := rfl
      rw [hstep, ih]
      rfl
    | pong body =>
      have hstep : dispatch handlers a (Control.pong body).wire.frame = ([], a) := rfl
      rw [hstep, ih]
      rfl

theorem invoke_kind (kind : Kind) (payload : List UInt8) :
    invoke .both kind.opcode payload = [kind.event payload] := by
  cases kind <;> rfl

/-- From inside a message to its end. -/
theorem dispatch_continuations (kind : Kind) (acc : List UInt8) (p : Fragment) (ps : List Fragment) :
    dispatchAll .both ⟨true, kind.opcode, acc⟩ ((continuations (p :: ps)).map WireFrame.frame) =
      (pongs ((p :: ps).flatMap Fragment.before) ++
        [kind.event (acc ++ (p :: ps).flatMap fun q => q.body.payload)], ⟨false, kind.opcode, []⟩) := by
  induction ps generalizing acc p with
  | nil =>
    have hstep : dispatch .both ⟨true, kind.opcode, acc⟩ ⟨true, 0x0, p.body.payload⟩ =
        (invoke .both kind.opcode (acc ++ p.body.payload), ⟨false, kind.opcode, []⟩) := rfl
    rw [continuations, List.map_append, dispatch_controls]
    simp only [continuations, List.map_cons, List.map_nil, dispatchAll, WireFrame.frame, List.isEmpty_nil, hstep,
      invoke_kind, List.flatMap_cons, List.flatMap_nil, List.append_nil]
  | cons q qs ih =>
    have hstep : dispatch .both ⟨true, kind.opcode, acc⟩ ⟨false, 0x0, p.body.payload⟩ =
        ([], ⟨true, kind.opcode, acc ++ p.body.payload⟩) := rfl
    rw [continuations, List.map_append, dispatch_controls]
    simp only [List.map_cons, dispatchAll, WireFrame.frame, List.isEmpty_cons, hstep, List.nil_append]
    rw [ih (acc ++ p.body.payload) q]
    simp only [List.flatMap_cons, pongs_append, List.append_assoc]

/-- A message started outside any other. -/
theorem dispatch_message (a : Assembly) (ha : a.fragActive = false) (m : Message) :
    ∃ a', a'.fragActive = false ∧ dispatchAll .both a (m.wire.map WireFrame.frame) =
      (pongs m.controls ++ [m.kind.event m.payload], a') := by
  have hfin : dispatch .both a ⟨true, m.kind.opcode, m.first.body.payload⟩ =
      ([m.kind.event m.first.body.payload], a) := by
    rw [← invoke_kind]
    cases m.kind <;> rfl
  have hopen : dispatch .both a ⟨false, m.kind.opcode, m.first.body.payload⟩ =
      ([], ⟨true, m.kind.opcode, m.first.body.payload⟩) := by
    cases m.kind <;> rfl
  rw [Message.wire, List.map_append, dispatch_controls, Message.controls, Message.payload]
  cases m.more with
  | nil =>
    refine ⟨a, ha, ?_⟩
    simp only [continuations, List.map_cons, List.map_nil, dispatchAll, WireFrame.frame, List.isEmpty_nil, hfin,
      List.flatMap_nil, List.append_nil]
  | cons p ps =>
    refine ⟨⟨false, m.kind.opcode, []⟩, rfl, ?_⟩
    have hrest := dispatch_continuations m.kind m.first.body.payload p ps
    simp only [List.map_cons, dispatchAll, WireFrame.frame, List.isEmpty_cons, hopen, List.nil_append]
    rw [hrest, pongs_append, List.append_assoc]

theorem dispatch_messages (a : Assembly) (ha : a.fragActive = false) (ms : List Message) (fs : List Frame) :
    ∃ a', a'.fragActive = false ∧ dispatchAll .both a ((ms.flatMap Message.wire).map WireFrame.frame ++ fs) =
      ((ms.flatMap fun m => pongs m.controls ++ [m.kind.event m.payload]) ++ (dispatchAll .both a' fs).1,
        (dispatchAll .both a' fs).2) := by
  induction ms generalizing a with
  | nil => exact ⟨a, ha, rfl⟩
  | cons m ms ih =>
    obtain ⟨b, hb, hm⟩ := dispatch_message a ha m
    obtain ⟨a', ha', hms⟩ := ih b hb
    refine ⟨a', ha', ?_⟩
    rw [List.flatMap_cons, List.map_append, List.append_assoc, dispatchAll_append, hm, hms, List.flatMap_cons]
    simp only [List.append_assoc]

/-! ### Reassembly -/

namespace Event

/-- The message handed over, if it is one. -/
def delivered : Event → Option (Kind × List UInt8)
  | text payload => some (.text, payload)
  | binary payload => some (.binary, payload)
  | sendFrame .. => none

/-- What is sent, if anything is. -/
def sent : Event → Option (UInt8 × List UInt8)
  | sendFrame opcode payload => some (opcode, payload)
  | _ => none

end Event

theorem control_ne_close (cs : List Control) : ∀ w ∈ cs.map Control.wire, w.opcode ≠ 0x8 := by
  intro w hw
  obtain ⟨c, -, rfl⟩ := List.mem_map.mp hw
  cases c <;> exact of_decide_eq_false rfl

theorem continuation_ne_close (ps : List Fragment) : ∀ w ∈ continuations ps, w.opcode ≠ 0x8 := by
  induction ps with
  | nil => exact fun _ hw => nomatch hw
  | cons p ps ih =>
    intro w hw
    rcases List.mem_append.mp hw with hw | hw
    · exact control_ne_close _ w hw
    · rcases List.mem_cons.mp hw with rfl | hw
      · exact of_decide_eq_false rfl
      · exact ih w hw

theorem Message.opcode_ne_close (m : Message) : ∀ w ∈ m.wire, w.opcode ≠ 0x8 := by
  intro w hw
  rcases List.mem_append.mp hw with hw | hw
  · exact control_ne_close _ w hw
  · rcases List.mem_cons.mp hw with rfl | hw
    · show m.kind.opcode ≠ 0x8
      cases m.kind <;> exact of_decide_eq_false rfl
    · exact continuation_ne_close _ w hw

theorem pongs_delivered (cs : List Control) : (pongs cs).filterMap Event.delivered = [] := by
  simp [pongs, Event.delivered]

theorem pongs_sent (cs : List Control) :
    (pongs cs).filterMap Event.sent = (cs.filterMap Control.pinged).map fun p => (0xA, p) := by
  have hcomp : Event.sent ∘ Event.sendFrame 0xA = some ∘ fun p => (0xA, p) := rfl
  rw [pongs, List.filterMap_map, hcomp, List.filterMap_eq_map]

namespace Script

theorem opcode_ne_close (s : Script) : ∀ w ∈ s.wire, w.opcode ≠ 0x8 := by
  intro w hw
  rcases List.mem_append.mp hw with hw | hw
  · obtain ⟨m, -, hw⟩ := List.mem_flatMap.mp hw
    exact m.opcode_ne_close w hw
  · exact control_ne_close _ w hw

/-- What the loop does on a script: the Pongs of a message's control frames, then the message. -/
def events (s : Script) : List Event :=
  (s.messages.flatMap fun m => pongs m.controls ++ [m.kind.event m.payload]) ++ pongs s.trailing

theorem runReadLoop_script (s : Script) (chunks : List (List UInt8)) (h : chunks.flatten = s.bytes) :
    runReadLoop .both [] chunks = s.events := by
  obtain ⟨a, -, hmessages⟩ := dispatch_messages .initial rfl s.messages
    ((s.trailing.map Control.wire).map WireFrame.frame ++ [])
  rw [runReadLoop_eq, h, bytes, WireFrame.drain_bytes _ s.opcode_ne_close, wire, List.map_append]
  rw [dispatch_controls, List.append_nil] at hmessages
  simp only [hmessages, dispatchAll, List.append_nil, events]

theorem events_delivered (s : Script) :
    s.events.filterMap Event.delivered = s.messages.map fun m => (m.kind, m.payload) := by
  have hmessage : ∀ m : Message, (pongs m.controls ++ [m.kind.event m.payload]).filterMap Event.delivered =
      [(m.kind, m.payload)] := by
    intro m
    rw [List.filterMap_append, pongs_delivered]
    cases m.kind <;> rfl
  rw [events, List.filterMap_append, pongs_delivered, List.append_nil, List.filterMap_flatMap]
  simp only [hmessage]
  exact List.map_eq_flatMap.symm

theorem events_sent (s : Script) :
    s.events.filterMap Event.sent = (s.controls.filterMap Control.pinged).map fun p => (0xA, p) := by
  have hmessage : ∀ m : Message, (pongs m.controls ++ [m.kind.event m.payload]).filterMap Event.sent =
      (m.controls.filterMap Control.pinged).map fun p => (0xA, p) := by
    intro m
    rw [List.filterMap_append, pongs_sent]
    cases m.kind <;> exact List.append_nil _
  rw [events, List.filterMap_append, pongs_sent, List.filterMap_flatMap, controls, List.filterMap_append,
    List.map_append, List.filterMap_flatMap, List.map_flatMap]
  simp only [hmessage]

/-- **However the reads cut a script's bytes, each of its messages is handed over once, in order
and whole, and each Ping is answered by one Pong with its payload, in order.** -/
theorem messages_reassembled (s : Script) (chunks : List (List UInt8)) (h : chunks.flatten = s.bytes) :
    (runReadLoop .both [] chunks).filterMap Event.delivered = s.messages.map (fun m => (m.kind, m.payload)) ∧
      (runReadLoop .both [] chunks).filterMap Event.sent =
        (s.controls.filterMap Control.pinged).map fun p => (0xA, p) := by
  rw [runReadLoop_script s chunks h]
  exact ⟨s.events_delivered, s.events_sent⟩

/-- "Hi" in two fragments, the second masked, and a Ping between them. -/
def hi : Script where
  messages := [{
    kind := .text
    first := ⟨[], ⟨[72], none, .short, by decide⟩⟩
    more := [⟨[.ping ⟨[7], none, .medium, by decide⟩], ⟨[105], some fun i => i.val.toUInt8 + 1, .long, by decide⟩⟩] }]
  trailing := []

/-- Its bytes one at a time. -/
theorem hi_reassembled :
    (runReadLoop .both [] (hi.bytes.map fun b => [b])).filterMap Event.delivered = [(.text, [72, 105])] ∧
      (runReadLoop .both [] (hi.bytes.map fun b => [b])).filterMap Event.sent = [(0xA, [7])] :=
  messages_reassembled hi _ (by rw [← List.flatMap_def, List.flatMap_singleton'])

end Script

end VrxServer.WebSocket
