import VrxServer.Base.ReadLoop
import VrxServer.SpyServer.Server

/-! The framing of what a client receives.

A client reads a header, then as many body bytes as the header says, and so on. What it
has been sent is `Framed` when that leaves nothing over. A reply is always sent whole; a
broadcast may be cut anywhere, and what is cut off is never sent. So the stream stays
framed as long as every broadcast to the client is cut where a message ends, and no
longer (`framed_always_iff`). -/
namespace VrxServer.SpyServer
open Base Config Dsp

/-- A header and a body of the length it announces. -/
structure WholeMessage where
  header : List UInt8
  body : List UInt8
  header_length : header.length = 20
  bodySize : readU32 header 16 = some (UInt32.ofNat body.length)
  body_lt : body.length < 4294967296

def WholeMessage.bytes (m : WholeMessage) : List UInt8 := m.header ++ m.body

/-- Whole messages one after the other. -/
def Framed (stream : List UInt8) : Prop := ∃ ms : List WholeMessage, stream = ms.flatMap WholeMessage.bytes

/-! ### The client's parser -/

/-- A client parsing headers in sequence. -/
def clientDecoder : Decoder UInt8 (List UInt8 × List UInt8) where
  next buf :=
    match readU32 buf 16 with
    | none => .more
    | some n =>
      if 20 + n.toNat ≤ buf.length then .item (buf.take 20, (buf.drop 20).take n.toNat) (20 + n.toNat)
      else .more
  last _ := false
  item_size {buf a n} h := by
    split at h
    · cases h
    · split at h
      · next hle =>
        obtain ⟨-, rfl⟩ := Verdict.item.inj h
        exact ⟨by omega, hle⟩
      · cases h
  item_append {buf a n} rest h := by
    split at h
    · cases h
    · next v hv =>
      split at h
      · next hle =>
        obtain ⟨rfl, rfl⟩ := Verdict.item.inj h
        rw [readU32_append rest hv]
        simp only [List.length_append]
        rw [if_pos (by omega), List.take_append_of_le_length (by omega), List.drop_append_of_le_length (by omega),
          List.take_append_of_le_length (by rw [List.length_drop]; omega)]
      · cases h
  fault_append {buf} rest h := by
    split at h
    · cases h
    · split at h <;> cases h

theorem next_whole (m : WholeMessage) :
    clientDecoder.next m.bytes = .item (m.header, m.body) m.bytes.length := by
  have hn : (UInt32.ofNat m.body.length).toNat = m.body.length := by
    rw [UInt32.toNat_ofNat', Nat.mod_eq_of_lt m.body_lt]
  have hlen : m.bytes.length = 20 + m.body.length := by
    rw [WholeMessage.bytes, List.length_append, m.header_length]
  have hread : readU32 m.bytes 16 = some (UInt32.ofNat m.body.length) := readU32_append m.body m.bodySize
  simp only [clientDecoder, hread, hn]
  rw [if_pos hlen.ge, ← hlen, WholeMessage.bytes, List.take_left' m.header_length, List.drop_left' m.header_length,
    List.take_length]

/-- What the client takes off its buffer is a whole message. -/
theorem whole_of_next {buf : List UInt8} {a : List UInt8 × List UInt8} {k : ℕ}
    (h : clientDecoder.next buf = .item a k) : ∃ m : WholeMessage, m.bytes = buf.take k := by
  simp only [clientDecoder] at h
  split at h
  · cases h
  · next n hn =>
    split at h
    · next hle =>
      obtain ⟨-, rfl⟩ := Verdict.item.inj h
      have hhead : (buf.take 20).length = 20 := by
        rw [List.length_take]
        omega
      have hbody : ((buf.drop 20).take n.toNat).length = n.toNat := by
        rw [List.length_take, List.length_drop]
        omega
      have hread : readU32 (buf.take 20) 16 = some n := by
        have hlen : 16 + 4 ≤ (buf.take 20).length := by omega
        obtain ⟨v, hv⟩ := readU32_of_length hlen
        have happ := readU32_append (buf.drop 20) hv
        rw [List.take_append_drop, hn] at happ
        rw [hv, happ]
      refine ⟨⟨buf.take 20, (buf.drop 20).take n.toNat, hhead, ?_, ?_⟩, ?_⟩
      · rw [hread, hbody, UInt32.ofNat_toNat]
      · rw [hbody]
        exact n.toNat_lt
      · rw [WholeMessage.bytes, ← List.take_add]
    · cases h

/-- Behind whole messages the client parses what follows. -/
theorem drain_rest_append {w : List UInt8} (hw : Framed w) (x : List UInt8) :
    (clientDecoder.drain (w ++ x)).rest = (clientDecoder.drain x).rest := by
  obtain ⟨ms, rfl⟩ := hw
  induction ms with
  | nil => rfl
  | cons m ms ih =>
    rw [List.flatMap_cons, List.append_assoc, Decoder.drain_item_append (next_whole m) rfl]
    exact ih

/-- A stream is framed exactly when the client's parser is left with nothing. -/
theorem framed_iff (stream : List UInt8) : Framed stream ↔ (clientDecoder.drain stream).rest = [] := by
  constructor
  · intro h
    have hrest := drain_rest_append h []
    rwa [List.append_nil] at hrest
  · induction hlen : stream.length using Nat.strongRecOn generalizing stream with
    | ind n ih =>
      intro hrest
      cases hnext : clientDecoder.next stream with
      | more =>
        rw [Decoder.drain_more hnext] at hrest
        exact ⟨[], hrest⟩
      | fault =>
        rw [Decoder.drain_fault hnext] at hrest
        exact ⟨[], hrest⟩
      | item a k =>
        obtain ⟨hpos, hle⟩ := clientDecoder.item_size hnext
        rw [Decoder.drain_item hnext rfl] at hrest
        obtain ⟨m, hm⟩ := whole_of_next hnext
        obtain ⟨ms, hms⟩ := ih (stream.drop k).length (by rw [List.length_drop]; omega) _ rfl hrest
        refine ⟨m :: ms, ?_⟩
        rw [List.flatMap_cons, hm, ← hms, List.take_append_drop]

/-- Behind whole messages a stream is framed when the rest is. -/
theorem framed_append {w : List UInt8} (hw : Framed w) (x : List UInt8) : Framed (w ++ x) ↔ Framed x := by
  rw [framed_iff, framed_iff, drain_rest_append hw]

theorem framed_nil : Framed [] := ⟨[], rfl⟩

theorem WholeMessage.framed (m : WholeMessage) : Framed m.bytes := ⟨[m], by simp⟩

/-! ### Cutting a message -/

/-- How much of a broadcast of `data` may be accepted: nothing, or the declared body and,
should `data` be longer than a body can be declared, whole messages of the rest. -/
def CleanCut (data : List UInt8) (accepted : ℕ) : Prop :=
  accepted = 0 ∨
    20 + data.length % 4294967296 ≤ accepted ∧ Framed ((data.take (accepted - 20)).drop (data.length % 4294967296))

/-- A stream that stops inside a message is not framed. -/
theorem not_framed_of_more {stream : List UInt8} (hnext : clientDecoder.next stream = .more) (hne : stream ≠ []) :
    ¬ Framed stream := by
  rw [framed_iff, Decoder.drain_more hnext]
  exact hne

theorem next_more_of_short {buf : List UInt8} (h : buf.length < 20) : clientDecoder.next buf = .more := by
  cases hread : readU32 buf 16 with
  | none => simp only [clientDecoder, hread]
  | some n =>
    simp only [clientDecoder, hread]
    rw [if_neg (by omega)]

section Broadcast
variable (sequenceNumber : UInt32) (data : List UInt8) {accepted : ℕ}

/-- What a client takes a broadcast for: its header, and as much of the data as that announces. -/
def announced : WholeMessage where
  header := (Server.iqHeader sequenceNumber data.length).bytes
  body := data.take (data.length % 4294967296)
  header_length := MessageHeader.length_bytes _
  bodySize := by
    have hread := readU32_bodySize (Server.iqHeader sequenceNumber data.length) []
    rw [List.append_nil] at hread
    have hbody : UInt32.ofNat (data.take (data.length % 4294967296)).length = UInt32.ofNat data.length := by
      rw [List.length_take, Nat.min_eq_left (Nat.mod_le ..)]
      exact UInt32.toNat.inj (by rw [UInt32.toNat_ofNat', UInt32.toNat_ofNat', Nat.mod_mod])
    rw [hread, hbody]
    rfl
  body_lt := by
    rw [List.length_take]
    omega

/-- A broadcast that is cut inside its announced body leaves the client waiting. -/
theorem next_more_of_cut (hcut : accepted < 20 + data.length % 4294967296) :
    clientDecoder.next (((Server.iqHeader sequenceNumber data.length).bytes ++ data).take accepted) = .more := by
  have hhead := (Server.iqHeader sequenceNumber data.length).length_bytes
  rcases Nat.lt_or_ge accepted 20 with hshort | hge
  · apply next_more_of_short
    rw [List.length_take]
    omega
  · have hread := readU32_bodySize (Server.iqHeader sequenceNumber data.length) (data.take (accepted - 20))
    have hsize : (Server.iqHeader sequenceNumber data.length).bodySize.toNat = data.length % 4294967296 :=
      UInt32.toNat_ofNat'
    rw [List.take_append, List.take_of_length_le (by omega), hhead]
    simp only [clientDecoder, hread, hsize]
    rw [if_neg]
    simp only [List.length_append, List.length_take, hhead]
    omega

/-- One that is not is the announced message and what is left of the data. -/
theorem take_broadcast (hwhole : 20 + data.length % 4294967296 ≤ accepted) :
    ((Server.iqHeader sequenceNumber data.length).bytes ++ data).take accepted =
      (announced sequenceNumber data).bytes ++ (data.take (accepted - 20)).drop (data.length % 4294967296) := by
  have hhead := (Server.iqHeader sequenceNumber data.length).length_bytes
  have hfirst : (data.take (accepted - 20)).take (data.length % 4294967296) =
      data.take (data.length % 4294967296) := by
    rw [List.take_take, Nat.min_eq_left (by omega)]
  rw [List.take_append, List.take_of_length_le (by omega), hhead]
  show _ = (Server.iqHeader sequenceNumber data.length).bytes ++ data.take _ ++ _
  rw [List.append_assoc, ← hfirst, List.take_append_drop]

/-- What is accepted of a broadcast is framed exactly when the cut is clean. -/
theorem framed_take_iff (accepted : ℕ) (hle : accepted ≤ 20 + data.length) :
    Framed (((Server.iqHeader sequenceNumber data.length).bytes ++ data).take accepted) ↔ CleanCut data accepted := by
  rcases Nat.eq_zero_or_pos accepted with rfl | hpos
  · exact iff_of_true framed_nil (.inl rfl)
  rcases Nat.lt_or_ge accepted (20 + data.length % 4294967296) with hcut | hwhole
  · refine iff_of_false (not_framed_of_more (next_more_of_cut sequenceNumber data hcut) ?_) ?_
    · apply List.ne_nil_of_length_pos
      rw [List.length_take, List.length_append, MessageHeader.length_bytes]
      omega
    · intro hp
      obtain h0 | ⟨h20, -⟩ := hp
      · omega
      · omega
  · rw [take_broadcast sequenceNumber data hwhole, framed_append (announced sequenceNumber data).framed]
    exact ⟨fun h => .inr ⟨hwhole, h⟩, fun h => h.elim (fun h0 => by omega) And.right⟩

end Broadcast

/-! ### Runs -/

variable {K : Type} [Field K] [LinearOrder K] [FloorRing K] (P : Platform K)

/-- A reply is whole. -/
theorem framed_replySends (messageType streamType : UInt32) (body : Server.Body) (c : Option ClientState) :
    Framed (wireOf (replySends messageType streamType body c)) := by
  cases c with
  | none => exact framed_nil
  | some c =>
    have hread := readU32_bodySize (Server.replyHeader messageType streamType c.sequenceNumber body) []
    rw [List.append_nil] at hread
    have hframed := WholeMessage.framed ⟨_, body.bytes, MessageHeader.length_bytes _, hread, body.lt⟩
    simp only [wireOf, replySends, List.flatMap_cons, List.flatMap_nil, List.append_nil, List.take_length]
    exact hframed

/-- A broadcast to a client that streams is cut cleanly. -/
def Clean (fd : ℕ) (s : Server K) : Op → Prop
  | .broadcastIq data outcome => ∀ c, s.clients.lookup fd = some c → c.streams = true →
      CleanCut data (min (outcome fd) (20 + data.length))
  | _ => True

/-- An operation keeps the stream framed exactly when it is clean. -/
theorem framed_sends_iff (s : Server K) (op : Op) (fd : ℕ) :
    Framed (wireOf (op.sends P s fd)) ↔ Clean fd s op := by
  cases op with
  | accept g => exact iff_of_true framed_nil trivial
  | removeClient g => exact iff_of_true framed_nil trivial
  | sendMessage g messageType streamType body =>
    refine iff_of_true ?_ trivial
    simp only [Op.sends]
    split
    · exact framed_replySends ..
    · exact framed_nil
  | perform g sec =>
    refine iff_of_true ?_ trivial
    simp only [Op.sends]
    split
    · split
      · exact framed_replySends ..
      · exact framed_nil
    · exact framed_nil
  | broadcastIq data outcome =>
    simp only [Op.sends, Clean]
    cases s.clients.lookup fd with
    | none => exact iff_of_true framed_nil fun c hc => by cases hc
    | some c =>
      cases hstreams : c.streams with
      | false =>
        simp only [iqSends, hstreams]
        exact iff_of_true framed_nil fun c' hc' hs => by simp_all
      | true =>
        simp only [iqSends, hstreams, if_true, wireOf, List.flatMap_cons, List.flatMap_nil, List.append_nil]
        rw [framed_take_iff _ _ _ (Nat.min_le_right ..)]
        simp [hstreams]

/-- **A client's stream stays framed through a run exactly when every broadcast of the run
to it, while it streams, is cut cleanly.** -/
theorem framed_always_iff (vrx : VirtualReceiver K) (fd : ℕ) (ops : List Op) :
    (Server.machine P).Always (fun s => Framed (s.wire fd)) (Server.initial vrx) ops ↔
      (Server.machine P).Allowed (Clean fd) (Server.initial vrx) ops := by
  refine Machine.always_iff_allowed (I := fun _ => True) (fun _ _ _ _ _ => trivial) ?_ trivial framed_nil
  intro s op t _ hs hstep
  obtain rfl := Option.some.inj hstep
  rw [← framed_sends_iff P, Server.wire, Server.apply_sent]
  cases hopens : op.opens fd with
  | true =>
    cases op with
    | accept g => exact iff_of_true framed_nil framed_nil
    | _ => cases hopens
  | false =>
    simp only [Bool.false_eq_true, if_false, wireOf, List.flatMap_append]
    exact framed_append hs _

/-- A session whose first broadcast is accepted in half, and a ping. -/
def shortWrite : List Op :=
  [.accept 4, .perform 4 .greet, .perform 4 .deviceInfo, .perform 4 .clientSync,
    .perform 4 (.streamingEnabled 1), .broadcastIq [127, 129, 127, 129] fun _ => 12, .perform 4 .pong]

/-- After a short write the rest of the message is missing from the stream. -/
theorem short_write_breaks_framing : ¬ ∀ (vrx : VirtualReceiver ℚ) (fd : ℕ) (ops : List Op),
    (Server.machine Platform.sample).Always (fun s => Framed (s.wire fd)) (Server.initial vrx) ops := by
  intro h
  have hframed := h VirtualReceiver.sample 4 shortWrite _ _ (List.prefix_refl _) rfl
  exact absurd ((framed_iff _).mp hframed) (by decide +kernel)

end VrxServer.SpyServer
