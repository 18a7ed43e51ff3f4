import VrxServer.WebSocket.Reassembly

/-! What a connection has brought when it ends.

A peer's script need not get through: the connection may break between any two of its bytes,
or a Close may end it, with anything behind. `whole_delivered`: wherever it ends and however
the reads cut it, exactly the messages that came whole are handed over, in order; a message
that was cut off, fragments of it or a frame, leaves no trace. -/
namespace VrxServer.WebSocket
open Base

def Message.bytes (m : Message) : List UInt8 := m.wire.flatMap WireFrame.bytes

/-- The messages whose bytes are all among the first `n`. -/
def wholeMessages : List Message → ℕ → List Message
  | [], _ => []
  | m :: ms, n => if m.bytes.length ≤ n then m :: wholeMessages ms (n - m.bytes.length) else []

namespace WireFrame

/-- Neither the end of a message nor the whole of one. -/
def Unfinished (w : WireFrame) : Prop := w.fin = false ∨ 0x8 ≤ w.opcode

theorem drain_bytes_append (ws : List WireFrame) (hclose : ∀ w ∈ ws, w.opcode ≠ 0x8) (rest : List UInt8) :
    decoder.drain (ws.flatMap bytes ++ rest) =
      {decoder.drain rest with items := ws.map frame ++ (decoder.drain rest).items} := by
  rw [Decoder.drain_append, drain_bytes ws hclose]
  rfl

/-- A frame that is cut off is none. -/
theorem nextFrame_cut {w : WireFrame} {part rest : List UInt8} (h : part ++ rest = w.bytes) (hrest : rest ≠ []) :
    nextFrame part = .more :=
  Decoder.next_cut (d := decoder) (nextFrame_bytes w) h hrest

/-- A stream of frames that breaks off is drained of those that came whole. -/
theorem drain_cut (ws : List WireFrame) (hclose : ∀ w ∈ ws, w.opcode ≠ 0x8) {part : List UInt8}
    (hpart : part <+: ws.flatMap bytes) :
    ∃ n, (decoder.drain part).items = (ws.take n).map frame ∧ (ws.take n).flatMap bytes <+: part ∧
      (decoder.drain part).halt = none := by
  induction ws generalizing part with
  | nil =>
    obtain rfl := List.prefix_nil.mp hpart
    exact ⟨0, by rw [Decoder.drain_more rfl]; rfl, List.prefix_rfl, by rw [Decoder.drain_more rfl]⟩
  | cons w ws ih =>
    rw [List.flatMap_cons] at hpart
    by_cases hlen : w.bytes.length ≤ part.length
    · obtain ⟨part, rfl⟩ := List.prefix_of_prefix_length_le (List.prefix_append ..) hpart hlen
      obtain ⟨n, hitems, hbytes, hhalt⟩ :=
        ih (fun v hv => hclose v (List.mem_cons_of_mem _ hv)) ((List.prefix_append_right_inj _).mp hpart)
      have hlast : decoder.last w.frame = false := beq_eq_false_iff_ne.mpr (hclose w List.mem_cons_self)
      have hdrain : decoder.drain (w.bytes ++ part) = _ := Decoder.drain_item_append (nextFrame_bytes w) hlast
      refine ⟨n + 1, ?_, ?_, ?_⟩
      · rw [hdrain, hitems, List.take_succ_cons, List.map_cons]
      · rw [List.take_succ_cons, List.flatMap_cons]
        exact (List.prefix_append_right_inj _).mpr hbytes
      · rw [hdrain, hhalt]
    · obtain ⟨rest, hrest⟩ :=
        List.prefix_of_prefix_length_le hpart (List.prefix_append ..) (Nat.le_of_not_le hlen)
      have hne : rest ≠ [] := by
        rintro rfl
        rw [← hrest, List.append_nil] at hlen
        exact hlen le_rfl
      have hdrain := Decoder.drain_more (d := decoder) (nextFrame_cut hrest hne)
      exact ⟨0, by rw [hdrain]; rfl, List.nil_prefix, by rw [hdrain]⟩

end WireFrame

/-! ### What a part of a message hands over -/

theorem dispatch_unfinished (a : Assembly) {w : WireFrame} (h : w.Unfinished) :
    (dispatch .both a w.frame).1.filterMap Event.delivered = [] := by
  have hdata : w.opcode = 0x0 ∨ w.opcode = 0x1 ∨ w.opcode = 0x2 → w.fin = false := by
    intro hopcode
    rcases h with h | h
    · exact h
    · rcases hopcode with hop | hop | hop <;> rw [hop] at h <;> exact absurd h (by decide)
  rw [dispatch]
  by_cases hcontinues : w.frame.opcode = 0x0
  · have hfin : w.frame.fin = false := hdata (.inl hcontinues)
    rw [if_pos hcontinues]
    simp only [hfin, Bool.false_eq_true, if_false]
    split <;> rfl
  · rw [if_neg hcontinues]
    by_cases hstarts : w.frame.opcode = 0x1 ∨ w.frame.opcode = 0x2
    · have hfin : w.frame.fin = false := hdata (.inr hstarts)
      rw [if_pos hstarts]
      simp only [hfin, Bool.false_eq_true, if_false]
      rfl
    · rw [if_neg hstarts]
      split <;> rfl

theorem dispatchAll_unfinished (a : Assembly) (ws : List WireFrame) (h : ∀ w ∈ ws, w.Unfinished) :
    (dispatchAll .both a (ws.map WireFrame.frame)).1.filterMap Event.delivered = [] := by
  induction ws generalizing a with
  | nil => rfl
  | cons w ws ih =>
    rw [List.map_cons, dispatchAll, List.filterMap_append, dispatch_unfinished a (h w List.mem_cons_self),
      ih _ fun v hv => h v (List.mem_cons_of_mem _ hv)]
    rfl

theorem control_unfinished (cs : List Control) : ∀ w ∈ cs.map Control.wire, w.Unfinished := by
  intro w hw
  obtain ⟨c, -, rfl⟩ := List.mem_map.mp hw
  cases c with
  | ping body => exact .inr (show (0x8 : UInt8) ≤ 0x9 by decide)
  | pong body => exact .inr (show (0x8 : UInt8) ≤ 0xA by decide)

/-- The frame that ends a message is its last. -/
theorem dropLast_unfinished (opcode : UInt8) (hopcode : opcode.toNat < 16) (body : Body) (ps : List Fragment) :
    ∀ w ∈ ((⟨ps.isEmpty, opcode, body, hopcode⟩ : WireFrame) :: continuations ps).dropLast, w.Unfinished := by
  induction ps generalizing opcode body with
  | nil => exact fun w hw => nomatch hw
  | cons p ps ih =>
    rw [continuations, List.dropLast_cons_of_ne_nil (by simp), List.dropLast_append_of_ne_nil (by simp)]
    intro w hw
    rcases List.mem_cons.mp hw with rfl | hw
    · exact .inl rfl
    · rcases List.mem_append.mp hw with hw | hw
      · exact control_unfinished _ w hw
      · exact ih 0x0 (by decide) p.body w hw

/-- A message whose last frame is missing is not handed over. -/
theorem Message.take_delivered (m : Message) (a : Assembly) {n : ℕ} (hn : n < m.wire.length) :
    (dispatchAll .both a ((m.wire.take n).map WireFrame.frame)).1.filterMap Event.delivered = [] := by
  apply dispatchAll_unfinished
  intro w hw
  have hmem : w ∈ m.wire.dropLast := by
    rw [List.dropLast_eq_take]
    exact (List.take_subset_take_left _ (by omega)) hw
  rw [Message.wire, List.dropLast_append_of_ne_nil (by simp)] at hmem
  rcases List.mem_append.mp hmem with hmem | hmem
  · exact control_unfinished _ w hmem
  · exact dropLast_unfinished _ _ _ _ w hmem

/-! ### Where the stream ends -/

theorem wholeMessages_all (ms : List Message) {n : ℕ} (h : (ms.flatMap Message.bytes).length ≤ n) :
    wholeMessages ms n = ms := by
  induction ms generalizing n with
  | nil => rfl
  | cons m ms ih =>
    rw [List.flatMap_cons, List.length_append] at h
    rw [wholeMessages, if_pos (by omega), ih (by omega)]

/-- Messages as they are handed over. -/
def handed (ms : List Message) : List (Kind × List UInt8) := ms.map fun m => (m.kind, m.payload)

theorem delivered_cut (trailing : List Control) (ms : List Message) (a : Assembly) (ha : a.fragActive = false)
    {part : List UInt8} (hpart : part <+: (ms.flatMap Message.wire ++ trailing.map Control.wire).flatMap WireFrame.bytes) :
    (dispatchAll .both a (decoder.drain part).items).1.filterMap Event.delivered =
        handed (wholeMessages ms part.length) ∧
      (decoder.drain part).halt = none := by
  induction ms generalizing a part with
  | nil =>
    obtain ⟨n, hitems, -, hhalt⟩ := WireFrame.drain_cut _ (control_ne_close trailing) hpart
    refine ⟨?_, hhalt⟩
    rw [hitems]
    exact dispatchAll_unfinished a _ fun w hw => control_unfinished trailing w (List.mem_of_mem_take hw)
  | cons m ms ih =>
    rw [List.flatMap_cons, List.append_assoc, List.flatMap_append] at hpart
    by_cases hlen : m.bytes.length ≤ part.length
    · obtain ⟨part, rfl⟩ : m.bytes <+: part := List.prefix_of_prefix_length_le (List.prefix_append ..) hpart hlen
      obtain ⟨b, hb, hm⟩ := dispatch_message a ha m
      obtain ⟨hrest, hhalt⟩ := ih b hb ((List.prefix_append_right_inj _).mp hpart)
      have hdrain : decoder.drain (m.bytes ++ part) = _ :=
        WireFrame.drain_bytes_append m.wire m.opcode_ne_close part
      have hkind : (m.kind.event m.payload).delivered = some (m.kind, m.payload) := by
        cases m.kind <;> rfl
      have hleft : (m.bytes ++ part).length - m.bytes.length = part.length := by
        rw [List.length_append, Nat.add_sub_cancel_left]
      rw [wholeMessages, if_pos hlen, hleft, hdrain, dispatchAll_append, hm, List.filterMap_append, hrest,
        List.filterMap_append, pongs_delivered, List.nil_append, List.filterMap_cons_some hkind]
      exact ⟨rfl, hhalt⟩
    · have hcut : part <+: m.bytes :=
        List.prefix_of_prefix_length_le hpart (List.prefix_append ..) (Nat.le_of_not_le hlen)
      obtain ⟨n, hitems, hbytes, hhalt⟩ := WireFrame.drain_cut m.wire m.opcode_ne_close hcut
      have hn : n < m.wire.length := by
        by_contra hn
        rw [List.take_of_length_le (Nat.not_lt.mp hn)] at hbytes
        exact hlen hbytes.length_le
      rw [wholeMessages, if_neg hlen, hitems]
      exact ⟨m.take_delivered a hn, hhalt⟩

namespace Script

/-- A stream that brings the script as far as it goes: it breaks off in it, or a Close comes
behind it. -/
def Arrives (s : Script) (stream : List UInt8) : Prop :=
  stream <+: s.bytes ∨ ∃ close : WireFrame, close.opcode = 0x8 ∧ s.bytes ++ close.bytes <+: stream

theorem delivered_closed (s : Script) (close : WireFrame) (hclose : close.opcode = 0x8) (later : List UInt8) :
    (dispatchAll .both .initial (decoder.drain (s.bytes ++ (close.bytes ++ later))).items).1.filterMap Event.delivered =
        handed s.messages ∧
      (decoder.drain (s.bytes ++ (close.bytes ++ later))).halt = some .last := by
  have hlast : decoder.last close.frame = true := beq_iff_eq.mpr hclose
  have hend := Decoder.drain_last (decoder.item_append later (WireFrame.nextFrame_bytes close)) hlast
  have hnothing : ∀ a, (dispatchAll .both a [close.frame]).1 = [] := by
    intro a
    have hframe : close.frame.opcode = 0x8 := hclose
    simp only [dispatchAll, dispatch, hframe, List.append_nil]
    rfl
  have hwhole := s.runReadLoop_script [s.bytes] (List.append_nil _)
  rw [runReadLoop_eq, List.flatten_singleton, bytes, WireFrame.drain_bytes _ s.opcode_ne_close] at hwhole
  rw [bytes, WireFrame.drain_bytes_append _ s.opcode_ne_close, hend, dispatchAll_append, hnothing, List.append_nil, hwhole]
  exact ⟨s.events_delivered, rfl⟩

/-- **However a connection ends, the messages that came whole are handed over**, each once and
in order, whatever the reads, and of the others nothing; and the loop ends as it should. -/
theorem whole_delivered (s : Script) (pendingBytes : List UInt8) (chunks : List (List UInt8)) (hread : chunks ≠ [])
    (harrives : s.Arrives (pendingBytes ++ chunks.flatten)) :
    (runReadLoop .both pendingBytes chunks).filterMap Event.delivered =
        handed (wholeMessages s.messages (pendingBytes ++ chunks.flatten).length) ∧
      (ReadLoop.run decoder pendingBytes chunks).halt ≠ some .fault := by
  obtain ⟨chunk, chunks, rfl⟩ := List.exists_cons_of_ne_nil hread
  obtain ⟨hitems, hhalt⟩ := ReadLoop.run_eq_drain decoder pendingBytes chunk chunks
  rw [runReadLoop, hitems, hhalt]
  rcases harrives with hcut | ⟨close, hclose, hbehind⟩
  · obtain ⟨hdelivered, hgoing⟩ := delivered_cut s.trailing s.messages .initial rfl hcut
    rw [hgoing]
    exact ⟨hdelivered, fun h => by cases h⟩
  · obtain ⟨later, hlater⟩ := hbehind
    rw [List.append_assoc] at hlater
    obtain ⟨hdelivered, hlast⟩ := s.delivered_closed close hclose later
    have hwhole : wholeMessages s.messages (pendingBytes ++ (chunk :: chunks).flatten).length = s.messages := by
      apply wholeMessages_all
      rw [← hlater, bytes, wire, List.flatMap_append, List.flatMap_assoc]
      simp only [List.length_append]
      exact Nat.le_trans (Nat.le_add_right _ _) (Nat.le_add_right _ _)
    rw [hwhole, ← hlater, hlast]
    exact ⟨hdelivered, fun h => by cases h⟩

/-- Two messages, of which the second breaks off in a Ping between its fragments. -/
example :
    (runReadLoop .both (hi.bytes.take 5) [hi.bytes.drop 5, hi.bytes.take 7]).filterMap Event.delivered =
        [(.text, [72, 105])] ∧
      (ReadLoop.run decoder (hi.bytes.take 5) [hi.bytes.drop 5, hi.bytes.take 7]).halt ≠ some .fault :=
  whole_delivered ⟨hi.messages ++ hi.messages, []⟩ (hi.bytes.take 5) [hi.bytes.drop 5, hi.bytes.take 7] (by simp)
    (.inl (List.prefix_iff_eq_take.mpr rfl))

end Script

end VrxServer.WebSocket
