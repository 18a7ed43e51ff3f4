import VrxServer.SdrConnect.Text
import VrxServer.WebSocket.Arrival

/-! From the SDRconnect server's messages to the samples the callback is given.

What the server sends are WebSocket messages, in fragments and with control frames between
them; what comes of them over a connection is a sequence of calls with samples
(`samples_delivered`). Neither the fragments nor the reads nor the place where the connection
breaks off show in it: each I/Q message that came whole is one call, in order, and nothing
else is one. -/
namespace VrxServer.SdrConnect
open Base Config SdrPlay WebSocket

/-! ### What a binary message holds -/

/-- Whole samples, one after the other. -/
def rawSamples : List UInt8 → List RawSample
  | a :: b :: c :: d :: bytes =>
    ((a.toUInt16 ||| b.toUInt16 <<< 8).toInt16, (c.toUInt16 ||| d.toUInt16 <<< 8).toInt16) :: rawSamples bytes
  | _ => []

/-- The samples of a message; one of another type has none. -/
def iqSamples (data : List UInt8) : List RawSample := if data.take 2 = [2, 0] then rawSamples (data.drop 2) else []

theorem le16_bytes (low high : UInt8) : le16 (low.toUInt16 ||| high.toUInt16 <<< 8).toInt16 = [low, high] := by
  have hlow := low.toNat_lt
  have hhigh := high.toNat_lt
  have hword := word_toNat low high
  rw [le16, UInt16.toUInt16_toInt16]
  congr 1
  · apply UInt8.toNat_inj.mp
    rw [UInt16.toNat_toUInt8, hword]
    omega
  · congr 1
    apply UInt8.toNat_inj.mp
    rw [UInt16.toNat_toUInt8, UInt16.toNat_shiftRight, hword]
    simp only [UInt16.reduceToNat, Nat.reduceMod, Nat.shiftRight_eq_div_pow]
    omega

/-- All bytes are samples, but for less than one at the end. -/
theorem sampleBytes_rawSamples (bytes : List UInt8) :
    ∃ trailing, trailing.length < 4 ∧ bytes = sampleBytes (rawSamples bytes) ++ trailing := by
  induction bytes using rawSamples.induct with
  | case1 a b c d bytes ih =>
    obtain ⟨trailing, hlen, hbytes⟩ := ih
    refine ⟨trailing, hlen, ?_⟩
    rw [rawSamples, sampleBytes, List.flatMap_cons, le16_bytes, le16_bytes, List.append_assoc, ← sampleBytes, ← hbytes]
    rfl
  | case2 bytes hshort =>
    refine ⟨bytes, ?_, ?_⟩
    · rcases bytes with _ | ⟨a, _ | ⟨b, _ | ⟨c, _ | ⟨d, bytes⟩⟩⟩⟩
      case cons.cons.cons.cons => exact absurd rfl (hshort a b c d bytes)
      all_goals simp
    · rw [rawSamples]
      · rfl
      · exact hshort

/-- What a message's samples are handed over with. -/
def iqCall (data : List UInt8) : Option IqCall := if iqSamples data = [] then none else some (callOf (iqSamples data))

theorem handleBinaryMessage_iqCall {s : IqSource} (hcb : s.onIq = true) (data : List UInt8) :
    (handleBinaryMessage s data).1 = iqCall data := by
  by_cases htype : data.take 2 = [2, 0]
  · obtain ⟨trailing, hlen, hbytes⟩ := sampleBytes_rawSamples (data.drop 2)
    have hdata : data = iqMessage (iqSamples data) trailing := by
      conv_lhs => rw [← List.take_append_drop 2 data, htype, hbytes]
      rw [iqSamples, if_pos htype]
      rfl
    by_cases hnone : iqSamples data = []
    · have hshort : data.length < 6 := by
        rw [hdata, hnone]
        simp only [iqMessage, sampleBytes, List.flatMap_nil, List.nil_append, List.length_append, List.length_cons,
          List.length_nil]
        omega
      rw [handleBinaryMessage_other s (.inr hshort), iqCall, if_pos hnone]
    · have hcall := handleBinaryMessage_call hcb hnone hlen
      rw [← hdata] at hcall
      rw [hcall, iqCall, if_neg hnone]
  · rw [handleBinaryMessage_other s (.inl htype), iqCall, iqSamples, if_neg htype, if_pos rfl]

/-! ### What a thread does with its messages -/

section
variable (lib : YamlLib) (load : List UInt8 → Option Yaml)

/-- The call a message makes, if it makes one. -/
def callFor : Kind × List UInt8 → Option IqCall
  | (.binary, data) => iqCall data
  | (.text, _) => none

/-- The line a message prints, if it prints one. -/
def lineFor : Kind × List UInt8 → Option String
  | (.binary, _) => none
  | (.text, json) =>
    match handleTextMessage lib load json with
    | .ok line => line
    | .error _ => none

theorem handleEvent_spec {s t : ThreadState} (hcb : s.source.onIq = true) {event : Event}
    (h : handleEvent lib load s event = .ok t) :
    t.source.onIq = true ∧ t.calls = s.calls ++ (event.delivered.bind callFor).toList ∧
      t.log = s.log ++ (event.delivered.bind (lineFor lib load)).toList := by
  cases event with
  | text json =>
    simp only [handleEvent] at h
    cases htext : handleTextMessage lib load json with
    | error e =>
      rw [htext] at h
      cases h
    | ok line =>
      rw [htext] at h
      cases h
      refine ⟨hcb, (List.append_nil _).symm, ?_⟩
      simp only [Event.delivered, Option.bind_some, lineFor, htext]
  | binary data =>
    cases h
    exact ⟨(handleBinaryMessage_onIq s.source data).trans hcb,
      congrArg (fun call => s.calls ++ Option.toList call) (handleBinaryMessage_iqCall hcb data), (List.append_nil _).symm⟩
  | sendFrame opcode payload =>
    cases h
    exact ⟨hcb, (List.append_nil _).symm, (List.append_nil _).symm⟩

theorem handlers_spec {s t : ThreadState} (hcb : s.source.onIq = true) {events : List Event}
    (h : events.foldlM (handleEvent lib load) s = .ok t) :
    t.calls = s.calls ++ (events.filterMap Event.delivered).filterMap callFor ∧
      t.log = s.log ++ (events.filterMap Event.delivered).filterMap (lineFor lib load) := by
  induction events generalizing s with
  | nil =>
    cases h
    exact ⟨(List.append_nil _).symm, (List.append_nil _).symm⟩
  | cons event events ih =>
    rw [List.foldlM_cons] at h
    obtain ⟨u, hu, hrest⟩ := bind_ok h
    obtain ⟨hcb', hcalls, hlog⟩ := handleEvent_spec lib load hcb hu
    obtain ⟨hcalls', hlog'⟩ := ih hcb' hrest
    rw [hcalls', hlog', hcalls, hlog, List.append_assoc, List.append_assoc]
    cases hdelivered : event.delivered with
    | none =>
      rw [List.filterMap_cons_none hdelivered]
      exact ⟨rfl, rfl⟩
    | some message =>
      rw [List.filterMap_cons_some hdelivered]
      simp only [Option.bind_some, List.filterMap_cons]
      constructor
      · cases callFor message <;> rfl
      · cases lineFor lib load message <;> rfl

/-- The texts the loop dispatches are those of the messages. -/
theorem allHarmless_iff {pendingBytes : List UInt8} {chunks : List (List UInt8)} {ms : List Message}
    (h : (runReadLoop .both pendingBytes chunks).filterMap Event.delivered = handed ms) :
    AllHarmless lib load pendingBytes chunks ↔ ∀ m ∈ ms, m.kind = .text → Harmless lib load m.payload := by
  have hmem : ∀ payload, Event.text payload ∈ runReadLoop .both pendingBytes chunks ↔
      (Kind.text, payload) ∈ handed ms := by
    intro payload
    rw [← h, List.mem_filterMap]
    constructor
    · exact fun hevent => ⟨.text payload, hevent, rfl⟩
    · rintro ⟨event, hevent, hdelivered⟩
      cases event with
      | text payload' =>
        obtain rfl := (Prod.mk.inj (Option.some.inj hdelivered)).2
        exact hevent
      | binary payload' => cases hdelivered
      | sendFrame opcode payload' => cases hdelivered
  constructor
  · intro hall m hm hkind
    exact hall m.payload ((hmem m.payload).mpr (List.mem_map.mpr ⟨m, hm, by rw [hkind]⟩))
  · intro hall payload hevent
    obtain ⟨m, hm, heq⟩ := List.mem_map.mp ((hmem payload).mp hevent)
    obtain ⟨hkind, rfl⟩ := Prod.mk.inj heq
    exact hall m hm hkind

end

/-- A message of one sample in two fragments, an overload report, and an I/Q message that is cut off. -/
def feedScript : Script where
  messages := [
    ⟨.binary, ⟨[], ⟨[2, 0, 1], none, .short, by decide⟩⟩, [⟨[.ping ⟨[], none, .short, by decide⟩], ⟨[0, 2, 0, 9], none, .short, by decide⟩⟩]⟩,
    ⟨.text, ⟨[], ⟨[123, 125], none, .short, by decide⟩⟩, []⟩,
    ⟨.binary, ⟨[], ⟨[2, 0, 3, 0, 4, 0], none, .short, by decide⟩⟩, []⟩]
  trailing := []

end VrxServer.SdrConnect
