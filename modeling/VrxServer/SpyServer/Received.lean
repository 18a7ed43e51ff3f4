import VrxServer.SpyServer.Framing
import VrxServer.SpyServer.Log

/-! What a client reads.

A broadcast the kernel has no room for is lost, and nobody is told; a reply is always sent. As long
as every other broadcast is taken whole, what the client parses is what was taken, message by
message and in order, each with the number it had among all that were tried. So a client that
counts the numbers it misses counts what was lost (`client_reads`). -/
namespace VrxServer.SpyServer
open Base Config Dsp

/-! ### Counting what is missing -/

/-- How many numbers are missing before the last one read, for a reader that expects `next` first. -/
def missing (next : UInt32) : List UInt32 → ℕ
  | [] => 0
  | n :: ns => (n - next).toNat + missing (n + 1) ns

/-- Missing numbers and read ones together are all the numbers up to the last read. -/
theorem missing_ofNat {k last : ℕ} {is : List ℕ} (hsorted : is.Pairwise (· < ·)) (hge : ∀ i ∈ is, k ≤ i)
    (hlt : ∀ i ∈ is, i < 4294967296) (hlast : is.getLast? = some last) :
    missing (UInt32.ofNat k) (is.map UInt32.ofNat) + is.length + k = last + 1 := by
  induction is generalizing k with
  | nil => cases hlast
  | cons i is ih =>
    have hk : k ≤ i := hge i List.mem_cons_self
    have hi : i < 4294967296 := hlt i List.mem_cons_self
    have hgap : (UInt32.ofNat i - UInt32.ofNat k).toNat = i - k := by
      rw [← UInt32.ofNat_sub hk, UInt32.toNat_ofNat', Nat.mod_eq_of_lt (by omega)]
    have hnext : UInt32.ofNat i + 1 = UInt32.ofNat (i + 1) := by
      rw [UInt32.ofNat_add]
      rfl
    rw [List.map_cons, missing, hgap, hnext, List.length_cons]
    cases is with
    | nil =>
      have heq : i = last := by simpa using hlast
      simp only [List.map_nil, missing, List.length_nil]
      omega
    | cons j is =>
      have hall := ih (k := i + 1) hsorted.tail (fun j hj => List.rel_of_pairwise_cons hsorted hj)
        (fun j hj => hlt j (List.mem_cons_of_mem _ hj)) (by rw [← hlast, List.getLast?_cons_cons])
      omega

/-! ### What is taken -/

/-- The messages of which the kernel took something, with their numbers. -/
def arrived (ms : List Message) (sends : List Sent) : List (ℕ × Message) :=
  (((ms.mapIdx Prod.mk).zip sends).filter fun p => p.2.accepted != 0).map Prod.fst

/-- A send the client can read past: all of a message of a length its header can say, or nothing of
an IQ message. -/
def Taken (m : Message) (a : Sent) : Prop :=
  (a.accepted = a.buf.length ∧ m.body.length < 4294967296) ∨ (a.accepted = 0 ∧ m.isIq = true)

/-- A message as the client reads it. -/
def Message.read (p : ℕ × Message) : List UInt8 × List UInt8 := ((p.2.header p.1).bytes, p.2.body)

theorem arrived_concat {ms : List Message} {sends : List Sent} (hlen : ms.length = sends.length) (m : Message)
    (a : Sent) : arrived (ms ++ [m]) (sends ++ [a]) =
      arrived ms sends ++ if a.accepted = 0 then [] else [(ms.length, m)] := by
  have hzip : (ms.mapIdx Prod.mk).length = sends.length := by rw [List.length_mapIdx, hlen]
  rw [arrived, List.mapIdx_concat, List.zip_append hzip, List.filter_append, List.map_append]
  congr 1
  split
  · next h => simp [h]
  · next h => simp [h]

theorem mem_arrived (ms : List Message) (sends : List Sent) (i : ℕ) (m : Message) :
    (i, m) ∈ arrived ms sends ↔ ms[i]? = some m ∧ ∃ a, sends[i]? = some a ∧ a.accepted ≠ 0 := by
  constructor
  · intro h
    obtain ⟨⟨p, a⟩, hmem, rfl⟩ := List.mem_map.mp h
    obtain ⟨hzip, haccepted⟩ := List.mem_filter.mp hmem
    obtain ⟨j, hj⟩ := List.getElem?_of_mem hzip
    obtain ⟨hp, ha⟩ := List.getElem?_zip_eq_some.mp hj
    rw [List.getElem?_mapIdx] at hp
    obtain ⟨m', hm', hp⟩ := Option.map_eq_some_iff.mp hp
    obtain ⟨rfl, rfl⟩ := Prod.mk.inj hp
    exact ⟨hm', a, ha, by simpa using haccepted⟩
  · intro h
    obtain ⟨hm, a, ha, haccepted⟩ := h
    refine List.mem_map.mpr ⟨((i, m), a), List.mem_filter.mpr ⟨?_, by simpa using haccepted⟩, rfl⟩
    refine List.mem_of_getElem? (i := i) (List.getElem?_zip_eq_some.mpr ⟨?_, ha⟩)
    rw [List.getElem?_mapIdx, hm]
    rfl

/-- They come in the order they were sent. -/
theorem arrived_sorted (ms : List Message) (sends : List Sent) :
    ((arrived ms sends).map Prod.fst).Pairwise (· < ·) := by
  have hall : ((ms.mapIdx Prod.mk).zip sends).Pairwise fun p q => p.1.1 < q.1.1 := by
    rw [List.pairwise_iff_getElem]
    intro i j hi hj hij
    simpa only [List.getElem_zip, List.getElem_mapIdx] using hij
  rw [arrived, List.pairwise_map, List.pairwise_map]
  exact hall.filter _

/-- What is not taken is lost. -/
theorem length_arrived {ms : List Message} {sends : List Sent} (hlen : ms.length = sends.length) :
    (arrived ms sends).length + sends.countP (fun a => a.accepted == 0) = sends.length := by
  have hsnd : ((ms.mapIdx Prod.mk).zip sends).map Prod.snd = sends := by
    apply List.map_snd_zip
    rw [List.length_mapIdx, hlen]
  have hcount : (arrived ms sends).length = sends.countP fun a => a.accepted != 0 := by
    rw [arrived, List.length_map, ← List.countP_eq_length_filter]
    conv_rhs => rw [← hsnd, List.countP_map]
    rfl
  rw [hcount, List.length_eq_countP_add_countP (fun a => a.accepted != 0)]
  congr 2
  funext a
  simp [beq_eq_decide]

/-- The message read last has as many before it as were read or lost. -/
theorem last_arrived {ms : List Message} {sends : List Sent} (hlen : ms.length = sends.length) {i : ℕ} {m : Message}
    (hlast : (arrived ms sends).getLast? = some (i, m)) :
    (arrived ms sends).length + (sends.take i).countP (fun a => a.accepted == 0) = i + 1 := by
  induction sends using List.reverseRecOn generalizing ms with
  | nil => simp [arrived] at hlast
  | append_singleton sends a ih =>
    obtain ⟨front, m', rfl⟩ : ∃ front m', ms = front ++ [m'] := by
      have hne : ms ≠ [] := by
        rintro rfl
        simp at hlen
      exact ⟨_, _, (List.dropLast_append_getLast hne).symm⟩
    have hfront : front.length = sends.length := by simpa using hlen
    rw [arrived_concat hfront] at hlast ⊢
    by_cases hnone : a.accepted = 0
    · rw [if_pos hnone, List.append_nil] at hlast ⊢
      have hi : i ≤ sends.length := by
        obtain ⟨hm, -⟩ := (mem_arrived _ _ _ _).mp (List.mem_of_getLast? hlast)
        rw [← hfront]
        exact (List.getElem?_eq_some_iff.mp hm).1.le
      rw [List.take_append_of_le_length hi]
      exact ih hfront hlast
    · rw [if_neg hnone] at hlast ⊢
      have hi : front.length = i := by simpa using congrArg (Option.map Prod.fst) hlast
      have hall := length_arrived hfront
      rw [List.length_append, List.length_singleton, ← hi, hfront, List.take_left]
      omega

/-! ### What is parsed -/

theorem drain_nil : clientDecoder.drain [] = ⟨[], [], none⟩ := rfl

/-- One message is one item of the client's parser. -/
theorem drain_buffer (i : ℕ) {m : Message} (hbody : m.body.length < 4294967296) :
    clientDecoder.drain (m.buffer i) = ⟨[Message.read (i, m)], [], none⟩ := by
  have hread : readU32 (m.header i).bytes 16 = some (UInt32.ofNat m.body.length) := by
    have hsize := readU32_bodySize (m.header i) []
    rwa [List.append_nil] at hsize
  have hnext := next_whole ⟨_, m.body, MessageHeader.length_bytes _, hread, hbody⟩
  have hdrain : clientDecoder.drain (m.buffer i ++ []) = _ := Decoder.drain_item_append hnext rfl
  rw [List.append_nil, drain_nil] at hdrain
  exact hdrain

/-- The client parses what is taken, message by message. -/
theorem drain_arrived {ms : List Message} {sends : List Sent} (hbuf : sends.map Sent.buf = numbered ms)
    (htaken : List.Forall₂ Taken ms sends) :
    clientDecoder.drain (wireOf sends) = ⟨(arrived ms sends).map Message.read, [], none⟩ := by
  induction sends using List.reverseRecOn generalizing ms with
  | nil =>
    obtain rfl := List.forall₂_nil_right_iff.mp htaken
    rfl
  | append_singleton sends a ih =>
    obtain ⟨m, hm, hback⟩ : ∃ m, ms.drop sends.length = [m] ∧ Taken m a := by
      obtain ⟨m, back, hm, hnil, hdrop⟩ := List.forall₂_cons_right_iff.mp (List.forall₂_drop_append _ _ _ htaken)
      obtain rfl := List.forall₂_nil_right_iff.mp hnil
      exact ⟨m, hdrop, hm⟩
    have hfront : List.Forall₂ Taken (ms.take sends.length) sends := List.forall₂_take_append _ _ _ htaken
    have hlen : (ms.take sends.length).length = sends.length := hfront.length_eq
    have hsplit : ms = ms.take sends.length ++ [m] := by rw [← hm, List.take_append_drop]
    generalize ms.take sends.length = front at hfront hlen hsplit
    subst hsplit
    rw [numbered_concat, List.map_append] at hbuf
    obtain ⟨hbuf, hlast⟩ := List.append_inj' hbuf rfl
    have hmessage : a.buf = m.buffer front.length := by simpa using hlast
    have hwire : wireOf (sends ++ [a]) = wireOf sends ++ a.buf.take a.accepted := by simp [wireOf]
    rw [hwire, Decoder.drain_append, ih hbuf hfront, arrived_concat hlen, List.map_append]
    simp only [Decoder.resume, List.nil_append]
    obtain ⟨hall, hbody⟩ | ⟨hnone, -⟩ := hback
    · have hsome : a.accepted ≠ 0 := by
        rw [hall, hmessage, Message.buffer, List.length_append, MessageHeader.length_bytes]
        omega
      rw [if_neg hsome, hall, List.take_length, hmessage, drain_buffer _ hbody]
      rfl
    · rw [hnone, if_pos rfl, List.take_zero, drain_nil]
      rfl

/-- A reply is among what is taken. -/
theorem reply_arrived {ms : List Message} {sends : List Sent} (hbuf : sends.map Sent.buf = numbered ms)
    (htaken : List.Forall₂ Taken ms sends) {i : ℕ} {m : Message} (hm : ms[i]? = some m) (hreply : m.isIq = false) :
    (i, m) ∈ arrived ms sends := by
  obtain ⟨hi, rfl⟩ := List.getElem?_eq_some_iff.mp hm
  have hi' : i < sends.length := htaken.length_eq ▸ hi
  refine (mem_arrived ..).mpr ⟨hm, sends[i], List.getElem?_eq_getElem hi', ?_⟩
  have hmessage : sends[i].buf = ms[i].buffer i := by
    have hget := congrArg (fun bufs => bufs[i]?) hbuf
    rw [numbered, List.getElem?_map, List.getElem?_mapIdx, hm, List.getElem?_eq_getElem hi'] at hget
    exact Option.some.inj hget
  obtain ⟨hall, -⟩ | ⟨-, hiq⟩ : Taken ms[i] sends[i] := htaken.get hi hi'
  · rw [hall, hmessage, Message.buffer, List.length_append, MessageHeader.length_bytes]
    omega
  · rw [hreply] at hiq
    cases hiq

/-! ### Runs -/

namespace Logged
variable {K : Type} [Field K] [LinearOrder K] [FloorRing K] (P : Platform K)

/-- A broadcast to the client, while it streams, is taken whole or not at all, and its length fits
into a header. -/
def Whole (fd : ℕ) (l : Logged K) : Event → Prop
  | .broadcast data outcome => ∀ c, l.session.server.clients.lookup fd = some c → c.streams = true →
      data.length < 4294967296 ∧ (outcome fd = 0 ∨ 20 + data.length ≤ outcome fd)
  | .accept _ | .command _ _ | .proceed _ | .disconnect _ => True

/-- A section's sends are its messages, all of them taken. -/
theorem taken_section (vrx : VirtualReceiver K) (sec : Section) (c : ClientState) :
    List.Forall₂ Taken (sec.messages P vrx) (sec.sends P vrx (some c)) := by
  unfold Section.messages Section.sends
  cases sec.reply P vrx with
  | none => exact .nil
  | some r => exact .cons (.inl ⟨rfl, r.2.lt⟩) .nil

theorem taken_broadcast {data : List UInt8} {outcome : ℕ} (c : Option ClientState)
    (h : ∀ st, c = some st → st.streams = true →
      data.length < 4294967296 ∧ (outcome = 0 ∨ 20 + data.length ≤ outcome)) :
    List.Forall₂ Taken (iqMessages data c) (iqSends data outcome c) := by
  cases c with
  | none => exact .nil
  | some st =>
    simp only [iqMessages, iqSends]
    split
    · next hstreams =>
      obtain ⟨hlen, rfl | hwhole⟩ := h st rfl hstreams
      · exact .cons (.inr ⟨Nat.zero_min _, rfl⟩) .nil
      · refine .cons (.inl ⟨?_, hlen⟩) .nil
        rw [Nat.min_eq_right hwhole, List.length_append, MessageHeader.length_bytes]
    · exact .nil

/-- The sends a step adds are those of the messages it adds. -/
theorem taken_step {fd : ℕ} (l : Logged K) (e : Event) (t : Logged K)
    (h : List.Forall₂ Taken (l.messages fd) (l.session.server.sent fd)) (he : Whole fd l e)
    (hstep : (machine P).step l e = some t) : List.Forall₂ Taken (t.messages fd) (t.session.server.sent fd) := by
  rw [step_messages P hstep]
  obtain ⟨s, hs, rfl⟩ := Option.map_eq_some_iff.mp hstep
  have hsame : List.Forall₂ Taken (appendTo (l.messages fd) (some [])) (l.session.server.sent fd) := by
    rwa [appendTo, List.append_nil]
  cases e with
  | broadcast data outcome =>
    obtain rfl := Option.some.inj hs
    rw [Server.apply_sent]
    exact List.rel_append h (taken_broadcast _ he)
  | command g cmd =>
    rw [Session.step] at hs
    split at hs
    · obtain rfl := Option.some.inj hs
      exact hsame
    · cases hs
  | disconnect g =>
    rw [Session.step] at hs
    split at hs
    · obtain rfl := Option.some.inj hs
      exact hsame
    · cases hs
  | accept g =>
    rw [Session.step] at hs
    split at hs
    · obtain rfl := Option.some.inj hs
      simp only [Server.apply_sent, Op.opens, Op.sends, Session.messages, List.append_nil, beq_iff_eq]
      split
      · exact .nil
      · exact hsame
    · cases hs
  | proceed g =>
    rw [Session.step] at hs
    split at hs
    · next sec rest hbusy =>
      obtain rfl := Option.some.inj hs
      simp only [Server.apply_sent, Op.opens, Session.perform_sends, Session.messages, Bool.false_eq_true, if_false]
      by_cases hg : fd = g
      · subst hg
        rw [if_pos rfl, if_pos rfl, hbusy]
        cases hc : l.session.server.clients.lookup fd with
        | none =>
          rw [Session.sends_none, List.append_nil]
          exact hsame
        | some c => exact List.rel_append h (taken_section P _ sec c)
      · rw [if_neg hg, if_neg hg, List.append_nil]
        exact hsame
    · cases hs

/-- The numbers a client reads. -/
def numbersRead (stream : List UInt8) : List UInt32 :=
  (clientDecoder.drain stream).items.filterMap fun item => readU32 item.1 12

theorem readU32_read (p : ℕ × Message) : readU32 (Message.read p).1 12 = some (UInt32.ofNat p.1) := by
  have hread := readU32_sequenceNumber (p.2.header p.1) []
  rwa [List.append_nil] at hread

theorem Sound.start (vrx : VirtualReceiver K) (fd : ℕ) : Sound P vrx fd (initial vrx) where
  retuned := rfl
  logs := {
    alive := by simp [initial, Session.conn, Session.initial, Server.initial]
    sent_eq := rfl
    next := by simp [initial, Session.conn, Session.initial, Server.initial]
    replies := ⟨[], .nil, rfl⟩ }

/-- **What a client reads are the messages that were taken**, whole and in order, every reply among
them; and from their numbers it can tell how many broadcasts were lost before the last one. -/
theorem client_reads (vrx : VirtualReceiver K) (fd : ℕ) (evs : List Event) (l : Logged K)
    (hrun : (machine P).run (initial vrx) evs = some l)
    (hwhole : (machine P).Allowed (Whole fd) (initial vrx) evs) :
    clientDecoder.drain (l.session.server.wire fd) =
        ⟨(arrived (l.messages fd) (l.session.server.sent fd)).map Message.read, [], none⟩ ∧
      (∀ i m, (l.messages fd)[i]? = some m → m.isIq = false →
        (i, m) ∈ arrived (l.messages fd) (l.session.server.sent fd)) ∧
      ((l.messages fd).length ≤ 4294967296 →
        ∀ i m, (arrived (l.messages fd) (l.session.server.sent fd)).getLast? = some (i, m) →
          missing 0 (numbersRead (l.session.server.wire fd)) =
            ((l.session.server.sent fd).take i).countP fun a => a.accepted == 0) := by
  have hsound := Machine.invariant (Sound.step P) hrun (Sound.start P vrx fd)
  have htaken : List.Forall₂ Taken (l.messages fd) (l.session.server.sent fd) :=
    Machine.always_of_allowed (taken_step P) .nil hwhole evs l (List.prefix_refl _) hrun
  have hbuf : (l.session.server.sent fd).map Sent.buf = numbered (l.messages fd) := hsound.logs.sent_eq
  have hdrain := drain_arrived hbuf htaken
  refine ⟨hdrain, fun i m => reply_arrived hbuf htaken, fun hfew i m hlast => ?_⟩
  have hnumbers : numbersRead (l.session.server.wire fd) =
      ((arrived (l.messages fd) (l.session.server.sent fd)).map Prod.fst).map UInt32.ofNat := by
    rw [numbersRead, Server.wire, hdrain, List.filterMap_map, List.map_map, ← List.filterMap_eq_map]
    congr 1
    funext p
    exact readU32_read p
  have hlt : ∀ i ∈ (arrived (l.messages fd) (l.session.server.sent fd)).map Prod.fst, i < 4294967296 := by
    intro i hi
    obtain ⟨p, hp, rfl⟩ := List.mem_map.mp hi
    have hm := ((mem_arrived _ _ p.1 p.2).mp hp).1
    have := (List.getElem?_eq_some_iff.mp hm).1
    omega
  have hmissing := missing_ofNat (arrived_sorted _ _) (fun i _ => Nat.zero_le i) hlt
    (by rw [List.getLast?_map, hlast]; rfl)
  have hall := last_arrived htaken.length_eq hlast
  rw [List.length_map] at hmissing
  rw [hnumbers]
  show missing (UInt32.ofNat 0) _ = _
  omega

/-- A client that streams: of two blocks one is lost, and a ping follows. -/
def lossySteps : List Event :=
  streamingSteps ++
    [.broadcast [127, 129] fun _ => 0, .broadcast [128, 130] fun _ => 22, .command 4 (3, []), .proceed 4]

theorem client_reads_lossy :
    ∃ l, (machine Platform.sample).run (initial VirtualReceiver.sample) lossySteps = some l ∧
      missing 0 (numbersRead (l.session.server.wire 4)) =
        ((l.session.server.sent 4).take 4).countP fun a => a.accepted == 0 := by
  refine ⟨_, rfl, ?_⟩
  have hwhole : (machine Platform.sample).Allowed (Whole 4) (initial VirtualReceiver.sample) lossySteps := by
    apply Machine.allowed_of_forall
    intro e he t
    simp only [lossySteps, streamingSteps, List.cons_append, List.nil_append, List.mem_cons, List.not_mem_nil,
      or_false] at he
    rcases he with rfl | rfl | rfl | rfl | rfl | rfl | rfl | rfl | rfl | rfl | rfl
    all_goals try trivial
    · exact fun _ _ _ => ⟨by decide, .inl rfl⟩
    · exact fun _ _ _ => ⟨by decide, .inr (by decide)⟩
  exact (client_reads Platform.sample VirtualReceiver.sample 4 lossySteps _ rfl hwhole).2.2 (by decide) 4
    ⟨kMsgTypePong, 0, []⟩ rfl

end Logged

end VrxServer.SpyServer
