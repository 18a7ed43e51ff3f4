import VrxServer.Base.Run
import VrxServer.SdrConnect.Connect

/-! What two threads send on one socket.

Behind the messages of `connect` the read thread answers every Ping with a Pong, and the thread
that calls `close` sends a Close frame. Either frame goes out in as many calls of `send` as it
takes, and nothing keeps one thread out of the other's frame. Whatever the order, no more is
answered than was asked, and in that order; and the server can make out all that was sent, at any
time, exactly if no call sends inside the other thread's frame and none fails inside its own
(`uplink_always_iff`). -/
namespace VrxServer.SdrConnect
open Base WebSocket

inductive Sender where
  /-- The read thread. -/
  | reader
  /-- The thread that calls `close`. -/
  | closer
  deriving DecidableEq

def Sender.opcode : Sender → UInt8
  | .reader => 0xA
  | .closer => 0x8

theorem Sender.opcode_injective : ∀ {u v : Sender}, u.opcode = v.opcode → u = v
  | .reader, .reader, _ => rfl
  | .closer, .closer, _ => rfl
  | .reader, .closer, h => absurd h (by decide)
  | .closer, .reader, h => absurd h (by decide)

/-- A frame that a thread is sending, and how many of its bytes are out. -/
structure Sending where
  frame : Frame
  bytes : List UInt8
  sent : ℕ

/-- `sendFrame`, before its first call of `send`. -/
def Sending.start (opcode : UInt8) (payload : List UInt8) (mask : Fin 4 → UInt8) : Sending :=
  ⟨⟨true, opcode, payload⟩, frameBytes opcode payload mask, 0⟩

/-- The bytes that are out. -/
def Sending.out (f : Sending) : List UInt8 := f.bytes.take f.sent

/-- The bytes on the wire behind the upgrade, and what the threads are at. -/
structure Uplink where
  wire : List UInt8
  /-- The payloads of the Pings the read loop is still to come to. -/
  pings : List (List UInt8)
  closeCalled : Bool
  inHand : Sender → Option Sending
  /-- The frames whose last byte is out. -/
  finished : List Frame

inductive UplinkEvent where
  /-- The read loop comes to the next Ping. -/
  | pong (mask : Fin 4 → UInt8)
  | close (mask : Fin 4 → UInt8)
  /-- A call of `send` that returns `n`. -/
  | send (u : Sender) (n : ℤ)

namespace Uplink

def initial (wire : List UInt8) (pings : List (List UInt8)) : Uplink := ⟨wire, pings, false, fun _ => none, []⟩

/-- A call of `send` in `sendAll`; after one that fails, the rest of the frame is not sent. -/
def send (s : Uplink) (u : Sender) (f : Sending) (n : ℤ) : Uplink :=
  if n ≤ 0 then {s with inHand := Function.update s.inHand u none}
  else if f.sent + n.toNat < f.bytes.length then
    {s with
      wire := s.wire ++ (f.bytes.drop f.sent).take n.toNat
      inHand := Function.update s.inHand u (some {f with sent := f.sent + n.toNat})}
  else
    {s with
      wire := s.wire ++ f.bytes.drop f.sent
      inHand := Function.update s.inHand u none
      finished := s.finished ++ [f.frame]}

def step (s : Uplink) : UplinkEvent → Option Uplink
  | .pong mask =>
    match s.inHand .reader, s.pings with
    | none, payload :: pings => some {s with
        pings := pings
        inHand := Function.update s.inHand .reader (some (Sending.start 0xA payload mask))}
    | _, _ => none
  | .close mask =>
    if s.closeCalled then none
    else some {s with
      closeCalled := true
      inHand := Function.update s.inHand .closer (some (Sending.start 0x8 [] mask))}
  | .send u n => (s.inHand u).map fun f => s.send u f n

def machine : Machine Uplink UplinkEvent := ⟨step⟩

/-! ### What the server makes of it -/

/-- A decoder that goes on behind a Close. -/
def serverDecoder : Decoder UInt8 Frame := {decoder with last := fun _ => false}

/-- What is out of the frames that are not finished. -/
def part (s : Uplink) : List UInt8 :=
  (s.inHand .reader).elim [] Sending.out ++ (s.inHand .closer).elim [] Sending.out

/-- One frame at most is half out. -/
def Alone (s : Uplink) : Prop :=
  ∀ u v f g, s.inHand u = some f → s.inHand v = some g → 0 < f.sent → 0 < g.sent → u = v

/-- Behind what was `said` before, the server reads the frames that are finished, and keeps what is
out of one more. -/
structure Framed (said : List Frame) (s : Uplink) : Prop where
  alone : s.Alone
  reads : serverDecoder.drain s.wire = ⟨said ++ s.finished, s.part, none⟩

/-- While a frame is half out, its own thread's calls send and the other's do not. -/
def Orderly (s : Uplink) : UplinkEvent → Prop
  | .send u n => ∀ v f, s.inHand v = some f → 0 < f.sent → (v = u ↔ 0 < n)
  | _ => True

/-- The payloads of the Pongs that are finished, and of the one in hand. -/
def pongs (s : Uplink) : List (List UInt8) :=
  ((s.finished.filter fun f => f.opcode = 0xA) ++ (s.inHand .reader).toList.map Sending.frame).map Frame.payload

/-- The Close frames that are finished, and the one in hand. -/
def closes (s : Uplink) : List Frame :=
  (s.finished.filter fun f => f.opcode = 0x8) ++ (s.inHand .closer).toList.map Sending.frame

/-- What the threads send, whatever comes of it. -/
structure Sound (pings : List (List UInt8)) (s : Uplink) : Prop where
  whole : ∀ u f, s.inHand u = some f →
    nextFrame f.bytes = .item f.frame f.bytes.length ∧ f.sent < f.bytes.length ∧ f.frame.opcode = u.opcode
  short : ∀ payload ∈ s.pings, payload.length < 2 ^ 63
  answered : (s.pongs ++ s.pings).Sublist pings
  closed : s.closes.length ≤ s.closeCalled.toNat
  known : ∀ f ∈ s.finished, f.opcode = 0xA ∨ f.opcode = 0x8

theorem part_of {s : Uplink} {u : Sender} (h : ∀ v f, s.inHand v = some f → 0 < f.sent → v = u) :
    s.part = (s.inHand u).elim [] Sending.out := by
  have hother : ∀ v, v ≠ u → (s.inHand v).elim [] Sending.out = [] := by
    intro v hv
    cases hf : s.inHand v with
    | none => rfl
    | some f =>
      have hzero : f.sent = 0 := by
        by_contra hpos
        exact hv (h v f hf (Nat.pos_of_ne_zero hpos))
      rw [Option.elim_some, Sending.out, hzero, List.take_zero]
  cases u with
  | reader => rw [part, hother .closer nofun, List.append_nil]
  | closer => rw [part, hother .reader nofun, List.nil_append]

/-- Two frames that begin with the same byte have the same opcode. -/
theorem opcode_of_head {a b : List UInt8} {f g : Frame} {m n : ℕ} (ha : nextFrame a = .item f m)
    (hb : nextFrame b = .item g n) (hhead : a.head? = b.head?) : f.opcode = g.opcode := by
  have hopcode : ∀ {buf : List UInt8} {f : Frame} {n : ℕ}, nextFrame buf = .item f n →
      f.opcode = buf.head?.getD 0 &&& 0x0F := by
    intro buf f n h
    obtain ⟨hd, hh, -, -, rfl, -⟩ := nextFrame_item.mp h
    unfold frameHeader at hh
    split at hh
    · cases hh
    · dsimp only at hh
      split at hh
      · cases hh
      · cases hh
        cases buf <;> rfl
  rw [hopcode ha, hopcode hb, hhead]

theorem sound_initial (wire : List UInt8) {pings : List (List UInt8)} (h : ∀ payload ∈ pings, payload.length < 2 ^ 63) :
    Sound pings (initial wire pings) :=
  ⟨nofun, h, List.Sublist.refl pings, Nat.zero_le _, nofun⟩

namespace Sound
variable {pings : List (List UInt8)} {s t : Uplink}

theorem pong (h : s.Sound pings) {mask : Fin 4 → UInt8} (hstep : machine.step s (.pong mask) = some t) :
    t.Sound pings := by
  simp only [machine, step] at hstep
  split at hstep
  · next payload rest hreader hpings =>
    obtain rfl := Option.some.inj hstep
    have hshort := h.short
    rw [hpings, List.forall_mem_cons] at hshort
    have hanswered := h.answered
    refine ⟨?_, hshort.2, ?_, h.closed, h.known⟩
    · intro u f hf
      cases u with
      | reader =>
        have hf : Function.update s.inHand .reader (some (Sending.start 0xA payload mask)) .reader = some f := hf
        rw [Function.update_self] at hf
        obtain rfl := Option.some.inj hf
        have hnext := nextFrame_frameBytes 0xA payload mask (by decide) hshort.1
        exact ⟨hnext, (nextFrame_size hnext).1, rfl⟩
      | closer => exact h.whole .closer f hf
    · rw [pongs, hreader, hpings] at hanswered
      simpa [pongs, Sending.start] using hanswered
  · cases hstep

theorem closes_nil (h : s.Sound pings) (hcalled : ¬ s.closeCalled = true) : s.closes = [] := by
  have hclosed := h.closed
  rw [Bool.eq_false_of_not_eq_true hcalled] at hclosed
  exact List.length_eq_zero_iff.mp (Nat.le_zero.mp hclosed)

theorem close (h : s.Sound pings) {mask : Fin 4 → UInt8} (hstep : machine.step s (.close mask) = some t) :
    t.Sound pings := by
  simp only [machine, step] at hstep
  split at hstep
  · cases hstep
  · next hcalled =>
    obtain rfl := Option.some.inj hstep
    obtain ⟨hfinished, -⟩ := List.append_eq_nil_iff.mp (h.closes_nil hcalled)
    refine ⟨?_, h.short, h.answered, ?_, h.known⟩
    · intro u f hf
      cases u with
      | reader => exact h.whole .reader f hf
      | closer =>
        have hf : Function.update s.inHand .closer (some (Sending.start 0x8 [] mask)) .closer = some f := hf
        rw [Function.update_self] at hf
        obtain rfl := Option.some.inj hf
        have hnext := nextFrame_frameBytes 0x8 [] mask (by decide) (by simp)
        exact ⟨hnext, (nextFrame_size hnext).1, rfl⟩
    · simp [closes, hfinished]

/-- A frame leaves a thread's hand, finished or not. -/
theorem whole_without (h : s.Sound pings) (u : Sender) : ∀ v g, Function.update s.inHand u none v = some g →
    nextFrame g.bytes = .item g.frame g.bytes.length ∧ g.sent < g.bytes.length ∧ g.frame.opcode = v.opcode := by
  intro v g hg
  rw [Function.update_apply] at hg
  split at hg
  · cases hg
  · exact h.whole v g hg

theorem send (h : s.Sound pings) {u : Sender} {f : Sending} (hf : s.inHand u = some f) (n : ℤ) :
    (s.send u f n).Sound pings := by
  obtain ⟨hnext, hsent, hopcode⟩ := h.whole u f hf
  have hanswered := h.answered
  have hclosed := h.closed
  unfold Uplink.send
  split
  · refine ⟨h.whole_without u, h.short, ?_, ?_, h.known⟩
    · refine List.Sublist.trans ?_ hanswered
      refine List.Sublist.append_right (List.Sublist.map _ (List.Sublist.append_left ?_ _)) _
      cases u with
      | reader => simp
      | closer => simp
    · refine (List.Sublist.length_le (List.Sublist.append_left ?_ _)).trans hclosed
      cases u with
      | reader => simp
      | closer => simp
  · split
    · next hmore =>
      have hframes : ∀ v, (Function.update s.inHand u (some {f with sent := f.sent + n.toNat}) v).map Sending.frame =
          (s.inHand v).map Sending.frame := by
        intro v
        rw [Function.update_apply]
        split
        · next hv => rw [hv, hf]; rfl
        · rfl
      refine ⟨?_, h.short, ?_, ?_, h.known⟩
      · intro v g hg
        have hg : Function.update s.inHand u (some {f with sent := f.sent + n.toNat}) v = some g := hg
        rw [Function.update_apply] at hg
        split at hg
        · next hv =>
          obtain rfl := Option.some.inj hg
          exact ⟨hnext, hmore, hv ▸ hopcode⟩
        · exact h.whole v g hg
      · simpa only [pongs, ← Option.toList_map, hframes] using hanswered
      · simpa only [closes, ← Option.toList_map, hframes] using hclosed
    · refine ⟨h.whole_without u, h.short, ?_, ?_, ?_⟩
      · cases u with
        | reader => simpa [pongs, hf, hopcode, Sender.opcode] using hanswered
        | closer => simpa [pongs, hopcode, Sender.opcode] using hanswered
      · cases u with
        | reader => simpa [closes, hopcode, Sender.opcode] using hclosed
        | closer => simpa [closes, hf, hopcode, Sender.opcode] using hclosed
      · intro g hg
        rcases List.mem_append.mp hg with hg | hg
        · exact h.known g hg
        · rw [List.mem_singleton.mp hg, hopcode]
          cases u with
          | reader => exact .inl rfl
          | closer => exact .inr rfl

theorem step (s : Uplink) (event : UplinkEvent) (t : Uplink) (h : s.Sound pings) (hstep : machine.step s event = some t) :
    t.Sound pings := by
  cases event with
  | pong mask => exact h.pong hstep
  | close mask => exact h.close hstep
  | send u n =>
    obtain ⟨f, hf, rfl⟩ := Option.map_eq_some_iff.mp hstep
    exact h.send hf n

end Sound

/-! ### When the server can make it out -/

section Framed
variable {said : List Frame} {pings : List (List UInt8)} {s t : Uplink} {u v : Sender} {f g : Sending}

/-- A thread takes a frame in hand, or lets go of one, of which nothing is out. -/
theorem Framed.front (h : s.Framed said) (u : Sender) {x : Option Sending} (hnew : ∀ g, x = some g → g.sent = 0)
    (hold : ∀ g, s.inHand u = some g → g.sent = 0) (hwire : t.wire = s.wire)
    (hhand : t.inHand = Function.update s.inHand u x) (hfinished : t.finished = s.finished) : t.Framed said := by
  have hout : ∀ y : Option Sending, (∀ g, y = some g → g.sent = 0) → y.elim [] Sending.out = [] := by
    intro y hy
    cases y with
    | none => rfl
    | some g => rw [Option.elim_some, Sending.out, hy g rfl, List.take_zero]
  have hsame : ∀ v, (t.inHand v).elim [] Sending.out = (s.inHand v).elim [] Sending.out := by
    intro v
    rw [hhand, Function.update_apply]
    split
    · next hv => rw [hv, hout _ hnew, hout _ hold]
    · rfl
  have hhalf : ∀ v g, t.inHand v = some g → 0 < g.sent → s.inHand v = some g := by
    intro v g hg hpos
    rw [hhand, Function.update_apply] at hg
    split at hg
    · exact absurd (hnew g hg) (Nat.ne_of_gt hpos)
    · exact hg
  refine ⟨fun v w f g hf hg hfpos hgpos => h.alone v w f g (hhalf v f hf hfpos) (hhalf w g hg hgpos) hfpos hgpos, ?_⟩
  rw [hwire, hfinished, h.reads, part, part, hsame, hsame]

/-- Where only this thread's frame can be half out, the server keeps what is out of it. -/
theorem Framed.drain_append (h : s.Framed said) (honly : ∀ v f, s.inHand v = some f → 0 < f.sent → v = u)
    (more : List UInt8) :
    serverDecoder.drain (s.wire ++ more) =
      {serverDecoder.drain ((s.inHand u).elim [] Sending.out ++ more) with
        items := said ++ s.finished ++ (serverDecoder.drain ((s.inHand u).elim [] Sending.out ++ more)).items} := by
  rw [Decoder.drain_append, h.reads, part_of honly]
  rfl

/-- A thread sends on while no other frame is half out. -/
theorem Framed.send (h : s.Framed said) (hsound : s.Sound pings) (hf : s.inHand u = some f) {n : ℤ} (hn : 0 < n)
    (honly : ∀ v g, s.inHand v = some g → 0 < g.sent → v = u) : (s.send u f n).Framed said := by
  obtain ⟨hnext, hsent, -⟩ := hsound.whole u f hf
  have hbytes : serverDecoder.next f.bytes = .item f.frame f.bytes.length := hnext
  have honly' : ∀ x v g, Function.update s.inHand u x v = some g → 0 < g.sent → v = u := by
    intro x v g hg hpos
    rw [Function.update_apply] at hg
    split at hg
    · assumption
    · exact honly v g hg hpos
  have halone : ∀ x v w f g, Function.update s.inHand u x v = some f → Function.update s.inHand u x w = some g →
      0 < f.sent → 0 < g.sent → v = w :=
    fun x v w f g hf hg hfpos hgpos => (honly' x v f hf hfpos).trans (honly' x w g hg hgpos).symm
  unfold Uplink.send
  rw [if_neg (by omega)]
  split
  · next hmore =>
    refine ⟨halone _, ?_⟩
    rw [part_of (honly' _)]
    show serverDecoder.drain (s.wire ++ _) = ⟨_, (Function.update s.inHand u _ u).elim [] Sending.out, none⟩
    have hout : f.out ++ (f.bytes.drop f.sent).take n.toNat = f.bytes.take (f.sent + n.toNat) := List.take_add.symm
    have hcut : serverDecoder.next (f.bytes.take (f.sent + n.toNat)) = .more := by
      refine Decoder.next_cut hbytes (List.take_append_drop _ _) ?_
      rw [Ne, List.drop_eq_nil_iff]
      omega
    rw [h.drain_append honly, hf, Option.elim_some, hout, Decoder.drain_more hcut, Function.update_self,
      List.append_nil]
    rfl
  · refine ⟨halone _, ?_⟩
    rw [part_of (honly' _)]
    show serverDecoder.drain (s.wire ++ _) = ⟨_, (Function.update s.inHand u _ u).elim [] Sending.out, none⟩
    have hout : f.out ++ f.bytes.drop f.sent = f.bytes := List.take_append_drop _ _
    have hwhole : serverDecoder.drain f.bytes = ⟨[f.frame], [], none⟩ := by
      have hdrain : serverDecoder.drain (f.bytes ++ []) = _ := Decoder.drain_item_append hbytes rfl
      rw [List.append_nil] at hdrain
      rw [hdrain, Decoder.drain_more rfl]
    rw [h.drain_append honly, hf, Option.elim_some, hout, hwhole, Function.update_self, List.append_assoc]
    rfl

/-- A call that sends inside another thread's frame leaves the server with what it cannot make out. -/
theorem Framed.intruded (h : s.Framed said) (hsound : s.Sound pings) (hf : s.inHand u = some f)
    (hg : s.inHand v = some g) (hhalf : 0 < g.sent) (hvu : v ≠ u) {n : ℤ} (hn : 0 < n) :
    ¬ (s.send u f n).Framed said := by
  obtain ⟨hnext, hsent, hopcode⟩ := hsound.whole u f hf
  obtain ⟨hother, hless, hopcode'⟩ := hsound.whole v g hg
  have hfront : f.sent = 0 := by
    by_contra hpos
    exact hvu (h.alone v u g f hg hf hhalf (Nat.pos_of_ne_zero hpos))
  have honly : ∀ w k, s.inHand w = some k → 0 < k.sent → w = v :=
    fun w k hk hpos => h.alone w v k g hk hg hpos hhalf
  intro ht
  unfold Uplink.send at ht
  rw [if_neg (by omega)] at ht
  split at ht
  · refine hvu (ht.alone v u g _ ?_ (Function.update_self ..) hhalf ?_)
    · exact (Function.update_of_ne hvu ..).trans hg
    · show 0 < f.sent + n.toNat
      omega
  · have hreads := congrArg Drained.items ht.reads
    have hall : f.bytes.drop f.sent = f.bytes := by rw [hfront, List.drop_zero]
    rw [hall, h.drain_append honly, hg, Option.elim_some, List.append_assoc] at hreads
    have hitems := List.append_cancel_left (List.append_cancel_left hreads)
    obtain ⟨size, hitem⟩ := Decoder.next_of_items hitems
    have hhead : (g.out ++ f.bytes).head? = g.bytes.head? := by
      rw [Sending.out]
      obtain ⟨b, bytes, hbytes⟩ := List.exists_cons_of_length_pos (by omega : 0 < g.bytes.length)
      obtain ⟨k, hk⟩ := Nat.exists_eq_succ_of_ne_zero (Nat.ne_of_gt hhalf)
      rw [hbytes, hk]
      rfl
    have hsame : f.frame.opcode = g.frame.opcode := opcode_of_head hitem hother hhead
    rw [hopcode, hopcode'] at hsame
    exact hvu (Sender.opcode_injective hsame).symm

/-- A call that fails inside its own frame leaves a part that is never made whole. -/
theorem Framed.broken (h : s.Framed said) (hsound : s.Sound pings) (hf : s.inHand u = some f) (hhalf : 0 < f.sent)
    {n : ℤ} (hn : n ≤ 0) : ¬ (s.send u f n).Framed said := by
  obtain ⟨-, hsent, -⟩ := hsound.whole u f hf
  have honly : ∀ w k, s.inHand w = some k → 0 < k.sent → w = u :=
    fun w k hk hpos => h.alone w u k f hk hf hpos hhalf
  intro ht
  unfold Uplink.send at ht
  rw [if_pos hn] at ht
  have hrest := congrArg Drained.rest (h.reads.symm.trans ht.reads)
  have hnone : ∀ w k, Function.update s.inHand u none w = some k → 0 < k.sent → w = u := by
    intro w k hk hpos
    rw [Function.update_apply] at hk
    split at hk
    · cases hk
    · exact honly w k hk hpos
  rw [part_of honly, part_of hnone] at hrest
  have hempty : f.out = [] := by
    rw [hf] at hrest
    have hgone : (Function.update s.inHand u none u).elim [] Sending.out = [] := by
      rw [Function.update_self]
      rfl
    exact hrest.trans hgone
  rw [Sending.out, List.take_eq_nil_iff] at hempty
  rcases hempty with hzero | hnil
  · omega
  · rw [hnil] at hsent
    cases hsent

/-- **A call of `send` keeps it exactly if it is orderly.** -/
theorem framed_send (h : s.Framed said) (hsound : s.Sound pings) (hf : s.inHand u = some f) (n : ℤ) :
    (s.send u f n).Framed said ↔ s.Orderly (.send u n) := by
  constructor
  · intro ht v g hg hhalf
    constructor
    · rintro rfl
      obtain rfl := Option.some.inj (hf.symm.trans hg)
      by_contra hn
      exact h.broken hsound hf hhalf (not_lt.mp hn) ht
    · intro hn
      by_contra hvu
      exact h.intruded hsound hf hg hhalf hvu hn ht
  · intro horderly
    by_cases hn : 0 < n
    · exact h.send hsound hf hn fun v g hg hhalf => (horderly v g hg hhalf).mpr hn
    · have hfront : ∀ g, s.inHand u = some g → g.sent = 0 := by
        intro g hg
        by_contra hpos
        exact hn ((horderly u g hg (Nat.pos_of_ne_zero hpos)).mp rfl)
      have hfails : s.send u f n = {s with inHand := Function.update s.inHand u none} := if_pos (not_lt.mp hn)
      rw [hfails]
      exact h.front u (x := none) nofun hfront rfl rfl rfl

theorem framed_step (hsound : s.Sound pings) (h : s.Framed said) {event : UplinkEvent}
    (hstep : machine.step s event = some t) : t.Framed said ↔ s.Orderly event := by
  cases event with
  | send u n =>
    obtain ⟨f, hf, rfl⟩ := Option.map_eq_some_iff.mp hstep
    exact framed_send h hsound hf n
  | pong mask =>
    refine iff_of_true ?_ trivial
    simp only [machine, step] at hstep
    split at hstep
    · next payload rest hreader hpings =>
      obtain rfl := Option.some.inj hstep
      refine h.front .reader ?_ ?_ rfl rfl rfl
      · intro g hg
        obtain rfl := Option.some.inj hg
        rfl
      · intro g hg
        rw [hreader] at hg
        cases hg
    · cases hstep
  | close mask =>
    refine iff_of_true ?_ trivial
    simp only [machine, step] at hstep
    split at hstep
    · cases hstep
    · next hcalled =>
      obtain rfl := Option.some.inj hstep
      obtain ⟨-, hnone⟩ := List.append_eq_nil_iff.mp (hsound.closes_nil hcalled)
      refine h.front .closer ?_ ?_ rfl rfl rfl
      · intro g hg
        obtain rfl := Option.some.inj hg
        rfl
      · intro g hg
        rw [hg] at hnone
        cases hnone

/-- **All that is sent can be made out exactly if every call is orderly**: behind the frames that
`connect` sent, the server has at any time read the frames that are finished and keeps a part of
one more at most, in those runs in which no call sends inside the other thread's frame and none
fails inside its own. In any run, Pings are answered at most once and in order, and one Close is
sent at most. -/
theorem uplink_always_iff {wire : List UInt8} (hwire : decoder.drain wire = ⟨said, [], none⟩)
    (hpings : ∀ payload ∈ pings, payload.length < 2 ^ 63) (events : List UplinkEvent) :
    (machine.Always (Framed said) (initial wire pings) events ↔
        machine.Allowed Orderly (initial wire pings) events) ∧
      ∀ s, machine.run (initial wire pings) events = some s →
        s.pongs.Sublist pings ∧ s.closes.length ≤ 1 ∧ ∀ f ∈ s.finished, f.opcode = 0xA ∨ f.opcode = 0x8 := by
  have hsound : (initial wire pings).Sound pings := sound_initial wire hpings
  have hframed : (initial wire pings).Framed said := by
    refine ⟨nofun, ?_⟩
    have hsame : serverDecoder.drain wire = decoder.drain wire :=
      Decoder.drain_of_none (d := decoder) (e := serverDecoder) rfl (fun _ _ => rfl) wire (by rw [hwire])
    rw [show (initial wire pings).wire = wire from rfl, hsame, hwire]
    exact congrArg (Drained.mk · [] none) (List.append_nil said).symm
  constructor
  · refine Machine.always_iff_allowed Sound.step ?_ hsound hframed
    intro s event t hs h hstep
    exact framed_step hs h hstep
  · intro s hrun
    have hs : s.Sound pings := Machine.invariant Sound.step hrun hsound
    refine ⟨(List.sublist_append_left _ _).trans hs.answered, hs.closed.trans (Bool.toNat_le _), hs.known⟩

/-- The Close frame goes out inside a Pong of which three bytes are out. -/
theorem uplink_always_iff_intruded :
    ¬ machine.Always (Framed []) (initial [] [[7]])
      [.pong fun _ => 0, .send .reader 3, .close fun _ => 0, .send .closer 6, .send .reader 4] := by
  rw [(uplink_always_iff (Decoder.drain_more rfl) (by decide) _).1]
  intro hallowed
  have horderly := hallowed [.pong fun _ => 0, .send .reader 3, .close fun _ => 0] (.send .closer 6) _ _
    ⟨[.send .reader 4], rfl⟩ rfl rfl
  have hintruder := (horderly .reader _ rfl (by decide)).mpr (by decide)
  cases hintruder

end Framed

end Uplink
end VrxServer.SdrConnect
