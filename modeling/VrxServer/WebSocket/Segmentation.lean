import VrxServer.WebSocket.Lengths

/-! What the read loop does depends on the stream alone.

`readFrames` is the loop as the source runs it, an offset into a buffer; it is in step with
the loop over the frame format, read by read (`readFrames_run`). So two ways to cut one
stream into reads, whatever the stream is, give the same frames, the same calls of the
handlers and the same stop (`segmentation_irrelevant`); and nothing behind a Close is looked
at, in the read that brings it or in a later one. -/
namespace VrxServer.WebSocket
open Base

/-- The source's loop and the loop over the format are at the same point. -/
structure FrameLoop.Follows (s : FrameLoop) (r : ReadLoop UInt8 Frame) : Prop where
  frames_eq : s.frames = r.dispatched
  buf_eq : s.buf = r.buf
  halt_eq : s.halt = r.halt

theorem FrameLoop.Follows.recv {s : FrameLoop} {r : ReadLoop UInt8 Frame} (h : s.Follows r) (chunk : List UInt8) :
    ∃ t, s.recv chunk = some t ∧ t.Follows (ReadLoop.recv decoder r chunk) := by
  obtain ⟨hframes, hbuf, hhalt⟩ := h
  cases hr : r.halt with
  | some halt =>
    have hrecv : ReadLoop.recv decoder r chunk = r := by simp only [ReadLoop.recv, hr]
    rw [hrecv]
    exact ⟨s, by simp only [FrameLoop.recv, hhalt, hr], hframes, hbuf, hhalt⟩
  | none =>
    obtain ⟨scanned, hscan, -, hdrain, -⟩ :=
      scanFrames_eq (s.buf ++ chunk) ((s.buf ++ chunk).length + 1) 0 (Nat.zero_le _) (by omega)
    rw [List.drop_zero, hbuf] at hdrain
    refine ⟨⟨s.frames ++ scanned.frames, s.passed ++ scanned.passed, (s.buf ++ chunk).drop scanned.offset,
      scanned.halt⟩, ?_, ?_⟩
    · simp only [FrameLoop.recv, hhalt, hr, hscan, Option.bind_eq_bind, Option.bind_some]
    · simp only [ReadLoop.recv, hr, hdrain]
      exact ⟨by rw [hframes], by rw [hbuf], rfl⟩

/-- **The source's loop never fails, and is where the loop over the format is.** -/
theorem readFrames_run (pendingBytes : List UInt8) (chunks : List (List UInt8)) :
    ∃ s, readFrames pendingBytes chunks = some s ∧ s.Follows (ReadLoop.run decoder pendingBytes chunks) :=
  foldlM_follows (R := FrameLoop.Follows) (g := ReadLoop.recv decoder) (t := ⟨[], pendingBytes, none⟩)
    (fun chunk h => h.recv chunk) ⟨rfl, rfl, rfl⟩ chunks

/-- What the handlers and the socket see is what the frames make of it. -/
theorem FrameLoop.Follows.runReadLoop_eq {s : FrameLoop} {pendingBytes : List UInt8} {chunks : List (List UInt8)}
    (h : s.Follows (ReadLoop.run decoder pendingBytes chunks)) (handlers : Handlers) :
    runReadLoop handlers pendingBytes chunks = (dispatchAll handlers .initial s.frames).1 := by
  rw [runReadLoop, h.frames_eq]

/-- Two cuts of one stream, the second perhaps with bytes behind a Close of the first. -/
theorem run_cut {pendingBytes c₁ c₂ later : List UInt8} {cs₁ cs₂ : List (List UInt8)}
    (hstream : (c₂ :: cs₂).flatten = (c₁ :: cs₁).flatten ++ later)
    (hlater : later = [] ∨ (ReadLoop.run decoder pendingBytes (c₁ :: cs₁)).halt ≠ none) :
    (ReadLoop.run decoder pendingBytes (c₂ :: cs₂)).dispatched =
        (ReadLoop.run decoder pendingBytes (c₁ :: cs₁)).dispatched ∧
      (ReadLoop.run decoder pendingBytes (c₂ :: cs₂)).halt =
        (ReadLoop.run decoder pendingBytes (c₁ :: cs₁)).halt := by
  obtain ⟨hitems₁, hhalt₁⟩ := ReadLoop.run_eq_drain decoder pendingBytes c₁ cs₁
  obtain ⟨hitems₂, hhalt₂⟩ := ReadLoop.run_eq_drain decoder pendingBytes c₂ cs₂
  rw [hstream, ← List.append_assoc] at hitems₂ hhalt₂
  rcases hlater with rfl | hstop
  · rw [List.append_nil] at hitems₂ hhalt₂
    exact ⟨hitems₂.trans hitems₁.symm, hhalt₂.trans hhalt₁.symm⟩
  · rw [hitems₂, hhalt₂, hitems₁, hhalt₁, Decoder.drain_append, Decoder.resume]
    rw [hhalt₁] at hstop
    cases hh : (decoder.drain (pendingBytes ++ (c₁ :: cs₁).flatten)).halt with
    | none => exact absurd hh hstop
    | some halt => exact ⟨rfl, rfl⟩

theorem flatten_ne_nil {c : List UInt8} {cs : List (List UInt8)} (h : [] ∉ c :: cs) : (c :: cs).flatten ≠ [] := by
  intro hnil
  exact h (List.flatten_eq_nil_iff.mp hnil c List.mem_cons_self ▸ List.mem_cons_self)

/-- Reads that return nothing apart, a cut may have any number of reads, even none. -/
theorem run_same {pendingBytes later : List UInt8} {chunks₁ chunks₂ : List (List UInt8)} (h₁ : [] ∉ chunks₁)
    (h₂ : [] ∉ chunks₂) (hstream : chunks₂.flatten = chunks₁.flatten ++ later)
    (hlater : later = [] ∨ (ReadLoop.run decoder pendingBytes chunks₁).halt = some .last) :
    (ReadLoop.run decoder pendingBytes chunks₂).dispatched = (ReadLoop.run decoder pendingBytes chunks₁).dispatched ∧
      (ReadLoop.run decoder pendingBytes chunks₂).halt = (ReadLoop.run decoder pendingBytes chunks₁).halt := by
  cases chunks₁ with
  | nil =>
    rcases hlater with rfl | hstop
    · cases chunks₂ with
      | nil => exact ⟨rfl, rfl⟩
      | cons c₂ cs₂ => exact absurd hstream (flatten_ne_nil h₂)
    · cases hstop
  | cons c₁ cs₁ =>
    cases chunks₂ with
    | nil =>
      have hnil := (List.append_eq_nil_iff.mp hstream.symm).1
      exact absurd hnil (flatten_ne_nil h₁)
    | cons c₂ cs₂ =>
      refine run_cut hstream (hlater.imp_right fun hstop => ?_)
      rw [hstop]
      exact Option.some_ne_none _

/-- A loop that a Close stopped has dispatched it last, and no other. -/
theorem close_last {pendingBytes : List UInt8} {chunks : List (List UInt8)}
    (h : (ReadLoop.run decoder pendingBytes chunks).halt = some .last) :
    ∃ before close, (ReadLoop.run decoder pendingBytes chunks).dispatched = before ++ [close] ∧
      close.opcode = 0x8 ∧ ∀ f ∈ before, f.opcode ≠ 0x8 := by
  cases chunks with
  | nil => cases h
  | cons c cs =>
    obtain ⟨hitems, hhalt⟩ := ReadLoop.run_eq_drain decoder pendingBytes c cs
    obtain ⟨before, close, hsplit, hclose, hopen⟩ := decoder.items_of_last _ (hhalt.symm.trans h)
    exact ⟨before, close, hitems.trans hsplit, by simpa [decoder] using hclose,
      fun f hf => by simpa [decoder] using hopen f hf⟩

/-- **However the reads cut a stream, the loop does the same and stops at the same frame**; a
Close that stops it is the first there is, and what follows it in the stream, in the same
read or in others, changes nothing. -/
theorem segmentation_irrelevant (handlers : Handlers) (pendingBytes : List UInt8) (chunks₁ chunks₂ : List (List UInt8))
    (h₁ : [] ∉ chunks₁) (h₂ : [] ∉ chunks₂) (hstream : chunks₁.flatten = chunks₂.flatten) :
    ∃ s₁ s₂, readFrames pendingBytes chunks₁ = some s₁ ∧ readFrames pendingBytes chunks₂ = some s₂ ∧
      s₁.frames = s₂.frames ∧ s₁.halt = s₂.halt ∧
      runReadLoop handlers pendingBytes chunks₁ = runReadLoop handlers pendingBytes chunks₂ ∧
      runReadLoop handlers pendingBytes chunks₁ = (dispatchAll handlers .initial s₁.frames).1 ∧
      (s₁.halt = some .last →
        (∃ before close, s₁.frames = before ++ [close] ∧ close.opcode = 0x8 ∧ ∀ f ∈ before, f.opcode ≠ 0x8) ∧
        ∀ longer, [] ∉ longer → chunks₁.flatten <+: longer.flatten →
          ∃ s, readFrames pendingBytes longer = some s ∧ s.frames = s₁.frames ∧ s.halt = some .last ∧
            runReadLoop handlers pendingBytes longer = runReadLoop handlers pendingBytes chunks₁) := by
  obtain ⟨s₁, hs₁, hf₁⟩ := readFrames_run pendingBytes chunks₁
  obtain ⟨s₂, hs₂, hf₂⟩ := readFrames_run pendingBytes chunks₂
  obtain ⟨hframes, hhalt⟩ := run_same h₁ h₂ ((List.append_nil _).trans hstream).symm (.inl rfl)
  refine ⟨s₁, s₂, hs₁, hs₂, ?_, ?_, ?_, hf₁.runReadLoop_eq handlers, fun hstop => ⟨?_, ?_⟩⟩
  · rw [hf₁.frames_eq, hf₂.frames_eq, hframes]
  · rw [hf₁.halt_eq, hf₂.halt_eq, hhalt]
  · rw [runReadLoop, runReadLoop, hframes]
  · rw [hf₁.frames_eq]
    exact close_last (hf₁.halt_eq ▸ hstop)
  · intro longer hlonger hprefix
    obtain ⟨later, hlater⟩ := hprefix
    obtain ⟨s, hs, hf⟩ := readFrames_run pendingBytes longer
    obtain ⟨hframes, hhalt⟩ := run_same h₁ hlonger hlater.symm (.inr (hf₁.halt_eq ▸ hstop))
    refine ⟨s, hs, ?_, ?_, ?_⟩
    · rw [hf.frames_eq, hframes, hf₁.frames_eq]
    · rw [hf.halt_eq, hhalt, ← hf₁.halt_eq, hstop]
    · rw [runReadLoop, runReadLoop, hframes]

/-- A continuation of nothing, a ping, a Close and a text behind it: in one read, and cut
inside the ping and the Close. -/
theorem segmentation_irrelevant_ping :
    ∃ s₁ s₂, readFrames [] [[0x80, 0, 0x89, 1, 7, 0x88, 0, 0x81, 0]] = some s₁ ∧
      readFrames [] [[0x80, 0, 0x89], [1], [7, 0x88], [0, 0x81, 0]] = some s₂ ∧ s₁.frames = s₂.frames ∧
      s₁.halt = s₂.halt ∧
      runReadLoop .both [] [[0x80, 0, 0x89, 1, 7, 0x88, 0, 0x81, 0]] =
        runReadLoop .both [] [[0x80, 0, 0x89], [1], [7, 0x88], [0, 0x81, 0]] := by
  obtain ⟨s₁, s₂, hs₁, hs₂, hframes, hhalt, hevents, -⟩ :=
    segmentation_irrelevant .both [] [[0x80, 0, 0x89, 1, 7, 0x88, 0, 0x81, 0]]
      [[0x80, 0, 0x89], [1], [7, 0x88], [0, 0x81, 0]] (by decide) (by decide) rfl
  exact ⟨s₁, s₂, hs₁, hs₂, hframes, hhalt, hevents⟩

end VrxServer.WebSocket
