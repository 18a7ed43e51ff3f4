import VrxServer.Base.Loops
import VrxServer.Base.ReadLoop
import VrxServer.SpyServer.Protocol

/-! The commands a client's read loop dispatches.

`clientReadLoop` is the source's, on the bytes each `recv` returned: it keeps a buffer and
an offset into it, and every subtraction and every read of the buffer is checked, `none`
standing for one that wraps or leaves the buffer. Against it stands the format itself:
`commands` is what a stream of commands begins with. The loop never fails, and however
the reads cut the stream it dispatches the commands of the whole stream
(`clientReadLoop_commands`). -/
namespace VrxServer.SpyServer
open Base

/-- What `handleCommand` is called with. -/
abbrev DispatchedCommand := UInt32 × List UInt8

/-- `sizeof(CommandHeader)`. -/
def commandHeaderSize : ℕ := 8

/-! ### The loop -/

/-- What one pass over the buffer has dispatched, how far it has come, and whether it is the last. -/
structure Scan where
  dispatched : List DispatchedCommand
  offset : ℕ
  protocolError : Bool

/-- The inner loop, from `offset` on, for as many rounds as the fuel lasts. -/
def scan (recvBuf : List UInt8) : ℕ → ℕ → Option Scan
  | 0, _ => none
  | fuel + 1, offset =>
    if recvBuf.length < offset then none
    else if recvBuf.length - offset < commandHeaderSize then some ⟨[], offset, false⟩
    else do
      let commandType ← readU32 recvBuf offset
      let bodySize ← readU32 recvBuf (offset + 4)
      if kMaxCommandBodySize < bodySize.toNat then some ⟨[], offset, true⟩
      else if recvBuf.length - offset < commandHeaderSize + bodySize.toNat then some ⟨[], offset, false⟩
      else do
        let body ← slice recvBuf (offset + commandHeaderSize) bodySize.toNat
        let r ← scan recvBuf fuel (offset + (commandHeaderSize + bodySize.toNat))
        some {r with dispatched := (commandType, body) :: r.dispatched}

/-- The loop between two reads. -/
structure CommandLoop where
  dispatched : List DispatchedCommand
  recvBuf : List UInt8
  protocolError : Bool

/-- One `recv` that returned `chunk`. After a protocol error nothing is received. -/
def CommandLoop.recv (s : CommandLoop) (chunk : List UInt8) : Option CommandLoop :=
  if s.protocolError then some s
  else do
    let recvBuf := s.recvBuf ++ chunk
    let r ← scan recvBuf (recvBuf.length + 1) 0
    some ⟨s.dispatched ++ r.dispatched, recvBuf.drop r.offset, r.protocolError⟩

/-- The loop over the reads that return bytes. -/
def clientReadLoop (chunks : List (List UInt8)) : Option CommandLoop :=
  chunks.foldlM CommandLoop.recv ⟨[], [], false⟩

/-! ### The format -/

/-- A command as a client writes it. -/
def commandBytes (commandType : UInt32) (bodySize : UInt32) (body : List UInt8) : List UInt8 :=
  u32Bytes commandType ++ u32Bytes bodySize ++ body

/-- The command at the front of a stream. -/
def nextCommand (stream : List UInt8) : Verdict DispatchedCommand :=
  match readU32 stream 0, readU32 stream 4 with
  | some commandType, some bodySize =>
    if kMaxCommandBodySize < bodySize.toNat then .fault
    else if stream.length < commandHeaderSize + bodySize.toNat then .more
    else .item (commandType, (stream.drop commandHeaderSize).take bodySize.toNat)
      (commandHeaderSize + bodySize.toNat)
  | _, _ => .more

theorem nextCommand_short {stream : List UInt8} (h : stream.length < commandHeaderSize) :
    nextCommand stream = .more := by
  unfold nextCommand
  cases h₄ : readU32 stream 4 with
  | none => split <;> simp_all
  | some bodySize =>
    have := length_of_readU32 h₄
    rw [commandHeaderSize] at h
    omega

theorem nextCommand_header {stream : List UInt8} (h : commandHeaderSize ≤ stream.length) :
    ∃ commandType bodySize, readU32 stream 0 = some commandType ∧ readU32 stream 4 = some bodySize ∧
      nextCommand stream =
        if kMaxCommandBodySize < bodySize.toNat then .fault
        else if stream.length < commandHeaderSize + bodySize.toNat then .more
        else .item (commandType, (stream.drop commandHeaderSize).take bodySize.toNat)
          (commandHeaderSize + bodySize.toNat) := by
  rw [commandHeaderSize] at h
  have hfirst : 0 + 4 ≤ stream.length := by omega
  have hsecond : 4 + 4 ≤ stream.length := h
  obtain ⟨commandType, h₀⟩ := readU32_of_length hfirst
  obtain ⟨bodySize, h₄⟩ := readU32_of_length hsecond
  exact ⟨commandType, bodySize, h₀, h₄, by simp only [nextCommand, h₀, h₄]⟩

theorem nextCommand_item {stream : List UInt8} {c : DispatchedCommand} {n : ℕ} :
    nextCommand stream = .item c n ↔ ∃ commandType bodySize, readU32 stream 0 = some commandType ∧
      readU32 stream 4 = some bodySize ∧ bodySize.toNat ≤ kMaxCommandBodySize ∧
      commandHeaderSize + bodySize.toNat ≤ stream.length ∧
      c = (commandType, (stream.drop commandHeaderSize).take bodySize.toNat) ∧
      n = commandHeaderSize + bodySize.toNat := by
  rcases Nat.lt_or_ge stream.length commandHeaderSize with hshort | hlong
  · rw [nextCommand_short hshort]
    refine iff_of_false (by simp) ?_
    intro hp
    obtain ⟨_, _, -, -, -, hlen, -⟩ := hp
    omega
  · obtain ⟨commandType, bodySize, h₀, h₄, hnext⟩ := nextCommand_header hlong
    simp only [hnext, h₀, h₄, Option.some.injEq, exists_eq_left', exists_and_left]
    split
    · next hbig => exact iff_of_false (by simp) fun hle => absurd hle.1 (by omega)
    · next hsmall =>
      split
      · next hpart => exact iff_of_false (by simp) fun hle => absurd hle.2.1 (by omega)
      · next hwhole =>
        simp only [Verdict.item.injEq]
        constructor
        · intro hp
          obtain ⟨rfl, rfl⟩ := hp
          exact ⟨by omega, by omega, rfl, rfl⟩
        · intro hp
          obtain ⟨-, -, rfl, rfl⟩ := hp
          exact ⟨rfl, rfl⟩

theorem nextCommand_fault {stream : List UInt8} :
    nextCommand stream = .fault ↔
      ∃ bodySize, readU32 stream 4 = some bodySize ∧ kMaxCommandBodySize < bodySize.toNat := by
  rcases Nat.lt_or_ge stream.length commandHeaderSize with hshort | hlong
  · rw [nextCommand_short hshort]
    refine iff_of_false (by simp) ?_
    intro hp
    obtain ⟨_, h₄, -⟩ := hp
    have := length_of_readU32 h₄
    rw [commandHeaderSize] at hshort
    omega
  · obtain ⟨commandType, bodySize, -, h₄, hnext⟩ := nextCommand_header hlong
    simp only [hnext, h₄, Option.some.injEq, exists_eq_left']
    split
    · next hbig => exact iff_of_true rfl hbig
    · next hsmall => split <;> exact iff_of_false (by simp) hsmall

theorem nextCommand_size {stream : List UInt8} {c : DispatchedCommand} {n : ℕ}
    (h : nextCommand stream = .item c n) : 0 < n ∧ n ≤ stream.length := by
  obtain ⟨_, _, -, -, -, hlen, -, rfl⟩ := nextCommand_item.mp h
  exact ⟨Nat.add_pos_left (by decide) _, hlen⟩

theorem nextCommand_append {stream : List UInt8} {c : DispatchedCommand} {n : ℕ} (rest : List UInt8)
    (h : nextCommand stream = .item c n) : nextCommand (stream ++ rest) = .item c n := by
  obtain ⟨commandType, bodySize, h₀, h₄, hmax, hlen, rfl, rfl⟩ := nextCommand_item.mp h
  refine nextCommand_item.mpr ⟨commandType, bodySize, readU32_append rest h₀, readU32_append rest h₄, hmax, ?_, ?_,
    rfl⟩
  · rw [List.length_append]
    omega
  · rw [List.drop_append_of_le_length (by omega),
      List.take_append_of_le_length (by rw [List.length_drop]; omega)]

theorem nextCommand_fault_append {stream : List UInt8} (rest : List UInt8) (h : nextCommand stream = .fault) :
    nextCommand (stream ++ rest) = .fault := by
  obtain ⟨bodySize, h₄, hmax⟩ := nextCommand_fault.mp h
  exact nextCommand_fault.mpr ⟨bodySize, readU32_append rest h₄, hmax⟩

/-- The commands of a stream. No command ends it; an oversized one does. -/
def commands : Decoder UInt8 DispatchedCommand where
  next := nextCommand
  last _ := false
  item_size := nextCommand_size
  item_append := nextCommand_append
  fault_append := nextCommand_fault_append

/-! ### The loop takes the commands off its buffer -/

/-- **One pass never leaves the buffer, and takes off it every whole command.** -/
theorem scan_eq (recvBuf : List UInt8) (fuel offset : ℕ) (hoffset : offset ≤ recvBuf.length)
    (hfuel : recvBuf.length - offset < fuel) :
    ∃ r, scan recvBuf fuel offset = some r ∧ r.offset ≤ recvBuf.length ∧
      commands.drain (recvBuf.drop offset) =
        ⟨r.dispatched, recvBuf.drop r.offset, if r.protocolError then some .fault else none⟩ := by
  induction fuel generalizing offset with
  | zero => exact absurd hfuel (Nat.not_lt_zero _)
  | succ fuel ih =>
    have hlen : (recvBuf.drop offset).length = recvBuf.length - offset := List.length_drop
    rw [scan, if_neg (Nat.not_lt.mpr hoffset)]
    by_cases hshort : recvBuf.length - offset < commandHeaderSize
    · rw [if_pos hshort]
      have hmore : commands.next (recvBuf.drop offset) = .more := nextCommand_short (by rw [hlen]; exact hshort)
      exact ⟨_, rfl, hoffset, Decoder.drain_more hmore⟩
    · rw [if_neg hshort]
      have hlong : commandHeaderSize ≤ (recvBuf.drop offset).length := by
        rw [hlen]
        omega
      obtain ⟨commandType, bodySize, h₀, h₄, hnext⟩ := nextCommand_header hlong
      rw [readU32_drop, Nat.add_zero] at h₀
      rw [readU32_drop] at h₄
      simp only [h₀, h₄, Option.bind_eq_bind, Option.bind_some]
      rw [hlen] at hnext
      by_cases hbig : kMaxCommandBodySize < bodySize.toNat
      · rw [if_pos hbig] at hnext ⊢
        exact ⟨_, rfl, hoffset, Decoder.drain_fault hnext⟩
      · rw [if_neg hbig] at hnext ⊢
        by_cases hpart : recvBuf.length - offset < commandHeaderSize + bodySize.toNat
        · rw [if_pos hpart] at hnext ⊢
          exact ⟨_, rfl, hoffset, Decoder.drain_more hnext⟩
        · rw [if_neg hpart] at hnext ⊢
          have hslice : slice recvBuf (offset + commandHeaderSize) bodySize.toNat =
              some (((recvBuf.drop offset).drop commandHeaderSize).take bodySize.toNat) := by
            rw [slice, if_pos (by omega), List.drop_drop]
          have hsize : 0 < commandHeaderSize := by decide
          obtain ⟨r, hr, hle, hdrain⟩ := ih (offset + (commandHeaderSize + bodySize.toNat)) (by omega) (by omega)
          rw [hslice, Option.bind_some, hr]
          refine ⟨_, rfl, hle, ?_⟩
          rw [Decoder.drain_item hnext rfl, List.drop_drop, hdrain]

/-- The loop's state, from that of a loop over the format. -/
def CommandLoop.of (r : ReadLoop UInt8 DispatchedCommand) : CommandLoop :=
  ⟨r.dispatched, r.buf, r.halt.isSome⟩

theorem CommandLoop.recv_of (r : ReadLoop UInt8 DispatchedCommand) (chunk : List UInt8) :
    (CommandLoop.of r).recv chunk = some (CommandLoop.of (ReadLoop.recv commands r chunk)) := by
  obtain ⟨dispatched, buf, halt⟩ := r
  cases halt with
  | some h => rfl
  | none =>
    obtain ⟨r, hscan, -, hdrain⟩ := scan_eq (buf ++ chunk) ((buf ++ chunk).length + 1) 0 (Nat.zero_le _) (by omega)
    rw [List.drop_zero] at hdrain
    have hrecv : ReadLoop.recv commands ⟨dispatched, buf, none⟩ chunk =
        ⟨dispatched ++ r.dispatched, (buf ++ chunk).drop r.offset, if r.protocolError then some .fault else none⟩ := by
      simp only [ReadLoop.recv, hdrain]
    rw [hrecv]
    simp only [CommandLoop.recv, CommandLoop.of, hscan, Option.isSome_none, Bool.false_eq_true, if_false,
      Option.bind_eq_bind, Option.bind_some]
    cases r.protocolError <;> rfl

theorem foldlM_recv (r : ReadLoop UInt8 DispatchedCommand) (chunks : List (List UInt8)) :
    chunks.foldlM CommandLoop.recv (CommandLoop.of r) =
      some (CommandLoop.of (chunks.foldl (ReadLoop.recv commands) r)) := by
  have hstep : ∀ {s r} chunk, s = CommandLoop.of r →
      ∃ s', s.recv chunk = some s' ∧ s' = CommandLoop.of (ReadLoop.recv commands r chunk) := by
    intro s r chunk hs
    exact ⟨_, hs ▸ CommandLoop.recv_of r chunk, rfl⟩
  obtain ⟨s, hs, rfl⟩ := foldlM_follows (R := fun s r => s = CommandLoop.of r) hstep rfl chunks
  exact hs

theorem clientReadLoop_eq (chunks : List (List UInt8)) :
    clientReadLoop chunks = some (CommandLoop.of (ReadLoop.run commands [] chunks)) :=
  foldlM_recv ⟨[], [], none⟩ chunks

/-! ### What is kept -/

theorem header_split {stream : List UInt8} (h : commandHeaderSize ≤ stream.length) :
    ∃ commandType bodySize, readU32 stream 0 = some commandType ∧ readU32 stream 4 = some bodySize ∧
      stream = u32Bytes commandType ++ u32Bytes bodySize ++ stream.drop commandHeaderSize := by
  obtain ⟨commandType, bodySize, h₀, h₄, -⟩ := nextCommand_header h
  refine ⟨commandType, bodySize, h₀, h₄, ?_⟩
  rw [← Nat.add_zero 4, ← readU32_drop] at h₄
  rw [← take_of_readU32 h₀, ← take_of_readU32 h₄, ← List.take_add]
  exact (List.take_append_drop _ _).symm

/-- What is no whole command is a proper prefix of one, though perhaps of an oversized one
whose length has not arrived. -/
theorem properPrefix_of_more {stream : List UInt8} (h : nextCommand stream = .more) :
    stream.length < commandHeaderSize + kMaxCommandBodySize ∧
      ∃ commandType bodySize body, body.length = bodySize.toNat ∧
        stream <+: commandBytes commandType bodySize body ∧
        stream.length < (commandBytes commandType bodySize body).length := by
  have hlen : ∀ t n b, (commandBytes t n b).length = commandHeaderSize + b.length := by
    intro t n b
    rw [commandBytes, List.length_append, List.length_append, length_u32Bytes, length_u32Bytes]
    rfl
  rcases Nat.lt_or_ge stream.length commandHeaderSize with hshort | hlong
  · let filled := stream ++ List.replicate (commandHeaderSize - stream.length) 0
    have hfilled : filled.length = commandHeaderSize := by
      rw [List.length_append, List.length_replicate]
      omega
    obtain ⟨t, n, -, -, hsplit⟩ := header_split hfilled.ge
    rw [List.drop_eq_nil_of_le hfilled.le, List.append_nil] at hsplit
    refine ⟨by omega, t, n, List.replicate n.toNat 0, List.length_replicate, ?_, by rw [hlen]; omega⟩
    rw [commandBytes, ← hsplit]
    exact (List.prefix_append _ _).trans (List.prefix_append _ _)
  · obtain ⟨t, n, h₀, h₄, hsplit⟩ := header_split hlong
    have hmore : ¬ kMaxCommandBodySize < n.toNat ∧ stream.length < commandHeaderSize + n.toNat := by
      simp only [nextCommand, h₀, h₄] at h
      split at h
      · cases h
      · next hsmall =>
        split at h
        · next hpart => exact ⟨hsmall, hpart⟩
        · cases h
    have hbody : (stream.drop commandHeaderSize ++
        List.replicate (commandHeaderSize + n.toNat - stream.length) 0).length = n.toNat := by
      rw [List.length_append, List.length_drop, List.length_replicate]
      omega
    refine ⟨by omega, t, n, _, hbody, ?_, by rw [hlen, hbody]; exact hmore.2⟩
    rw [commandBytes, ← List.append_assoc, ← hsplit]
    exact List.prefix_append _ _

/-- **However the reads cut a stream, its commands are dispatched**, up to the first that is
too long; and what is kept for the next read is a proper prefix of a command. -/
theorem clientReadLoop_commands (chunks : List (List UInt8)) :
    ∃ s, clientReadLoop chunks = some s ∧
      s.dispatched = (commands.drain chunks.flatten).items ∧
      (s.protocolError = true ↔ (commands.drain chunks.flatten).halt = some .fault) ∧
      (s.protocolError = false →
        s.recvBuf.length < 264 ∧
        ∃ commandType bodySize body, body.length = bodySize.toNat ∧
          s.recvBuf <+: commandBytes commandType bodySize body ∧
          s.recvBuf.length < (commandBytes commandType bodySize body).length) := by
  have hnil : commands.next [] = .more := rfl
  obtain ⟨hitems, hhalt⟩ := ReadLoop.run_eq_drain_of_more commands [] hnil chunks
  obtain ⟨r, -, -, hdrain⟩ := scan_eq chunks.flatten (chunks.flatten.length + 1) 0 (Nat.zero_le _) (by omega)
  rw [List.nil_append] at hitems hhalt
  rw [List.drop_zero] at hdrain
  refine ⟨_, clientReadLoop_eq chunks, hitems, ?_, ?_⟩
  · simp only [CommandLoop.of, hhalt, hdrain]
    cases r.protocolError <;> simp
  · intro hok
    have hnone : (ReadLoop.run commands [] chunks).halt = none := by simpa [CommandLoop.of] using hok
    exact properPrefix_of_more (ReadLoop.next_buf commands _ (fun _ => hnil) chunks hnone)

end VrxServer.SpyServer
