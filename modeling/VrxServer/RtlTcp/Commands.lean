import VrxServer.Base.Bytes
import VrxServer.RtlTcp.Server

/-! The commands an rtl_tcp client sends.

A command is a byte and a 32-bit parameter, most significant byte first. `clientReadLoop`
is the source's: a buffer, an offset into it that only grows, every read and subtraction
checked. Whatever a client sends is whole commands and fewer than five bytes more
(`clientReadLoop_spec`), in one way (`commands_unique`); so however the reads cut it, each
command is handled once, in order, and the rest is kept (`commands_handled`). -/
namespace VrxServer.RtlTcp
open Base

/-- `rtltcp::COMMAND_LENGTH`. -/
def commandLength : ℕ := 5

structure ParsedCommand where
  cmd : UInt8
  param : UInt32
  deriving DecidableEq

/-- `len` is what the caller says `buf` holds. `none` is a read past it; too short a
buffer is no command and no read. -/
def parseCommand (buf : List UInt8) (len : ℕ) : Option (Option ParsedCommand) :=
  if len < commandLength then some none
  else do
    let b₁ ← buf[1]?
    let b₂ ← buf[2]?
    let b₃ ← buf[3]?
    let b₄ ← buf[4]?
    let param := b₁.toUInt32 <<< 24 ||| b₂.toUInt32 <<< 16 ||| b₃.toUInt32 <<< 8 ||| b₄.toUInt32
    let cmd ← buf[0]?
    some (some ⟨cmd, param⟩)

/-! ### The loop -/

/-- What one pass over the buffer has handed to `handleCommand`, and how far it has come. -/
structure Scan where
  handled : List ParsedCommand
  offset : ℕ

/-- The inner loop, from `offset` on, for as many rounds as the fuel lasts. -/
def scan (recvBuf : List UInt8) : ℕ → ℕ → Option Scan
  | 0, _ => none
  | fuel + 1, offset =>
    if recvBuf.length < offset then none
    else if recvBuf.length - offset < commandLength then some ⟨[], offset⟩
    else do
      let parsed ← parseCommand (recvBuf.drop offset) (recvBuf.length - offset)
      let r ← scan recvBuf fuel (offset + commandLength)
      some {r with handled := parsed.toList ++ r.handled}

/-- The loop between two reads. -/
structure CommandLoop where
  handled : List ParsedCommand
  recvBuf : List UInt8

/-- One `recv` that returned `chunk`. -/
def CommandLoop.recv (s : CommandLoop) (chunk : List UInt8) : Option CommandLoop := do
  let recvBuf := s.recvBuf ++ chunk
  let r ← scan recvBuf (recvBuf.length + 1) 0
  some ⟨s.handled ++ r.handled, recvBuf.drop r.offset⟩

/-- The loop over the reads that return bytes. -/
def clientReadLoop (chunks : List (List UInt8)) : Option CommandLoop :=
  chunks.foldlM CommandLoop.recv ⟨[], []⟩

/-! ### The format -/

/-- A command as a client writes it. -/
def commandBytes (c : ParsedCommand) : List UInt8 := c.cmd :: natBytes 4 c.param.toNat

@[simp] theorem length_commandBytes (c : ParsedCommand) : (commandBytes c).length = commandLength := rfl

/-- Shifting four bytes together is reading them as one numeral. -/
theorem shifts_toNat (a b c d : UInt8) :
    (a.toUInt32 <<< 24 ||| b.toUInt32 <<< 16 ||| c.toUInt32 <<< 8 ||| d.toUInt32).toNat = bytesNat [a, b, c, d] := by
  have ha := a.toNat_lt
  have hb := b.toNat_lt
  have hc := c.toNat_lt
  have hd := d.toNat_lt
  have hshift : ∀ x n, x < 256 → n ≤ 24 → x <<< n % 2 ^ 32 = x <<< n := by
    intro x n hx hn
    refine Nat.mod_eq_of_lt ?_
    rw [Nat.shiftLeft_eq]
    exact lt_of_lt_of_le (Nat.mul_lt_mul_of_pos_right hx (Nat.two_pow_pos n))
      (Nat.mul_le_mul_left 256 (Nat.pow_le_pow_right (by decide) hn))
  have hlast := shift_or_digit ((a.toNat * 256 + b.toNat) * 256 + c.toNat) d.toNat 0 hd
  rw [Nat.shiftLeft_zero, Nat.shiftLeft_zero] at hlast
  simp only [UInt32.toNat_or, UInt32.toNat_shiftLeft, UInt8.toNat_toUInt32, UInt32.reduceToNat, Nat.reduceMod]
  rw [hshift _ _ ha (by decide), hshift _ _ hb (by decide), hshift _ _ hc (by decide),
    shift_or_digit a.toNat b.toNat 16 hb, shift_or_digit _ c.toNat 8 hc, hlast]
  simp [bytesNat]

/-- **Five bytes are a command, the one that is written so.** -/
theorem parseCommand_spec {buf : List UInt8} (h : commandLength ≤ buf.length) :
    ∃ c, parseCommand buf buf.length = some (some c) ∧ buf = commandBytes c ++ buf.drop commandLength := by
  match hb : buf with
  | b₀ :: b₁ :: b₂ :: b₃ :: b₄ :: rest =>
    refine ⟨_, by rw [parseCommand, if_neg (Nat.not_lt.mpr h)]; rfl, ?_⟩
    rw [commandBytes, shifts_toNat]
    exact congrArg (fun param => b₀ :: (param ++ rest)) (natBytes_bytesNat [b₁, b₂, b₃, b₄]).symm
  | [] | [_] | [_, _] | [_, _, _] | [_, _, _, _] =>
    rw [commandLength] at h
    simp at h

theorem commandBytes_inj {c c' : ParsedCommand} (h : commandBytes c = commandBytes c') : c = c' := by
  obtain ⟨cmd, param⟩ := c
  obtain ⟨cmd', param'⟩ := c'
  simp only [commandBytes, List.cons.injEq] at h
  obtain ⟨rfl, hparam⟩ := h
  have hnat := congrArg bytesNat hparam
  rw [bytesNat_natBytes 4 _ param.toNat_lt, bytesNat_natBytes 4 _ param'.toNat_lt] at hnat
  rw [UInt32.toNat_inj.mp hnat]

/-- Commands that start the bytes of others are the first of them. -/
theorem commands_prefix {cs cmds : List ParsedCommand} {rest tail : List UInt8} (htail : tail.length < commandLength)
    (h : cs.flatMap commandBytes ++ rest <+: cmds.flatMap commandBytes ++ tail) : cs <+: cmds := by
  induction cs generalizing cmds with
  | nil => exact List.nil_prefix
  | cons c cs ih =>
    cases cmds with
    | nil =>
      have hlen := h.length_le
      simp only [List.flatMap_cons, List.flatMap_nil, List.length_append, length_commandBytes, List.length_nil] at hlen
      omega
    | cons c' cmds =>
      simp only [List.flatMap_cons, List.append_assoc] at h
      obtain ⟨more, hmore⟩ := h
      rw [List.append_assoc] at hmore
      obtain ⟨hc, hrest⟩ := List.append_inj hmore rfl
      rw [commandBytes_inj hc]
      exact (List.cons_prefix_cons).mpr ⟨rfl, ih ⟨more, hrest⟩⟩

/-- **A stream is cut into commands in one way.** -/
theorem commands_unique {cs cmds : List ParsedCommand} {rest tail : List UInt8} (hrest : rest.length < commandLength)
    (htail : tail.length < commandLength)
    (h : cs.flatMap commandBytes ++ rest = cmds.flatMap commandBytes ++ tail) : cs = cmds ∧ rest = tail := by
  have hfirst := commands_prefix htail ⟨[], (List.append_nil _).trans h⟩
  have hsecond := commands_prefix hrest ⟨[], (List.append_nil _).trans h.symm⟩
  obtain rfl := hfirst.eq_of_length_le hsecond.length_le
  exact ⟨rfl, List.append_cancel_left h⟩

/-! ### The loop takes the commands off its buffer -/

/-- One pass never leaves the buffer, and stops where no whole command is left. -/
theorem scan_spec (recvBuf : List UInt8) (fuel offset : ℕ) (hoffset : offset ≤ recvBuf.length)
    (hfuel : recvBuf.length - offset < fuel) :
    ∃ r, scan recvBuf fuel offset = some r ∧ (recvBuf.drop r.offset).length < commandLength ∧
      r.handled.flatMap commandBytes ++ recvBuf.drop r.offset = recvBuf.drop offset := by
  induction fuel generalizing offset with
  | zero => exact absurd hfuel (Nat.not_lt_zero _)
  | succ fuel ih =>
    have hlen : (recvBuf.drop offset).length = recvBuf.length - offset := List.length_drop
    rw [scan, if_neg (Nat.not_lt.mpr hoffset)]
    by_cases hshort : recvBuf.length - offset < commandLength
    · rw [if_pos hshort]
      exact ⟨_, rfl, hlen.trans_lt hshort, rfl⟩
    · rw [if_neg hshort]
      have hpos : 0 < commandLength := by decide
      have hwhole : commandLength ≤ (recvBuf.drop offset).length := by omega
      obtain ⟨c, hparse, hsplit⟩ := parseCommand_spec hwhole
      obtain ⟨r, hr, hstop, hrest⟩ := ih (offset + commandLength) (by omega) (by omega)
      rw [hlen] at hparse
      rw [hparse, Option.bind_eq_bind, Option.bind_some, hr]
      refine ⟨_, rfl, hstop, ?_⟩
      show ([c] ++ r.handled).flatMap commandBytes ++ recvBuf.drop r.offset = recvBuf.drop offset
      rw [List.flatMap_append, List.append_assoc, hrest, ← List.drop_drop, List.flatMap_singleton]
      exact hsplit.symm

/-- **After every read the loop has handled the whole commands received, and keeps the rest.** -/
theorem clientReadLoop_spec (chunks : List (List UInt8)) :
    ∃ s, clientReadLoop chunks = some s ∧ s.recvBuf.length < commandLength ∧
      s.handled.flatMap commandBytes ++ s.recvBuf = chunks.flatten := by
  induction chunks using List.reverseRecOn with
  | nil => exact ⟨_, rfl, by decide, rfl⟩
  | append_singleton chunks chunk ih =>
    obtain ⟨s, hs, -, hkept⟩ := ih
    obtain ⟨r, hscan, hstop, hrest⟩ :=
      scan_spec (s.recvBuf ++ chunk) ((s.recvBuf ++ chunk).length + 1) 0 (Nat.zero_le _) (by omega)
    refine ⟨⟨s.handled ++ r.handled, (s.recvBuf ++ chunk).drop r.offset⟩, ?_, hstop, ?_⟩
    · rw [clientReadLoop, List.foldlM_append, ← clientReadLoop, hs]
      simp only [Option.bind_eq_bind, Option.bind_some, List.foldlM_cons, List.foldlM_nil, CommandLoop.recv, hscan]
      rfl
    · rw [List.flatMap_append, List.append_assoc, hrest, List.drop_zero, ← List.append_assoc, hkept,
        List.flatten_append, List.flatten_singleton]

/-- **However the reads cut a stream of commands, each is handled once, in order, and no
more**: what has arrived of the next is kept. -/
theorem commands_handled (cmds : List ParsedCommand) (tail : List UInt8) (chunks : List (List UInt8))
    (htail : tail.length < commandLength) (hstream : chunks.flatten = cmds.flatMap commandBytes ++ tail) :
    clientReadLoop chunks = some ⟨cmds, tail⟩ ∧
      ∀ received, received <+: chunks → ∃ s, clientReadLoop received = some s ∧ s.handled <+: cmds ∧
        s.recvBuf.length < commandLength ∧
        s.handled.flatMap commandBytes ++ s.recvBuf = received.flatten := by
  have hall := clientReadLoop_spec chunks
  refine ⟨?_, fun received hreceived => ?_⟩
  · obtain ⟨s, hs, hlen, hkept⟩ := hall
    obtain ⟨hcmds, hrest⟩ := commands_unique hlen htail (hkept.trans hstream)
    rw [hs, ← hcmds, ← hrest]
  · obtain ⟨s, hs, hlen, hkept⟩ := clientReadLoop_spec received
    obtain ⟨later, rfl⟩ := hreceived
    have hbytes : s.handled.flatMap commandBytes ++ s.recvBuf <+: cmds.flatMap commandBytes ++ tail := by
      rw [hkept, ← hstream, List.flatten_append]
      exact List.prefix_append _ _
    exact ⟨s, hs, commands_prefix htail hbytes, hlen, hkept⟩

/-- A command in three pieces, with two bytes of the next. -/
theorem commands_handled_cut : clientReadLoop [[1, 5], [245], [225, 0, 2, 0]] = some ⟨[⟨1, 100000000⟩], [2, 0]⟩ :=
  (commands_handled [⟨1, 100000000⟩] [2, 0] [[1, 5], [245], [225, 0, 2, 0]] (by decide) (by decide)).1

end VrxServer.RtlTcp
