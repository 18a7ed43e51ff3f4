import Mathlib.Data.List.Induction
import Mathlib.Data.List.Infix

/-! Read loops over a growing buffer.

A loop that parses a byte stream keeps the bytes it could not use yet, appends what
the next read returns, and takes items off the front of the buffer while there are
whole ones. What it needs of the stream's format is a `Decoder`: what stands at the
front of a buffer, decided from a prefix that later bytes cannot change.

`drain` takes every whole item off a buffer, `ReadLoop.run` is the loop over the reads
that succeed. Draining splits at any byte (`drain_append`), so the loop dispatches
what draining the whole stream does, however the reads cut it (`run_eq_drain`). -/
namespace VrxServer.Base

/-- What stands at the front of a buffer: nothing whole yet, an item and its length, or
bytes the loop cannot go past. -/
inductive Verdict (α : Type) where
  | more
  | item (a : α) (size : ℕ)
  | fault
  deriving DecidableEq

/-- A stream format. `last` says after which items the loop stops. -/
structure Decoder (β α : Type) where
  next : List β → Verdict α
  last : α → Bool
  item_size : ∀ {buf a n}, next buf = .item a n → 0 < n ∧ n ≤ buf.length
  item_append : ∀ {buf a n} (rest : List β), next buf = .item a n → next (buf ++ rest) = .item a n
  fault_append : ∀ {buf} (rest : List β), next buf = .fault → next (buf ++ rest) = .fault

/-- Why a loop takes nothing more off its buffer, ever. -/
inductive Halt where
  | last
  | fault
  deriving DecidableEq

/-- What draining a buffer leaves: the items taken, the bytes kept, and whether the loop is over. -/
structure Drained (β α : Type) where
  items : List α
  rest : List β
  halt : Option Halt

namespace Decoder
variable {β α : Type} (d : Decoder β α)

/-- One pass of the inner loop, for as many rounds as the fuel lasts. -/
def drainFuel : ℕ → List β → Drained β α
  | 0, buf => ⟨[], buf, none⟩
  | fuel + 1, buf =>
    match d.next buf with
    | .more => ⟨[], buf, none⟩
    | .fault => ⟨[], buf, some .fault⟩
    | .item a n =>
      if d.last a then ⟨[a], buf.drop n, some .last⟩
      else
        let r := drainFuel fuel (buf.drop n)
        {r with items := a :: r.items}

/-- Every item takes at least one byte, so this is fuel enough. -/
def drain (buf : List β) : Drained β α := d.drainFuel (buf.length + 1) buf

theorem drainFuel_enough (fuel : ℕ) (buf : List β) (h : buf.length < fuel) :
    d.drainFuel fuel buf = d.drain buf := by
  suffices ∀ (n : ℕ) (buf : List β), buf.length < n → buf.length < fuel →
      d.drainFuel fuel buf = d.drainFuel n buf from this _ buf (Nat.lt_succ_self _) h
  intro n
  clear h buf
  induction fuel generalizing n with
  | zero => exact fun buf _ h => absurd h (Nat.not_lt_zero _)
  | succ fuel ih =>
    intro buf hn hf
    cases n with
    | zero => exact absurd hn (Nat.not_lt_zero _)
    | succ n =>
      simp only [drainFuel]
      cases hv : d.next buf with
      | more => rfl
      | fault => rfl
      | item a k =>
        obtain ⟨hpos, hle⟩ := d.item_size hv
        have hlen : (buf.drop k).length < buf.length := by
          rw [List.length_drop]
          omega
        simp only [ih n (buf.drop k) (by omega) (by omega)]

variable {d}

theorem drain_more {buf : List β} (h : d.next buf = .more) : d.drain buf = ⟨[], buf, none⟩ := by
  simp only [drain, drainFuel, h]

theorem drain_fault {buf : List β} (h : d.next buf = .fault) :
    d.drain buf = ⟨[], buf, some .fault⟩ := by
  simp only [drain, drainFuel, h]

theorem drain_last {buf : List β} {a : α} {n : ℕ} (h : d.next buf = .item a n)
    (hl : d.last a = true) : d.drain buf = ⟨[a], buf.drop n, some .last⟩ := by
  simp only [drain, drainFuel, h, hl, if_true]

theorem drain_item {buf : List β} {a : α} {n : ℕ} (h : d.next buf = .item a n)
    (hl : d.last a = false) :
    d.drain buf = {d.drain (buf.drop n) with items := a :: (d.drain (buf.drop n)).items} := by
  obtain ⟨hpos, hle⟩ := d.item_size h
  have hlen : (buf.drop n).length < buf.length := by
    rw [List.length_drop]
    omega
  rw [drain, drainFuel]
  simp only [h, hl, Bool.false_eq_true, if_false]
  rw [d.drainFuel_enough _ _ hlen]

/-- The bytes an item takes are exactly what it was decoded from. -/
theorem drain_item_append {bytes rest : List β} {a : α} (h : d.next bytes = .item a bytes.length)
    (hl : d.last a = false) :
    d.drain (bytes ++ rest) = {d.drain rest with items := a :: (d.drain rest).items} := by
  rw [drain_item (d.item_append rest h) hl, List.drop_left]

/-- What a drain took first stood at the front. -/
theorem next_of_items {buf : List β} {a : α} {as : List α} (h : (d.drain buf).items = a :: as) :
    ∃ n, d.next buf = .item a n := by
  cases hnext : d.next buf with
  | more =>
    rw [drain_more hnext] at h
    cases h
  | fault =>
    rw [drain_fault hnext] at h
    cases h
  | item b n =>
    cases hlast : d.last b with
    | true =>
      rw [drain_last hnext hlast] at h
      exact ⟨n, congrArg (Verdict.item · n) (List.head_eq_of_cons_eq h)⟩
    | false =>
      rw [drain_item hnext hlast] at h
      exact ⟨n, congrArg (Verdict.item · n) (List.head_eq_of_cons_eq h)⟩

/-- What is cut off of an item is none. -/
theorem next_cut {bytes part rest : List β} {a : α} (h : d.next bytes = .item a bytes.length)
    (hpart : part ++ rest = bytes) (hrest : rest ≠ []) : d.next part = .more := by
  have hlen : part.length < bytes.length := by
    rw [← hpart, List.length_append]
    have := List.length_pos_iff.mpr hrest
    omega
  cases hnext : d.next part with
  | more => rfl
  | fault =>
    have hfault := d.fault_append rest hnext
    rw [hpart, h] at hfault
    cases hfault
  | item b size =>
    have hitem := d.item_append rest hnext
    rw [hpart, h] at hitem
    have hle := (d.item_size hnext).2
    have hsize := (Verdict.item.inj hitem).2
    omega

/-- Where a decoder stopped at no item, one that stops at fewer reads the same. -/
theorem drain_of_none {e : Decoder β α} (hnext : e.next = d.next) (hlast : ∀ a, d.last a = false → e.last a = false)
    (buf : List β) (h : (d.drain buf).halt = none) : e.drain buf = d.drain buf := by
  induction hlen : buf.length using Nat.strongRecOn generalizing buf with
  | ind n ih =>
    cases hv : d.next buf with
    | more => rw [drain_more hv, drain_more (by rw [hnext, hv])]
    | fault =>
      rw [drain_fault hv] at h
      cases h
    | item a k =>
      cases hl : d.last a with
      | true =>
        rw [drain_last hv hl] at h
        cases h
      | false =>
        rw [drain_item hv hl] at h ⊢
        obtain ⟨hpos, hle⟩ := d.item_size hv
        rw [drain_item (by rw [hnext, hv]) (hlast a hl),
          ih (buf.drop k).length (by rw [List.length_drop]; omega) _ h rfl]

variable (d)

/-- What a drain stopped at decides how it ended. -/
theorem next_rest_cases (buf : List β) :
    ((d.drain buf).halt = none → d.next (d.drain buf).rest = .more) ∧
      ((d.drain buf).halt = some .fault → d.next (d.drain buf).rest = .fault) := by
  induction hlen : buf.length using Nat.strongRecOn generalizing buf with
  | ind n ih =>
    cases hv : d.next buf with
    | more => simp [drain_more hv, hv]
    | fault => simp [drain_fault hv, hv]
    | item a k =>
      cases hl : d.last a with
      | true => simp [drain_last hv hl]
      | false =>
        rw [drain_item hv hl]
        obtain ⟨hpos, hle⟩ := d.item_size hv
        exact ih (buf.drop k).length (by rw [List.length_drop]; omega) _ rfl

/-- A drain that a last item ended took that item last, and no such item before. -/
theorem items_of_last (buf : List β) (h : (d.drain buf).halt = some .last) :
    ∃ before a, (d.drain buf).items = before ++ [a] ∧ d.last a = true ∧ ∀ b ∈ before, d.last b = false := by
  induction hlen : buf.length using Nat.strongRecOn generalizing buf with
  | ind n ih =>
    cases hv : d.next buf with
    | more => simp [drain_more hv] at h
    | fault => simp [drain_fault hv] at h
    | item a k =>
      cases hl : d.last a with
      | true => exact ⟨[], a, by rw [drain_last hv hl]; rfl, hl, by simp⟩
      | false =>
        rw [drain_item hv hl] at h ⊢
        obtain ⟨hpos, hle⟩ := d.item_size hv
        obtain ⟨before, b, hitems, hb, hbefore⟩ :=
          ih (buf.drop k).length (by rw [List.length_drop]; omega) _ h rfl
        exact ⟨a :: before, b, by rw [hitems]; rfl, hb, List.forall_mem_cons.mpr ⟨hl, hbefore⟩⟩

/-- What is kept of a buffer that can go on holds no whole item. -/
theorem next_rest (buf : List β) (h : (d.drain buf).halt = none) :
    d.next (d.drain buf).rest = .more := (d.next_rest_cases buf).1 h

/-- Going on from what a drain left, when more bytes have arrived. -/
def resume (r : Drained β α) (more : List β) : Drained β α :=
  match r.halt with
  | some h => ⟨r.items, r.rest ++ more, some h⟩
  | none => {d.drain (r.rest ++ more) with items := r.items ++ (d.drain (r.rest ++ more)).items}

/-- **Draining splits at any byte**: draining `x ++ y` is draining `x`, then what it
left followed by `y`. -/
theorem drain_append (x y : List β) : d.drain (x ++ y) = d.resume (d.drain x) y := by
  induction hlen : x.length using Nat.strongRecOn generalizing x with
  | ind n ih =>
    cases hv : d.next x with
    | more => rw [drain_more hv]; rfl
    | fault => rw [drain_fault hv, drain_fault (d.fault_append y hv)]; rfl
    | item a k =>
      obtain ⟨hpos, hle⟩ := d.item_size hv
      have hdrop : (x ++ y).drop k = x.drop k ++ y := List.drop_append_of_le_length hle
      cases hl : d.last a with
      | true => rw [drain_last hv hl, drain_last (d.item_append y hv) hl, hdrop]; rfl
      | false =>
        rw [drain_item hv hl, drain_item (d.item_append y hv) hl, hdrop,
          ih (x.drop k).length (by rw [List.length_drop]; omega) _ rfl]
        simp only [resume]
        cases (d.drain (x.drop k)).halt <;> rfl

variable {d}

/-- Formats that agree wherever the first has no fault drain alike up to one. -/
theorem drain_eq_of_agree {e : Decoder β α} (hlast : d.last = e.last)
    (hnext : ∀ buf, d.next buf ≠ .fault → d.next buf = e.next buf) (buf : List β)
    (h : (d.drain buf).halt ≠ some .fault) : d.drain buf = e.drain buf := by
  induction hlen : buf.length using Nat.strongRecOn generalizing buf with
  | ind n ih =>
    cases hv : d.next buf with
    | fault => exact absurd (congrArg Drained.halt (drain_fault hv)) h
    | more =>
      have he := hnext buf (by simp [hv])
      rw [drain_more hv, drain_more (he.symm.trans hv)]
    | item a k =>
      have he := hnext buf (by simp [hv])
      cases hl : d.last a with
      | true => rw [drain_last hv hl, drain_last (he.symm.trans hv) (by rw [← hlast, hl])]
      | false =>
        obtain ⟨hpos, hle⟩ := d.item_size hv
        rw [drain_item hv hl] at h
        rw [drain_item hv hl, drain_item (he.symm.trans hv) (by rw [← hlast, hl]),
          ih (buf.drop k).length (by rw [List.length_drop]; omega) _ h rfl]

end Decoder

/-! ### The loop over reads -/

/-- The loop between two reads: what it has dispatched, what it keeps, whether it is over. -/
structure ReadLoop (β α : Type) where
  dispatched : List α
  buf : List β
  halt : Option Halt

namespace ReadLoop
variable {β α : Type} (d : Decoder β α)

/-- One read that returned `chunk`, and the items it completes. A loop that is over reads nothing. -/
def recv (s : ReadLoop β α) (chunk : List β) : ReadLoop β α :=
  match s.halt with
  | some _ => s
  | none =>
    let r := d.drain (s.buf ++ chunk)
    ⟨s.dispatched ++ r.items, r.rest, r.halt⟩

/-- The loop started on the buffer `buf`, over the reads that return bytes. After them a
read returns nothing and the loop ends. -/
def run (buf : List β) (chunks : List (List β)) : ReadLoop β α :=
  chunks.foldl (recv d) ⟨[], buf, none⟩

@[simp] theorem run_nil (buf : List β) : run d buf [] = ⟨[], buf, none⟩ := rfl

/-- Between two reads the buffer holds no whole item. -/
theorem next_buf (s : ReadLoop β α) (hs : s.halt = none → d.next s.buf = .more) (chunks : List (List β)) :
    (chunks.foldl (recv d) s).halt = none → d.next (chunks.foldl (recv d) s).buf = .more := by
  induction chunks generalizing s with
  | nil => exact hs
  | cons c cs ih =>
    rw [List.foldl_cons]
    refine ih (recv d s c) ?_
    cases hh : s.halt with
    | some h => simp [recv, hh]
    | none =>
      simp only [recv, hh]
      exact d.next_rest (s.buf ++ c)

/-- A loop that has got somewhere with the bytes received, and bytes it never looks at
behind those it keeps. -/
theorem recv_drain {received unread : List β} {s : ReadLoop β α}
    (hs : d.drain received = ⟨s.dispatched, s.buf ++ unread, s.halt⟩) (hread : s.halt = none → unread = [])
    (chunk : List β) :
    ∃ unread', d.drain (received ++ chunk) =
        ⟨(recv d s chunk).dispatched, (recv d s chunk).buf ++ unread', (recv d s chunk).halt⟩ ∧
      ((recv d s chunk).halt = none → unread' = []) := by
  rw [Decoder.drain_append, Decoder.resume, hs]
  cases hh : s.halt with
  | some h =>
    have hrecv : recv d s chunk = s := by simp only [recv, hh]
    rw [hrecv]
    exact ⟨unread ++ chunk, by simp only [List.append_assoc, hh], fun hnone => absurd (hh.symm.trans hnone) (by simp)⟩
  | none =>
    obtain rfl := hread hh
    refine ⟨[], ?_, fun _ => rfl⟩
    simp only [recv, hh, List.append_nil]

/-- **After any reads the loop is where draining what it was sent ends**, but for bytes that
arrived when it was over. -/
theorem run_drain (buf c : List β) (cs : List (List β)) :
    ∃ unread, d.drain (buf ++ (c :: cs).flatten) =
        ⟨(run d buf (c :: cs)).dispatched, (run d buf (c :: cs)).buf ++ unread, (run d buf (c :: cs)).halt⟩ ∧
      ((run d buf (c :: cs)).halt = none → unread = []) := by
  induction cs using List.reverseRecOn with
  | nil =>
    refine ⟨[], ?_, fun _ => rfl⟩
    simp only [run, List.foldl_cons, List.foldl_nil, recv, List.flatten_cons, List.flatten_nil, List.append_nil,
      List.nil_append]
  | append_singleton cs chunk ih =>
    obtain ⟨unread, hs, hread⟩ := ih
    have hrun : run d buf (c :: (cs ++ [chunk])) = recv d (run d buf (c :: cs)) chunk := by
      rw [run, ← List.cons_append, List.foldl_append]
      rfl
    have hstream : buf ++ (c :: (cs ++ [chunk])).flatten = buf ++ (c :: cs).flatten ++ chunk := by
      rw [← List.cons_append, List.flatten_append, List.flatten_singleton, List.append_assoc]
    rw [hrun, hstream]
    exact recv_drain d hs hread chunk

/-- **However the reads cut the stream, the loop dispatches what draining it whole
does**, once one read has returned. The buffer it starts on may hold anything. -/
theorem run_eq_drain (buf c : List β) (cs : List (List β)) :
    (run d buf (c :: cs)).dispatched = (d.drain (buf ++ (c :: cs).flatten)).items ∧
      (run d buf (c :: cs)).halt = (d.drain (buf ++ (c :: cs).flatten)).halt := by
  obtain ⟨unread, hdrain, -⟩ := run_drain d buf c cs
  rw [hdrain]
  exact ⟨rfl, rfl⟩

/-- Started on nothing, the first read need not have returned. -/
theorem run_eq_drain_of_more (buf : List β) (hbuf : d.next buf = .more) (chunks : List (List β)) :
    (run d buf chunks).dispatched = (d.drain (buf ++ chunks.flatten)).items ∧
      (run d buf chunks).halt = (d.drain (buf ++ chunks.flatten)).halt := by
  cases chunks with
  | nil =>
    rw [List.flatten_nil, List.append_nil, Decoder.drain_more hbuf]
    exact ⟨rfl, rfl⟩
  | cons c cs => exact run_eq_drain d buf c cs

end ReadLoop

end VrxServer.Base
