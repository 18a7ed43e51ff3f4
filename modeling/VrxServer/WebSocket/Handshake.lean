import VrxServer.WebSocket.Client

/-! From the handshake's last read to the read loop.

The bytes that follow the header in the read that completes it are saved, and the read loop
starts on them. It looks at its buffer only after a read of its own, though: a frame that is
whole in the saved bytes waits for that read, however long it takes (`none_stranded_iff`). -/
namespace VrxServer.WebSocket
open Base

/-- `std::string::find`, from the start. -/
def find (needle : List UInt8) : List UInt8 → Option ℕ
  | [] => if needle.isEmpty then some 0 else none
  | b :: bs => if needle.isPrefixOf (b :: bs) then some 0 else (find needle bs).map (· + 1)

def crlfcrlf : List UInt8 := [0x0D, 0x0A, 0x0D, 0x0A]

/-- The handshake's reads, up to the one that completes the header: the response they make up,
and the reads that follow. -/
def recvResponse : List UInt8 → List (List UInt8) → Option (List UInt8 × List (List UInt8))
  | response, chunks =>
    if (find crlfcrlf response).isSome then some (response, chunks)
    else
      match chunks with
      | [] => none
      | chunk :: chunks => recvResponse (response ++ chunk) chunks

/-- What is behind the header. `connect` saves it of a response that passes its checks. -/
def afterHeader (response : List UInt8) : List UInt8 :=
  match find crlfcrlf response with
  | none => []
  | some i => response.drop (i + 4)

/-! ### Whole frames, in arithmetic without bounds -/

def wholeFrame (buf : List UInt8) : Verdict Frame :=
  match frameHeader buf with
  | none => .more
  | some h =>
    if buf.length < h.headerLen + h.payloadLen then .more
    else .item ⟨h.fin, h.opcode, readPayload buf h⟩ (h.headerLen + h.payloadLen)

theorem wholeFrame_item {buf : List UInt8} {f : Frame} {n : ℕ} :
    wholeFrame buf = .item f n ↔ ∃ h, frameHeader buf = some h ∧ h.headerLen + h.payloadLen ≤ buf.length ∧
      f = ⟨h.fin, h.opcode, readPayload buf h⟩ ∧ n = h.headerLen + h.payloadLen := by
  unfold wholeFrame
  cases hh : frameHeader buf with
  | none => simp
  | some h =>
    simp only [Option.some.injEq, exists_eq_left']
    split
    · next hshort => exact iff_of_false (by simp) fun hle => absurd hle.1 (by omega)
    · next hlong =>
      simp only [Verdict.item.injEq]
      constructor
      · intro hp
        obtain ⟨rfl, rfl⟩ := hp
        exact ⟨by omega, rfl, rfl⟩
      · intro hp
        obtain ⟨-, rfl, rfl⟩ := hp
        exact ⟨rfl, rfl⟩

theorem wholeFrame_ne_fault (buf : List UInt8) : wholeFrame buf ≠ .fault := by
  unfold wholeFrame
  split
  · simp
  · split <;> simp

theorem wholeFrame_size {buf : List UInt8} {f : Frame} {n : ℕ} (h : wholeFrame buf = .item f n) :
    0 < n ∧ n ≤ buf.length := by
  obtain ⟨hd, hh, hlen, -, rfl⟩ := wholeFrame_item.mp h
  obtain ⟨-, hlow, -, -⟩ := frameHeader_bounds hh
  exact ⟨by omega, hlen⟩

theorem wholeFrame_append {buf : List UInt8} {f : Frame} {n : ℕ} (rest : List UInt8)
    (h : wholeFrame buf = .item f n) : wholeFrame (buf ++ rest) = .item f n := by
  obtain ⟨hd, hh, hlen, rfl, rfl⟩ := wholeFrame_item.mp h
  obtain ⟨-, -, -, hmask⟩ := frameHeader_bounds hh
  refine wholeFrame_item.mpr ⟨hd, frameHeader_append rest hh, ?_, ?_, rfl⟩
  · rw [List.length_append]
    omega
  · rw [readPayload_append rest hmask hlen]

theorem wholeFrame_fault_append {buf : List UInt8} (rest : List UInt8) (h : wholeFrame buf = .fault) :
    wholeFrame (buf ++ rest) = .fault := (wholeFrame_ne_fault _ h).elim

def wholeDecoder : Decoder UInt8 Frame where
  next := wholeFrame
  last f := f.opcode == 0x8
  item_size := wholeFrame_size
  item_append := wholeFrame_append
  fault_append := wholeFrame_fault_append

/-- The complete frames at the front of a stream, up to the first Close. -/
def completeFrames (bytes : List UInt8) : List Frame := (wholeDecoder.drain bytes).items

/-- Short of a length no vector can have, the loop finds the frames that are there. -/
theorem nextFrame_eq_wholeFrame {buf : List UInt8} (h : nextFrame buf ≠ .fault) : nextFrame buf = wholeFrame buf := by
  cases hn : nextFrame buf with
  | fault => exact absurd hn h
  | item f n =>
    obtain ⟨hd, hh, -, hlen, rfl, rfl⟩ := nextFrame_item.mp hn
    exact (wholeFrame_item.mpr ⟨hd, hh, hlen, rfl, rfl⟩).symm
  | more =>
    cases hw : wholeFrame buf with
    | more => rfl
    | fault => exact absurd hw (wholeFrame_ne_fault buf)
    | item f n =>
      obtain ⟨hd, hh, hlen, -, -⟩ := wholeFrame_item.mp hw
      unfold nextFrame at hn
      have hmod := Nat.mod_le (hd.headerLen + hd.payloadLen) (2 ^ 64)
      simp only [hh] at hn
      rw [if_neg (by omega)] at hn
      split at hn <;> cases hn

/-! ### Where the handshake's last read ends -/

/-- What the loop has dispatched when it goes to its next read, or has returned. -/
def dispatched (pendingBytes : List UInt8) (done : List (List UInt8)) : List Frame :=
  (ReadLoop.run decoder pendingBytes done).dispatched

/-- The loop was left by the exception of a length no vector can have. -/
def Threw (pendingBytes : List UInt8) (done : List (List UInt8)) : Prop :=
  (ReadLoop.run decoder pendingBytes done).halt = some .fault

/-- At each read of the loop, and when it returns, the complete frames among the bytes received
behind the header have been dispatched. -/
def NoneStranded (reads : List (List UInt8)) : Prop :=
  ∀ response chunks, recvResponse [] reads = some (response, chunks) → ∀ done, done <+: chunks →
    ¬ Threw (afterHeader response) done →
    dispatched (afterHeader response) done = completeFrames (afterHeader (response ++ done.flatten))

theorem find_le {needle bytes : List UInt8} {i : ℕ} (h : find needle bytes = some i) :
    i + needle.length ≤ bytes.length := by
  induction bytes generalizing i with
  | nil =>
    simp only [find, List.isEmpty_iff] at h
    split at h
    · next hempty =>
      cases h
      rw [hempty]
      exact le_refl _
    · cases h
  | cons b bytes ih =>
    simp only [find, List.isPrefixOf_iff_prefix] at h
    split at h
    · next hprefix =>
      cases h
      rw [Nat.zero_add]
      exact hprefix.length_le
    · obtain ⟨j, hj, rfl⟩ := Option.map_eq_some_iff.mp h
      have := ih hj
      rw [List.length_cons]
      omega

theorem find_append {needle bytes : List UInt8} {i : ℕ} (rest : List UInt8) (h : find needle bytes = some i) :
    find needle (bytes ++ rest) = some i := by
  induction bytes generalizing i with
  | nil =>
    simp only [find, List.isEmpty_iff] at h
    split at h
    · next hempty =>
      rw [hempty, ← h]
      cases rest <;> rfl
    · cases h
  | cons b bytes ih =>
    simp only [List.cons_append, find, List.isPrefixOf_iff_prefix] at h ⊢
    split at h
    · next hprefix =>
      have hprefix' : needle <+: b :: (bytes ++ rest) := hprefix.trans (List.prefix_append (b :: bytes) rest)
      rw [if_pos hprefix', h]
    · next hprefix =>
      obtain ⟨j, hj, rfl⟩ := Option.map_eq_some_iff.mp h
      have hle := find_le hj
      -- a needle that fits later in the bytes does not reach behind them from here
      have hprefix' : ¬ needle <+: b :: (bytes ++ rest) := fun hp => hprefix <|
        List.prefix_of_prefix_length_le hp (List.prefix_append (b :: bytes) rest)
          (by rw [List.length_cons]; omega)
      rw [if_neg hprefix', ih hj]
      rfl

theorem recvResponse_find {response response' : List UInt8} {chunks chunks' : List (List UInt8)}
    (h : recvResponse response chunks = some (response', chunks')) : ∃ i, find crlfcrlf response' = some i := by
  induction chunks generalizing response with
  | nil =>
    unfold recvResponse at h
    split at h
    · next hfind =>
      cases h
      exact Option.isSome_iff_exists.mp hfind
    · cases h
  | cons chunk chunks ih =>
    unfold recvResponse at h
    split at h
    · next hfind =>
      cases h
      exact Option.isSome_iff_exists.mp hfind
    · exact ih h

/-- What is received later is behind the header too. -/
theorem afterHeader_append {response : List UInt8} (rest : List UInt8) (h : ∃ i, find crlfcrlf response = some i) :
    afterHeader (response ++ rest) = afterHeader response ++ rest := by
  obtain ⟨i, hi⟩ := h
  simp only [afterHeader, hi, find_append rest hi]
  exact List.drop_append_of_le_length (find_le hi)

/-- Once a read has returned, the loop is not behind. -/
theorem dispatched_eq (pendingBytes c : List UInt8) (cs : List (List UInt8)) (h : ¬ Threw pendingBytes (c :: cs)) :
    dispatched pendingBytes (c :: cs) = completeFrames (pendingBytes ++ (c :: cs).flatten) := by
  obtain ⟨hitems, hhalt⟩ := ReadLoop.run_eq_drain decoder pendingBytes c cs
  rw [Threw, hhalt] at h
  have hdrain := Decoder.drain_eq_of_agree (d := decoder) (e := wholeDecoder) rfl
    (fun _ hf => nextFrame_eq_wholeFrame hf) _ h
  rw [dispatched, hitems, completeFrames, hdrain]

/-- **No frame is stranded exactly when the read that completes the header brings no whole
frame with it.** -/
theorem none_stranded_iff (reads : List (List UInt8)) :
    NoneStranded reads ↔ ∀ response chunks, recvResponse [] reads = some (response, chunks) →
      completeFrames (afterHeader response) = [] := by
  refine forall₃_congr fun response chunks hrecv => ?_
  have hfind := recvResponse_find hrecv
  constructor
  · intro h
    have hfirst := h [] (List.nil_prefix ..) nofun
    rw [List.flatten_nil, List.append_nil] at hfirst
    exact hfirst.symm
  · intro h done _ hthrew
    rw [afterHeader_append _ hfind]
    cases done with
    | nil =>
      rw [List.flatten_nil, List.append_nil, h]
      rfl
    | cons c cs => exact dispatched_eq _ _ _ hthrew

/-- A reply that is accepted where the key sent was the standard's sample one, and an unmasked
text frame "hi" in the same read. -/
def eagerReply : List UInt8 :=
  "HTTP/1.1 101 Switching Protocols\r\nSec-WebSocket-Accept: s3pPLMBiTxaQ9kYGzzhZRbK+xOo=\r\n\r\n".toUTF8.data.toList ++
    [0x81, 0x02, 0x68, 0x69]

theorem text_stranded : ¬ ∀ reads, NoneStranded reads := by
  intro h
  have := h [eagerReply] eagerReply [] (by decide +kernel) [] (List.nil_prefix ..) nofun
  revert this
  decide +kernel

end VrxServer.WebSocket
