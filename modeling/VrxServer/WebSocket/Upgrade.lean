import VrxServer.WebSocket.Base64
import VrxServer.WebSocket.Headers

/-! The reply to the upgrade request.

`connect` reads until it has seen the header's end, and then looks for the status and for the
accept value in all it has read. What came behind the header in the same read is looked
through as well, so that where the header has no blank or no accept value, it depends on where
the reads cut the stream whether the reply is taken (`handshake_by_header_iff`). -/
namespace VrxServer.WebSocket
open Base

def acceptName : List UInt8 := ascii "Sec-WebSocket-Accept"

/-- The checks of the response, each with the text of its exception. `none` would be a position
behind the end of the response. -/
def checkResponse (key response : List UInt8) : Option (Except (List UInt8) Unit) :=
  if find (ascii "101") response = none ∨ find (ascii " ") response = none ∨ response.take 5 ≠ ascii "HTTP/" then
    some (.error (ascii "handshake failed, server did not return HTTP 101: " ++ response.take 64))
  else do
    let statusSpace ← find (ascii " ") response
    let statusCode ← substr response (statusSpace + 1) 3
    if statusCode ≠ ascii "101" then return .error (ascii "handshake failed, server returned status " ++ statusCode)
    else
      let accept ← findHeaderValue response acceptName
      let expected ← expectedAccept key
      if accept ≠ expected then return .error (ascii "handshake failed: Sec-WebSocket-Accept mismatch")
      else return .ok ()

/-- What follows the reads that return bytes. -/
inductive LastRead where
  | timedOut
  | closed

def LastRead.error : LastRead → List UInt8
  | timedOut => ascii ("timed out after 5s waiting for handshake response (server accepted the TCP connection but never " ++
      "replied to the WebSocket upgrade request)")
  | closed => ascii "connection closed during WebSocket handshake"

/-- `connect` from the request on: what it saves, and the reads it leaves to the read loop. -/
def handshake (key : List UInt8) (reads : List (List UInt8)) (last : LastRead) :
    Option (Except (List UInt8) (List UInt8 × List (List UInt8))) :=
  match recvResponse [] reads with
  | none => some (.error last.error)
  | some (response, left) => do
    match ← checkResponse key response with
    | .error e => return .error e
    | .ok () => return .ok (afterHeader response, left)

/-! ### The checks -/

/-- The three bytes behind the first blank. -/
def statusOf (text : List UInt8) : Option (List UInt8) :=
  (find (ascii " ") text).map fun i => (text.drop (i + 1)).take 3

/-- A text that is an upgrade, with the value the key asks for. -/
structure Upgrades (key text : List UInt8) : Prop where
  http : text.take 5 = ascii "HTTP/"
  status : statusOf text = some (ascii "101")
  accept : headerField acceptName text = expectedAccept key

theorem statusOf_eq_some {text statusCode : List UInt8} :
    statusOf text = some statusCode ↔ ∃ i, find (ascii " ") text = some i ∧ (text.drop (i + 1)).take 3 = statusCode :=
  Option.map_eq_some_iff

/-- **The checks pass exactly of an upgrade**, and every position they use is in the response. -/
theorem checkResponse_ok (key response : List UInt8) :
    ∃ r, checkResponse key response = some r ∧ (r = .ok () ↔ Upgrades key response) := by
  obtain ⟨expected, hexpected, hne⟩ := expectedAccept_defined key
  unfold checkResponse
  split
  · next hfail =>
    refine ⟨_, rfl, iff_of_false nofun fun h => ?_⟩
    obtain ⟨i, hi, hcode⟩ := statusOf_eq_some.mp h.status
    have hle := find_le hi
    have hcodeAt : ascii "101" <+: response.drop (i + 1) := by
      rw [← hcode]
      exact List.take_prefix _ _
    obtain hnocode | hnospace | hnohttp := hfail
    · exact find_of_prefix hle hcodeAt hnocode
    · rw [hi] at hnospace
      cases hnospace
    · exact hnohttp h.http
  · next hpass =>
    simp only [not_or, not_not] at hpass
    obtain ⟨-, hspace, hhttp⟩ := hpass
    obtain ⟨i, hi⟩ := Option.ne_none_iff_exists'.mp hspace
    have hle := find_le hi
    have hsub : substr response (i + 1) 3 = some ((response.drop (i + 1)).take 3) := if_pos hle
    have hstatus : statusOf response = some ((response.drop (i + 1)).take 3) := by rw [statusOf, hi, Option.map_some]
    simp only [hi, hsub, Option.bind_eq_bind, Option.bind_some, findHeaderValue_eq, hexpected]
    split
    · next hcode =>
      refine ⟨_, rfl, iff_of_false nofun fun h => hcode ?_⟩
      rw [← Option.some_inj, ← hstatus, h.status]
    · next hcode =>
      rw [ne_eq, not_not] at hcode
      split
      · next hvalue =>
        refine ⟨_, rfl, iff_of_false nofun fun h => hvalue ?_⟩
        rw [h.accept, hexpected, Option.getD_some]
      · next hvalue =>
        rw [ne_eq, not_not] at hvalue
        refine ⟨_, rfl, iff_of_true rfl ⟨hhttp, by rw [hstatus, hcode], ?_⟩⟩
        rw [hexpected]
        cases hfield : headerField acceptName response with
        | none =>
          rw [hfield] at hvalue
          exact absurd hvalue.symm hne
        | some value =>
          rw [hfield] at hvalue
          exact congrArg some hvalue

/-! ### The header, and what is behind it -/

/-- A stream up to the end of its header. -/
def headerSection (stream : List UInt8) : List UInt8 := stream.take ((find crlfcrlf stream).getD 0 + 4)

/-- It ends with its last line's end and an empty line. -/
theorem headerSection_eq {stream : List UInt8} {i : ℕ} (h : find crlfcrlf stream = some i) :
    headerSection stream = stream.take i ++ crlf ++ crlf := by
  have hend : crlfcrlf = (stream.drop i).take 4 := List.prefix_iff_eq_take.mp (prefix_of_find h)
  rw [headerSection, h, Option.getD_some, List.take_add, ← hend, List.append_assoc]
  rfl

/-- **A status in the header is the status**; without one, what looks like one behind it is. -/
theorem statusOf_append (front rest : List UInt8) :
    statusOf (front ++ crlf ++ crlf ++ rest) = (statusOf (front ++ crlf ++ crlf)).or (statusOf rest) := by
  have hsplit := find_singleton_append 0x20 (front ++ crlf ++ crlf) rest
  have hfront := find_singleton_append 0x20 front (crlf ++ crlf)
  have hend : find [0x20] (crlf ++ crlf) = none := rfl
  rw [hend, Option.map_none, Option.or_none, ← List.append_assoc] at hfront
  show (find [0x20] _).map _ = ((find [0x20] _).map _).or ((find [0x20] _).map _)
  rw [hsplit]
  cases hspace : find [0x20] (front ++ crlf ++ crlf) with
  | some i =>
    -- the blank is before the two line ends, which leave room for a status
    rw [hfront] at hspace
    have hle := find_le hspace
    have hroom : i + 1 + 3 ≤ (front ++ crlf ++ crlf).length := by
      simp only [List.length_append, crlf, List.length_cons, List.length_nil] at hle ⊢
      omega
    simp only [Option.some_or, Option.map_some, Option.some.injEq]
    rw [List.drop_append_of_le_length (by omega), List.take_append_of_le_length (by rw [List.length_drop]; omega)]
  | none =>
    simp only [Option.none_or, Option.map_none, Option.map_map]
    refine congrArg (fun f => Option.map f (find [0x20] rest)) (funext fun j => ?_)
    rw [Function.comp_apply, Nat.add_assoc, List.drop_append, List.drop_eq_nil_of_le (by omega), List.nil_append,
      Nat.add_sub_cancel_left]

theorem take_append_header (front rest : List UInt8) :
    (front ++ crlf ++ crlf ++ rest).take 5 = ascii "HTTP/" ↔ (front ++ crlf ++ crlf).take 5 = ascii "HTTP/" := by
  cases front with
  | nil =>
    refine iff_of_false (fun h => ?_) (by decide)
    have hhead : some 0x0D = (ascii "HTTP/").head? := congrArg List.head? h
    exact absurd hhead (by decide)
  | cons b front =>
    rw [List.take_append_of_le_length]
    simp only [List.length_append, crlf, List.length_cons, List.length_nil]
    omega

/-- **What is behind the header supplies what the header does not have**, and nothing else. -/
theorem upgrades_append {stream : List UInt8} {i : ℕ} (h : find crlfcrlf stream = some i) (key rest : List UInt8) :
    Upgrades key (headerSection stream ++ rest) ↔ (headerSection stream).take 5 = ascii "HTTP/" ∧
      (statusOf (headerSection stream) = some (ascii "101") ∨
        statusOf (headerSection stream) = none ∧ statusOf rest = some (ascii "101")) ∧
      (headerField acceptName (headerSection stream) = expectedAccept key ∨
        headerField acceptName (headerSection stream) = none ∧ headerField acceptName rest = expectedAccept key) := by
  obtain ⟨expected, hexpected, -⟩ := expectedAccept_defined key
  have hfield := headerField_append acceptName (stream.take i ++ crlf) rest
  rw [headerSection_eq h, hexpected, ← Option.or_eq_some_iff, ← Option.or_eq_some_iff, ← statusOf_append,
    ← hfield, ← take_append_header _ rest, ← hexpected]
  exact ⟨fun hup => ⟨hup.http, hup.status, hup.accept⟩, fun hp => ⟨hp.1, hp.2.1, hp.2.2⟩⟩

/-! ### Where the reads end -/

/-- A way `recv` can hand over the stream. -/
def Splits (stream : List UInt8) (reads : List (List UInt8)) : Prop :=
  reads.flatten = stream ∧ ∀ chunk ∈ reads, chunk ≠ [] ∧ chunk.length ≤ 1024

/-- `connect` returns. -/
def Accepts (key : List UInt8) (reads : List (List UInt8)) (last : LastRead) : Prop :=
  ∃ saved, handshake key reads last = some (.ok saved)

theorem recvResponse_split {response response' : List UInt8} {chunks chunks' : List (List UInt8)}
    (h : recvResponse response chunks = some (response', chunks')) :
    response' ++ chunks'.flatten = response ++ chunks.flatten ∧
      (response' = response ∨ ∃ before, ∃ chunk ∈ chunks, response' = before ++ chunk ∧ find crlfcrlf before = none) := by
  induction chunks generalizing response with
  | nil =>
    unfold recvResponse at h
    split at h
    · cases h
      exact ⟨rfl, .inl rfl⟩
    · cases h
  | cons chunk chunks ih =>
    unfold recvResponse at h
    split at h
    · cases h
      exact ⟨rfl, .inl rfl⟩
    · next hnone =>
      obtain ⟨hflat, hlast⟩ := ih h
      refine ⟨by rw [hflat, List.flatten_cons, List.append_assoc], .inr ?_⟩
      obtain heq | ⟨before, chunk', hmem, heq, hbefore⟩ := hlast
      · exact ⟨response, chunk, List.mem_cons_self, heq, Option.not_isSome_iff_eq_none.mp hnone⟩
      · exact ⟨before, chunk', List.mem_cons_of_mem _ hmem, heq, hbefore⟩

/-- Reads that do not complete the header are taken together. -/
theorem recvResponse_append (response : List UInt8) (chunks more : List (List UInt8))
    (h : find crlfcrlf (response ++ chunks.flatten) = none) :
    recvResponse response (chunks ++ more) = recvResponse (response ++ chunks.flatten) more := by
  induction chunks generalizing response with
  | nil => rw [List.flatten_nil, List.append_nil, List.nil_append]
  | cons chunk chunks ih =>
    rw [List.flatten_cons, ← List.append_assoc] at h ⊢
    have hnone : ¬ (find crlfcrlf response).isSome = true := by
      intro hsome
      obtain ⟨i, hi⟩ := Option.isSome_iff_exists.mp hsome
      rw [List.append_assoc, find_append _ hi] at h
      cases h
    rw [List.cons_append, recvResponse, if_neg hnone]
    exact ih _ h

/-- A stream is searched no further than its first header end. -/
theorem find_take_none {stream : List UInt8} {i n : ℕ} (h : find crlfcrlf stream = some i) (hn : n < i + 4) :
    find crlfcrlf (stream.take n) = none := by
  cases hfind : find crlfcrlf (stream.take n) with
  | none => rfl
  | some j =>
    have hle := find_le hfind
    have hsame := find_append (stream.drop n) hfind
    rw [List.take_append_drop, h] at hsame
    cases hsame
    rw [List.length_take] at hle
    have hfour : crlfcrlf.length = 4 := rfl
    omega

theorem find_take_some {stream : List UInt8} {i n : ℕ} (h : find crlfcrlf stream = some i) (hn : i + 4 ≤ n) :
    find crlfcrlf (stream.take n) ≠ none := by
  have hle := find_le h
  have hfour : crlfcrlf.length = 4 := rfl
  refine find_of_prefix (i := i) (by rw [List.length_take]; omega) ?_
  rw [List.drop_take]
  exact List.prefix_take_iff.mpr ⟨prefix_of_find h, by omega⟩

theorem recvResponse_none {response : List UInt8} {chunks : List (List UInt8)} (h : recvResponse response chunks = none) :
    find crlfcrlf (response ++ chunks.flatten) = none := by
  induction chunks generalizing response with
  | nil =>
    unfold recvResponse at h
    split at h
    · cases h
    · next hnone => rwa [List.flatten_nil, List.append_nil, ← Option.not_isSome_iff_eq_none]
  | cons chunk chunks ih =>
    unfold recvResponse at h
    split at h
    · cases h
    · rw [List.flatten_cons, ← List.append_assoc]
      exact ih h

theorem take_header {stream : List UInt8} {i : ℕ} (h : find crlfcrlf stream = some i) (k : ℕ) :
    headerSection stream ++ (afterHeader stream).take k = stream.take (i + 4 + k) := by
  simp only [headerSection, afterHeader, h, Option.getD_some]
  exact List.take_add.symm

/-- **The response is the header and at most 1023 bytes behind it.** -/
theorem response_of_splits {stream : List UInt8} {i : ℕ} (h : find crlfcrlf stream = some i)
    {reads : List (List UInt8)} (hreads : Splits stream reads) :
    ∃ k left, k ≤ 1023 ∧
      recvResponse [] reads = some (headerSection stream ++ (afterHeader stream).take k, left) := by
  obtain ⟨hflat, hchunks⟩ := hreads
  cases hrecv : recvResponse [] reads with
  | none =>
    have hnone := recvResponse_none hrecv
    rw [List.nil_append, hflat, h] at hnone
    cases hnone
  | some r =>
    obtain ⟨response, left⟩ := r
    obtain ⟨hsplit, hlast⟩ := recvResponse_split hrecv
    obtain ⟨j, hj⟩ := recvResponse_find hrecv
    rw [List.nil_append, hflat] at hsplit
    have hsame := find_append left.flatten hj
    rw [hsplit, h] at hsame
    cases hsame
    have hle := find_le hj
    have hfour : crlfcrlf.length = 4 := rfl
    have hresponse : response = stream.take response.length := by rw [← hsplit, List.take_left']; rfl
    have hshort : response.length ≤ i + 4 + 1023 := by
      obtain rfl | ⟨before, chunk, hmem, rfl, hbefore⟩ := hlast
      · rw [List.length_nil]
        omega
      · by_contra hlong
        have hsize := (hchunks chunk hmem).2
        rw [List.length_append] at hlong
        have htake : stream.take before.length = before := by rw [← hsplit, List.append_assoc, List.take_left']; rfl
        refine find_take_some h (n := before.length) (by omega) ?_
        rw [htake, hbefore]
    have hheader := take_header h (response.length - (i + 4))
    have hk : i + 4 + (response.length - (i + 4)) = response.length := by omega
    rw [hk, ← hresponse] at hheader
    exact ⟨response.length - (i + 4), left, by omega, by rw [hheader]⟩

/-- Every such response can come about. -/
theorem splits_of_response {stream : List UInt8} {i : ℕ} (h : find crlfcrlf stream = some i) {k : ℕ} (hk : k ≤ 1023) :
    ∃ reads left, Splits stream reads ∧
      recvResponse [] reads = some (headerSection stream ++ (afterHeader stream).take k, left) := by
  have hle := find_le h
  have hfour : crlfcrlf.length = 4 := rfl
  have hsingle : ∀ bytes : List UInt8, (bytes.map fun b => [b]).flatten = bytes := fun bytes => by
    rw [← List.flatMap_def, List.flatMap_singleton']
  have hnone : find crlfcrlf ([] ++ ((stream.take (i + 3)).map fun b => [b]).flatten) = none := by
    rw [hsingle, List.nil_append]
    exact find_take_none h (by omega)
  have hchunk : stream.take (i + 3) ++ (stream.drop (i + 3)).take (k + 1) = stream.take (i + 4 + k) := by
    rw [← List.take_add]
    congr 1
    omega
  refine ⟨((stream.take (i + 3)).map fun b => [b]) ++
    (stream.drop (i + 3)).take (k + 1) :: (stream.drop (i + 4 + k)).map fun b => [b],
    (stream.drop (i + 4 + k)).map fun b => [b], ⟨?_, ?_⟩, ?_⟩
  · rw [List.flatten_append, List.flatten_cons, hsingle, hsingle, ← List.append_assoc, hchunk, List.take_append_drop]
  · intro chunk hmem
    rw [List.mem_append, List.mem_cons, List.mem_map, List.mem_map] at hmem
    obtain ⟨b, -, rfl⟩ | rfl | ⟨b, -, rfl⟩ := hmem
    · exact ⟨List.cons_ne_nil _ _, by simp⟩
    · refine ⟨List.ne_nil_of_length_pos ?_, ?_⟩ <;> rw [List.length_take, List.length_drop] <;> omega
    · exact ⟨List.cons_ne_nil _ _, by simp⟩
  · rw [recvResponse_append _ _ _ hnone, hsingle, List.nil_append, recvResponse,
      if_neg (by rw [find_take_none h (by omega)]; exact Bool.false_ne_true), hchunk, take_header h]
    unfold recvResponse
    rw [if_pos (Option.isSome_iff_ne_none.mpr (find_take_some h (by omega)))]

/-! ### What the outcome depends on -/

/-- The outcome is decided by the header, however the reads cut the stream, and none of what is
behind it is lost. -/
structure HandshakeByHeader (key stream : List UInt8) (last : LastRead) : Prop where
  splits : ∀ reads reads', Splits stream reads → Splits stream reads' →
    (Accepts key reads last ↔ Accepts key reads' last)
  header : ∀ reads, Splits stream reads → (Accepts key reads last ↔ Upgrades key (headerSection stream))
  rest : ∀ reads pendingBytes left, Splits stream reads →
    handshake key reads last = some (.ok (pendingBytes, left)) → pendingBytes ++ left.flatten = afterHeader stream

/-- The header has a fault, which is that it has no blank or no accept value, and what the read
that completes the header can bring behind it makes up for that. -/
structure SuppliedBehind (key stream : List UInt8) : Prop where
  http : (headerSection stream).take 5 = ascii "HTTP/"
  missing : statusOf (headerSection stream) = none ∨ headerField acceptName (headerSection stream) = none
  status : statusOf (headerSection stream) = none ∨ statusOf (headerSection stream) = some (ascii "101")
  accept : headerField acceptName (headerSection stream) = none ∨
    headerField acceptName (headerSection stream) = expectedAccept key
  supplied : ∃ k ≤ 1023,
    (statusOf (headerSection stream) = none → statusOf ((afterHeader stream).take k) = some (ascii "101")) ∧
    (headerField acceptName (headerSection stream) = none →
      headerField acceptName ((afterHeader stream).take k) = expectedAccept key)

/-- The outcome is the checks' of the response, and what is saved is what is behind its header. -/
theorem handshake_eq {key response : List UInt8} {reads left : List (List UInt8)}
    (h : recvResponse [] reads = some (response, left)) (last : LastRead) :
    (Accepts key reads last ↔ Upgrades key response) ∧
      ∀ saved, handshake key reads last = some (.ok saved) → saved = (afterHeader response, left) := by
  obtain ⟨r, hr, hok⟩ := checkResponse_ok key response
  have hrun : handshake key reads last = match r with
      | .error e => some (.error e)
      | .ok () => some (.ok (afterHeader response, left)) := by
    simp only [handshake, h, hr, Option.bind_eq_bind, Option.bind_some]
    cases r <;> rfl
  rw [← hok, Accepts, hrun]
  cases r with
  | error e => exact ⟨iff_of_false nofun nofun, nofun⟩
  | ok u =>
    refine ⟨iff_of_true ⟨_, rfl⟩ rfl, fun saved hsaved => ?_⟩
    cases hsaved
    rfl

/-- What the header has cannot be overruled: what is behind it can only turn a refusal. -/
theorem upgrades_of_header {key stream : List UInt8} {i : ℕ} (h : find crlfcrlf stream = some i) (rest : List UInt8)
    (hup : Upgrades key (headerSection stream)) : Upgrades key (headerSection stream ++ rest) :=
  (upgrades_append h key rest).mpr ⟨hup.http, .inl hup.status, .inl hup.accept⟩

theorem suppliedBehind_iff {key stream : List UInt8} {i : ℕ} (h : find crlfcrlf stream = some i) :
    SuppliedBehind key stream ↔ ¬ Upgrades key (headerSection stream) ∧
      ∃ k ≤ 1023, Upgrades key (headerSection stream ++ (afterHeader stream).take k) := by
  obtain ⟨expected, hexpected, -⟩ := expectedAccept_defined key
  constructor
  · intro hs
    obtain ⟨k, hk, hstatus, hfield⟩ := hs.supplied
    refine ⟨fun hup => ?_, k, hk, (upgrades_append h key _).mpr ⟨hs.http, ?_, ?_⟩⟩
    · obtain hnone | hnone := hs.missing
      · rw [hup.status] at hnone
        cases hnone
      · rw [hup.accept, hexpected] at hnone
        cases hnone
    · exact hs.status.symm.imp_right fun hnone => ⟨hnone, hstatus hnone⟩
    · exact hs.accept.symm.imp_right fun hnone => ⟨hnone, hfield hnone⟩
  · intro hp
    obtain ⟨hnot, k, hk, hup⟩ := hp
    obtain ⟨hhttp, hstatus, hfield⟩ := (upgrades_append h key _).mp hup
    refine ⟨hhttp, ?_, hstatus.symm.imp_left And.left, hfield.symm.imp_left And.left, k, hk, ?_, ?_⟩
    · obtain hstatus | hstatus := hstatus
      · obtain hfield | hfield := hfield
        · exact absurd ⟨hhttp, hstatus, hfield⟩ hnot
        · exact .inr hfield.1
      · exact .inl hstatus.1
    · intro hnone
      rw [hnone] at hstatus
      exact (hstatus.resolve_left nofun).2
    · intro hnone
      rw [hnone, hexpected] at hfield
      rw [hexpected]
      exact (hfield.resolve_left nofun).2

/-- **The outcome depends on the header only, exactly when a header with a part missing is not
made whole by what is behind it.** -/
theorem handshake_by_header_iff (key stream : List UInt8) (last : LastRead) (h : (find crlfcrlf stream).isSome) :
    HandshakeByHeader key stream last ↔ ¬ SuppliedBehind key stream := by
  obtain ⟨i, hi⟩ := Option.isSome_iff_exists.mp h
  rw [suppliedBehind_iff hi]
  constructor
  · intro hby hsupplied
    obtain ⟨hnot, k, hk, hup⟩ := hsupplied
    obtain ⟨reads, left, hreads, hrecv⟩ := splits_of_response hi hk
    exact hnot ((hby.header reads hreads).mp ((handshake_eq hrecv last).1.mpr hup))
  · intro hnot
    have hheader : ∀ reads, Splits stream reads → (Accepts key reads last ↔ Upgrades key (headerSection stream)) := by
      intro reads hreads
      obtain ⟨k, left, hk, hrecv⟩ := response_of_splits hi hreads
      rw [(handshake_eq hrecv last).1]
      refine ⟨fun hup => ?_, upgrades_of_header hi _⟩
      by_contra hheader
      exact hnot ⟨hheader, k, hk, hup⟩
    refine ⟨fun reads reads' hreads hreads' => (hheader reads hreads).trans (hheader reads' hreads').symm, hheader, ?_⟩
    intro reads pendingBytes left hreads hrun
    obtain ⟨k, left', -, hrecv⟩ := response_of_splits hi hreads
    have hsaved := (handshake_eq hrecv last).2 _ hrun
    cases hsaved
    have hsplit := (recvResponse_split hrecv).1
    rw [List.nil_append, hreads.1] at hsplit
    rw [← afterHeader_append _ (recvResponse_find hrecv), hsplit]

/-- A whole reply, and a frame behind it. -/
theorem handshake_by_header_eager : HandshakeByHeader sampleKey eagerReply .closed := by
  refine (handshake_by_header_iff sampleKey eagerReply .closed (by decide +kernel)).mpr fun h => ?_
  have hmissing := h.missing
  revert hmissing
  decide +kernel

/-- A reply whose accept value is behind its header. -/
def lateAccept : List UInt8 :=
  ascii "HTTP/1.1 101 Switching Protocols\r\n\r\nSec-WebSocket-Accept: s3pPLMBiTxaQ9kYGzzhZRbK+xOo=\r\n"

/-- It is taken where one read brings all of it, and refused where a read ends with the header. -/
theorem accept_behind_header : ¬ ∀ (key stream : List UInt8) (last : LastRead), (find crlfcrlf stream).isSome →
    HandshakeByHeader key stream last := by
  intro h
  have hby := h sampleKey lateAccept .closed (by decide +kernel)
  have htogether : recvResponse [] [lateAccept] = some (lateAccept, []) := by decide +kernel
  have happart : recvResponse [] [headerSection lateAccept, afterHeader lateAccept] =
      some (headerSection lateAccept, [afterHeader lateAccept]) := by decide +kernel
  have hsame := hby.splits [lateAccept] [headerSection lateAccept, afterHeader lateAccept]
    ⟨List.append_nil _, by decide +kernel⟩ ⟨by decide +kernel, by decide +kernel⟩
  rw [(handshake_eq htogether .closed).1, (handshake_eq happart .closed).1] at hsame
  have htaken : Upgrades sampleKey lateAccept :=
    ⟨by decide +kernel, by decide +kernel, by rw [expectedAccept_sample]; decide +kernel⟩
  have hrefused := (hsame.mp htaken).accept
  rw [expectedAccept_sample] at hrefused
  revert hrefused
  decide +kernel

end VrxServer.WebSocket
