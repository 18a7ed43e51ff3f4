import VrxServer.Base.Decimal
import VrxServer.WebSocket.Fields
import VrxServer.WebSocket.Upgrade

/-! The request the client sends, and a server that answers it.

The request is an opening handshake as the standard has it, with a fresh key of sixteen
bytes. A server reads the key off it, and its reply is taken exactly if its status is 101 and
the accept value is the one that key asks for, whatever other fields it has, whatever its
reason phrase says and however the reads cut it; and every byte behind the reply is left to
the read loop (`handshake_interoperates`). -/
namespace VrxServer.WebSocket
open Base

/-- The key, of the bytes that are drawn. -/
def generateWebSocketKey (raw : Fin 16 → UInt8) : List UInt8 := base64Encode (List.ofFn raw)

/-- `request`, in `connect`. -/
def requestText (host : List UInt8) (port : UInt16) (key : List UInt8) : List UInt8 :=
  ascii "GET / HTTP/1.1\r\n" ++ ascii "Host: " ++ host ++ ascii ":" ++ decimal port.toNat ++ ascii "\r\n" ++
    ascii "Upgrade: websocket\r\n" ++ ascii "Connection: Upgrade\r\n" ++ ascii "Sec-WebSocket-Key: " ++ key ++
    ascii "\r\n" ++ ascii "Sec-WebSocket-Version: 13\r\n" ++ ascii "\r\n"

/-! ### What a server of the standard makes of a request -/

/-- The header fields such a server asks for, and the key it reads. -/
structure OpeningHandshake (request key : List UInt8) : Prop where
  whole : ∃ i, find crlfcrlf request = some i ∧ headerSection request = request
  method : (lines request).head? = some (ascii "GET / HTTP/1.1")
  host : headerField (ascii "Host") request ≠ none
  upgrade : ∃ value, headerField (ascii "Upgrade") request = some value ∧ sameName value (ascii "websocket")
  connection : ∃ value, headerField (ascii "Connection") request = some value ∧ sameName value (ascii "upgrade")
  named : headerField (ascii "Sec-WebSocket-Key") request = some key
  /-- The key stands for sixteen bytes. -/
  nonce : ∃ raw, Rfc4648.decode key = some raw ∧ raw.length = 16
  version : headerField (ascii "Sec-WebSocket-Version") request = some (ascii "13")

/-- A reply, with any status code. -/
structure Reply where
  code : List UInt8
  reason : List UInt8
  fields : List Field
  code_digits : code.length = 3 ∧ ∀ c ∈ code, 0x30 ≤ c ∧ c ≤ 0x39
  reason_plain : ∀ c ∈ reason, c ≠ 0x0D ∧ c ≠ 0x0A

namespace Reply

def status (r : Reply) : List UInt8 := ascii "HTTP/1.1 " ++ r.code ++ r.reason

def bytes (r : Reply) : List UInt8 := responseText r.status r.fields

/-- The value of its first accept field. -/
def accept (r : Reply) : Option (List UInt8) :=
  (r.fields.find? fun f => sameName f.name acceptName).map fun f => strip f.value

end Reply

/-- The value that answers a key: the digest of the key and the standard's constant, in base64. -/
def Answers (key value : List UInt8) : Prop :=
  ∃ digest, sha1 (key ++ kMagicGuid) = some digest ∧ value = Rfc4648.encode digest

theorem answers_iff (key value : List UInt8) : Answers key value ↔ expectedAccept key = some value := by
  simp only [Answers, expectedAccept, Option.map_eq_some_iff, base64Encode_eq, eq_comm (a := value)]

/-! ### Texts of lines -/

/-- No header ends inside a line. -/
theorem find_line {line rest : List UInt8} (h : ∀ c ∈ line, c ≠ 0x0D) :
    find crlfcrlf (line ++ rest) = (find crlfcrlf rest).map (line.length + ·) := by
  induction line with
  | nil => simp
  | cons c line ih =>
    have hstart : ¬ (crlfcrlf.isPrefixOf (c :: (line ++ rest))) = true := by
      rw [List.isPrefixOf_iff_prefix]
      intro hp
      exact h c List.mem_cons_self (List.cons_prefix_cons.mp hp).1.symm
    rw [List.cons_append, find, if_neg hstart, ih fun d hd => h d (List.mem_cons_of_mem c hd), Option.map_map]
    congr 1
    funext i
    rw [Function.comp_apply, List.length_cons]
    omega

theorem find_crlf {b : UInt8} (hb : b ≠ 0x0D) (rest : List UInt8) :
    find crlfcrlf (crlf ++ b :: rest) = (find crlfcrlf (b :: rest)).map (2 + ·) := by
  have hfirst : ¬ (crlfcrlf.isPrefixOf (0x0D :: 0x0A :: b :: rest)) = true := by
    rw [List.isPrefixOf_iff_prefix]
    intro hp
    have hp' := (List.cons_prefix_cons.mp (List.cons_prefix_cons.mp hp).2).2
    exact hb (List.cons_prefix_cons.mp hp').1.symm
  have hsecond : ¬ (crlfcrlf.isPrefixOf (0x0A :: b :: rest)) = true := by
    rw [List.isPrefixOf_iff_prefix]
    intro hp
    exact absurd (List.cons_prefix_cons.mp hp).1 (by decide)
  show find crlfcrlf (0x0D :: 0x0A :: b :: rest) = _
  rw [find, if_neg hfirst, find, if_neg hsecond, Option.map_map]
  congr 1
  funext i
  rw [Function.comp_apply]
  omega

/-- The header of a response ends where the response does. -/
theorem find_responseText {status : List UInt8} (hstatus : ∀ c ∈ status, c ≠ 0x0D) (fields : List Field)
    (later : List UInt8) :
    ∃ i, find crlfcrlf (responseText status fields ++ later) = some i ∧ i + 4 = (responseText status fields).length := by
  induction fields generalizing status with
  | nil =>
    have htext : responseText status [] ++ later = status ++ (crlfcrlf ++ later) := by
      rw [responseText, List.map_nil, List.intercalate_singleton, List.append_assoc, List.append_assoc]
      rfl
    have hend : find crlfcrlf (crlfcrlf ++ later) = some 0 := find_append later (by decide)
    refine ⟨status.length, ?_, ?_⟩
    · rw [htext, find_line hstatus, hend]
      rfl
    · simp [responseText, crlf]
  | cons f fields ih =>
    obtain ⟨i, hi, hlen⟩ := @ih f.line fun c hc => (f.line_plain c hc).1
    have htext : responseText status (f :: fields) = status ++ (crlf ++ responseText f.line fields) := by
      simp only [responseText, List.map_cons, List.intercalate_cons_cons, List.append_assoc]
    obtain ⟨b, front, hline⟩ : ∃ b front, f.line = b :: front := by
      cases hname : f.name with
      | nil => exact ⟨_, _, by rw [Field.line, hname]; rfl⟩
      | cons b name => exact ⟨_, _, by rw [Field.line, hname]; rfl⟩
    obtain ⟨rest, hrest⟩ : ∃ rest, responseText f.line fields = b :: rest := by
      cases fields with
      | nil => exact ⟨_, by rw [responseText, hline]; rfl⟩
      | cons g fields => exact ⟨_, by rw [responseText, List.map_cons, List.intercalate_cons_cons, hline]; rfl⟩
    have hb : b ≠ 0x0D := (f.line_plain b (hline ▸ List.mem_cons_self)).1
    rw [hrest, List.cons_append] at hi
    refine ⟨status.length + (2 + i), ?_, ?_⟩
    · rw [htext, hrest, List.append_assoc, List.append_assoc, find_line hstatus, List.cons_append, find_crlf hb, hi]
      rfl
    · rw [htext, List.length_append, List.length_append, ← hlen]
      show _ = status.length + (2 + (i + 4))
      omega

/-- What a field is named it is found by, whatever the line before the fields says, if that is no
field of the name. -/
theorem headerField_responseText {status headerName : List UInt8} (hstatus : ∀ c ∈ status, c ≠ 0x0D)
    (hname : fieldValue headerName status = none) (fields : List Field) :
    headerField headerName (responseText status fields) =
      (fields.find? fun f => sameName f.name headerName).map fun f => strip f.value := by
  have hempty : fieldValue headerName [] = none := fieldValue_none (by simp)
  have hfields : (fields.map Field.line).findSome? (fieldValue headerName) =
      (fields.find? fun f => sameName f.name headerName).map fun f => strip f.value := by
    induction fields with
    | nil => rfl
    | cons f fields ih =>
      rw [List.map_cons, List.findSome?_cons, List.find?_cons, fieldValue_line, ih]
      cases sameName f.name headerName <;> rfl
  rw [headerField, lines_responseText, lines_line hstatus, List.findSome?_append, List.findSome?_append, hfields,
    List.findSome?_cons, hname, List.findSome?_cons, hempty]
  simp

/-! ### The request -/

/-- The digits and the padding are no blanks, and end no line. -/
theorem base64Encode_plain {data : List UInt8} {c : UInt8} (h : c ∈ base64Encode data) :
    blank c = false ∧ c ≠ 0x0D ∧ c ≠ 0x0A := by
  obtain ⟨digits, hdigits, hall⟩ := Rfc4648.encode_padded data
  rw [base64Encode_eq, hdigits] at h
  rcases List.mem_append.mp h with h | h
  · have hvalue := hall c h
    refine ⟨?_, ?_, ?_⟩
    · by_contra hblank
      simp only [blank, Bool.not_eq_false, Bool.or_eq_true, beq_iff_eq] at hblank
      rcases hblank with rfl | rfl <;> exact hvalue (by decide)
    · rintro rfl
      exact hvalue (by decide)
    · rintro rfl
      exact hvalue (by decide)
  · rw [(List.mem_replicate.mp h).2]
    decide

theorem strip_plain {value : List UInt8} (h : ∀ c ∈ value, blank c = false) : strip value = value := by
  have hfront : value.dropWhile blank = value := by
    cases value with
    | nil => rfl
    | cons c value =>
      rw [List.dropWhile_cons, h c List.mem_cons_self]
      rfl
  rw [strip, hfront]
  exact List.rdropWhile_eq_self_iff.mpr fun hne => by simp [h _ (List.getLast_mem hne)]

section
variable (host : List UInt8) (hhost : ∀ c ∈ host, c ≠ 0x0D ∧ c ≠ 0x0A) (port : UInt16) (raw : Fin 16 → UInt8)

/-- A field as the client writes it. -/
def requestField (name value : List UInt8) (hname : ∀ c ∈ name, c ≠ 0x3A ∧ c ≠ 0x0D ∧ c ≠ 0x0A)
    (hvalue : ∀ c ∈ value, c ≠ 0x0D ∧ c ≠ 0x0A) : Field where
  name := name
  before := [0x20]
  value := value
  after := []
  name_plain := hname
  before_blank := List.forall_mem_singleton.mpr (by decide)
  value_plain := hvalue
  after_blank := List.forall_mem_nil _

include hhost in
theorem host_plain : ∀ c ∈ host ++ 0x3A :: decimal port.toNat, c ≠ 0x0D ∧ c ≠ 0x0A := by
  intro c hc
  rcases List.mem_append.mp hc with hc | hc
  · exact hhost c hc
  · rcases List.mem_cons.mp hc with rfl | hc
    · decide
    · have hdigit := decimal_digit hc
      constructor <;> rintro rfl <;> exact absurd hdigit (by decide)

theorem upgrade_plain : ∀ c ∈ ascii "Upgrade", c ≠ 0x3A ∧ c ≠ 0x0D ∧ c ≠ 0x0A := upgradeField.name_plain

theorem websocket_plain : ∀ c ∈ ascii "websocket", c ≠ 0x0D ∧ c ≠ 0x0A := upgradeField.value_plain

def requestFields : List Field := [
  requestField (ascii "Host") (host ++ 0x3A :: decimal port.toNat) (by decide +kernel) (host_plain host hhost port),
  requestField (ascii "Upgrade") (ascii "websocket") upgrade_plain websocket_plain,
  requestField (ascii "Connection") (ascii "Upgrade") (by decide +kernel) (by decide +kernel),
  requestField (ascii "Sec-WebSocket-Key") (generateWebSocketKey raw) (by decide +kernel)
    fun _ hc => (base64Encode_plain hc).2,
  requestField (ascii "Sec-WebSocket-Version") (ascii "13") (by decide +kernel) (by decide +kernel)]

theorem requestText_eq : requestText host port (generateWebSocketKey raw) =
    responseText (ascii "GET / HTTP/1.1") (requestFields host hhost port raw) := by
  have hmethod : ascii "GET / HTTP/1.1\r\n" = ascii "GET / HTTP/1.1" ++ crlf := by decide +kernel
  have hhostName : ascii "Host: " = ascii "Host" ++ [0x3A, 0x20] := by decide +kernel
  have hupgrade : ascii "Upgrade: websocket\r\n" = ascii "Upgrade" ++ 0x3A :: 0x20 :: ascii "websocket" ++ crlf := by
    decide +kernel
  have hconnection : ascii "Connection: Upgrade\r\n" = ascii "Connection" ++ 0x3A :: 0x20 :: ascii "Upgrade" ++ crlf := by
    decide +kernel
  have hkey : ascii "Sec-WebSocket-Key: " = ascii "Sec-WebSocket-Key" ++ [0x3A, 0x20] := by decide +kernel
  have hversion : ascii "Sec-WebSocket-Version: 13\r\n" =
      ascii "Sec-WebSocket-Version" ++ 0x3A :: 0x20 :: ascii "13" ++ crlf := by decide +kernel
  have hcolon : ascii ":" = [0x3A] := by decide +kernel
  have hend : ascii "\r\n" = crlf := by decide +kernel
  rw [requestText, hmethod, hhostName, hupgrade, hconnection, hkey, hversion, hcolon, hend]
  simp only [responseText, requestFields, requestField, Field.line, Field.content, List.map_cons, List.map_nil,
    List.intercalate_cons_cons, List.intercalate_singleton, List.append_assoc, List.cons_append, List.nil_append,
    List.append_nil]

theorem find_requestField {name value headerName : List UInt8} (hname : ∀ c ∈ name, c ≠ 0x3A ∧ c ≠ 0x0D ∧ c ≠ 0x0A)
    (hvalue : ∀ c ∈ value, c ≠ 0x0D ∧ c ≠ 0x0A) (fields : List Field) :
    ((requestField name value hname hvalue :: fields).find? fun f => sameName f.name headerName) =
      if sameName name headerName then some (requestField name value hname hvalue)
      else fields.find? fun f => sameName f.name headerName := by
  rw [List.find?_cons]
  show (match sameName name headerName with
    | true => some (requestField name value hname hvalue)
    | false => fields.find? fun f => sameName f.name headerName) = _
  cases sameName name headerName <;> rfl

include hhost in
/-- **What the client sends opens a handshake**, and the key it asks about is the one it drew. -/
theorem requestText_opens :
    OpeningHandshake (requestText host port (generateWebSocketKey raw)) (generateWebSocketKey raw) := by
  have hmethod : ∀ c ∈ ascii "GET / HTTP/1.1", c ≠ 0x0D := by decide +kernel
  have hfield : ∀ name, headerField name (requestText host port (generateWebSocketKey raw)) =
      ((requestFields host hhost port raw).find? fun f => sameName f.name name).map fun f => strip f.value := by
    intro name
    rw [requestText_eq host hhost port raw]
    exact headerField_responseText hmethod (fieldValue_none (by decide +kernel)) _
  obtain ⟨i, hi, hlen⟩ := find_responseText hmethod (requestFields host hhost port raw) []
  rw [List.append_nil, ← requestText_eq] at hi
  rw [← requestText_eq] at hlen
  refine ⟨⟨i, hi, ?_⟩, ?_, ?_, ⟨ascii "websocket", ?_, by decide +kernel⟩, ⟨ascii "Upgrade", ?_, by decide +kernel⟩, ?_,
    ⟨List.ofFn raw, ?_, List.length_ofFn⟩, ?_⟩
  · rw [headerSection, hi, Option.getD_some, hlen, List.take_length]
  · rw [requestText_eq host hhost port raw, lines_responseText, lines_line hmethod]
    rfl
  · rw [hfield, requestFields, find_requestField, if_pos (by decide +kernel)]
    exact Option.some_ne_none _
  · rw [hfield, requestFields, find_requestField, if_neg (by decide +kernel), find_requestField, if_pos (by decide +kernel),
      Option.map_some]
    exact congrArg some (strip_plain (by decide +kernel))
  · rw [hfield, requestFields, find_requestField, if_neg (by decide +kernel), find_requestField, if_neg (by decide +kernel),
      find_requestField, if_pos (by decide +kernel), Option.map_some]
    exact congrArg some (strip_plain (by decide +kernel))
  · rw [hfield, requestFields, find_requestField, if_neg (by decide +kernel), find_requestField, if_neg (by decide +kernel),
      find_requestField, if_neg (by decide +kernel), find_requestField, if_pos (by decide +kernel), Option.map_some]
    exact congrArg some (strip_plain fun c hc => (base64Encode_plain hc).1)
  · rw [generateWebSocketKey, base64Encode_eq, Rfc4648.decode_encode]
  · rw [hfield, requestFields, find_requestField, if_neg (by decide +kernel), find_requestField, if_neg (by decide +kernel),
      find_requestField, if_neg (by decide +kernel), find_requestField, if_neg (by decide +kernel), find_requestField,
      if_pos (by decide +kernel), Option.map_some]
    exact congrArg some (strip_plain (by decide +kernel))

end

/-! ### The reply -/

namespace Reply
variable (r : Reply)

theorem status_plain : ∀ c ∈ r.status, c ≠ 0x0D := by
  intro c hc
  rw [status, List.mem_append, List.mem_append] at hc
  rcases hc with (hc | hc) | hc
  · have hline : ∀ c ∈ ascii "HTTP/1.1 ", c ≠ 0x0D := by decide +kernel
    exact hline c hc
  · rintro rfl
    exact absurd (r.code_digits.2 _ hc) (by decide)
  · exact (r.reason_plain c hc).1

/-- The status line is no accept field, even with a colon in its reason. -/
theorem fieldValue_status : fieldValue acceptName r.status = none := by
  obtain ⟨rest, hrest⟩ : ∃ rest, r.status = 0x48 :: rest := by
    have hline : ascii "HTTP/1.1 " = 0x48 :: ascii "TTP/1.1 " := by decide +kernel
    exact ⟨_, by rw [status, hline, List.cons_append, List.cons_append]⟩
  rw [fieldValue, hrest]
  cases find [0x3A] (0x48 :: rest) with
  | none => rfl
  | some colon =>
    have hname : ((0x48 :: rest).take colon).map tolower ≠ acceptName.map tolower := by
      have haccept : acceptName.map tolower = 0x73 :: (acceptName.map tolower).tail := by decide +kernel
      rw [haccept]
      cases colon with
      | zero => exact (List.cons_ne_nil _ _).symm
      | succ colon =>
        intro heq
        exact absurd (List.cons.inj heq).1 (by decide)
    rw [Option.bind_some, if_neg hname]

theorem headerField_bytes : headerField acceptName r.bytes = r.accept :=
  headerField_responseText r.status_plain r.fieldValue_status r.fields

theorem bytes_eq : ∃ rest, r.bytes = ascii "HTTP/1.1 " ++ (r.code ++ rest) := by
  cases hfields : r.fields with
  | nil => exact ⟨r.reason ++ crlf ++ crlf, by simp [bytes, responseText, status, hfields]⟩
  | cons f fields =>
    refine ⟨r.reason ++ crlf ++ responseText f.line fields, ?_⟩
    simp [bytes, responseText, status, hfields]

theorem statusOf_bytes : r.bytes.take 5 = ascii "HTTP/" ∧ statusOf r.bytes = some r.code := by
  obtain ⟨rest, hrest⟩ := r.bytes_eq
  have hblank : find (ascii " ") (ascii "HTTP/1.1 ") = some 8 := by decide +kernel
  have hfront : ascii "HTTP/1.1 " = ascii "HTTP/" ++ ascii "1.1 " := by decide +kernel
  constructor
  · rw [hrest, hfront, List.append_assoc]
    exact List.take_left' (by decide +kernel)
  · have hdrop : (ascii "HTTP/1.1 " ++ (r.code ++ rest)).drop (8 + 1) = r.code ++ rest :=
      List.drop_left' (by decide +kernel)
    rw [statusOf, hrest, find_append _ hblank, Option.map_some, hdrop]
    exact congrArg some (List.take_left' r.code_digits.1)

/-- The checks pass exactly if the code is 101 and the accept value is the one that is expected;
where the reply has none, what is behind it may have it. -/
theorem upgrades_iff (key later rest : List UInt8) :
    Upgrades key (headerSection (r.bytes ++ later) ++ rest) ↔ r.code = ascii "101" ∧
      ∃ value, r.accept.or (headerField acceptName rest) = some value ∧ Answers key value := by
  obtain ⟨i, hi, hlen⟩ : ∃ i, find crlfcrlf (r.bytes ++ later) = some i ∧ i + 4 = r.bytes.length :=
    find_responseText r.status_plain r.fields later
  have hheader : headerSection (r.bytes ++ later) = r.bytes := by
    rw [headerSection, hi, Option.getD_some, hlen]
    exact List.take_left
  obtain ⟨hhttp, hstatus⟩ := r.statusOf_bytes
  obtain ⟨expected, hexpected, -⟩ := expectedAccept_defined key
  rw [upgrades_append hi key rest, hheader, hstatus, r.headerField_bytes, hexpected]
  have hanswers : ∀ value, Answers key value ↔ expected = value := by
    intro value
    rw [answers_iff, hexpected, Option.some_inj]
  constructor
  · rintro ⟨-, hcode | ⟨hmissing, -⟩, hvalue⟩
    · exact ⟨Option.some.inj hcode, expected, Option.or_eq_some_iff.mpr hvalue, (hanswers expected).mpr rfl⟩
    · cases hmissing
  · rintro ⟨hcode, value, hvalue, hanswer⟩
    obtain rfl := (hanswers value).mp hanswer
    exact ⟨hhttp, .inl (congrArg some hcode), Option.or_eq_some_iff.mp hvalue⟩

end Reply

/-- A server's reply to the sample key, with a colon in its reason and an empty value behind the one that counts. -/
def sampleReply : Reply where
  code := ascii "101"
  reason := ascii " Sec-WebSocket-Accept: soon"
  fields := [
    requestField (ascii "sec-websocket-ACCEPT") (ascii "s3pPLMBiTxaQ9kYGzzhZRbK+xOo=") (by decide +kernel) (by decide +kernel),
    requestField (ascii "Sec-WebSocket-Accept") [] (by decide +kernel) (by decide +kernel)]
  code_digits := by decide +kernel
  reason_plain := by decide +kernel

/-- The bytes the sample key stands for. -/
def sampleNonce (i : Fin 16) : UInt8 := (ascii "the sample nonce").getD i 0

end VrxServer.WebSocket
