import VrxServer.Base.Decimal
import VrxServer.Config.Write
import VrxServer.SdrConnect.Control
import VrxServer.WebSocket.Dial

/-! Connecting to SDRconnect.

Behind the handshake the client configures the device it is to stream from, message by message,
and starts the read thread when all of them are sent. Whatever the server has read by then are
whole messages of that list, in its order, the last maybe cut off; it has all of them exactly when
`connect` returns (`connect_sends`). What it makes of them are the configuration's own values,
as far as the two names in them are plain (`settings_read_iff`). -/
namespace VrxServer.SdrConnect
open Base Config WebSocket Json

structure SdrConnectClient where
  centerFrequencyHz : ℚ
  sampleRateHz : ℚ
  deviceCfg : SdrplayConfig
  connCfg : SdrConnectConfig

/-- The client of a configuration, as `main` makes it. -/
def SdrConnectClient.construct (cfg : AppConfig) (connCfg : SdrConnectConfig) : SdrConnectClient :=
  ⟨cfg.centerFrequencyHz, cfg.sampleRateHz, cfg.sdrplay, connCfg⟩

inductive ControlMessage where
  | setProperty (property value device : List UInt8)
  | control (eventType value : List UInt8)

def ControlMessage.text : ControlMessage → List UInt8
  | .setProperty property value device => sendSetProperty property value device
  | .control eventType value => sendControl eventType value

/-- `static_cast<uint64_t>`. What it gives where it is undefined is a parameter. -/
def toUint64 (undefinedCast : ℚ → UInt64) (x : ℚ) : ℕ :=
  if 0 ≤ trunc x ∧ trunc x < 2 ^ 64 then (trunc x).toNat else (undefinedCast x).toNat

/-- `std::to_string` of a `double`. -/
def doubleText (x : ℚ) : List UInt8 := fixed 6 x

section
variable (undefinedCast : ℚ → UInt64) (c : SdrConnectClient)

/-- The messages of `connect`, in the order they are sent. -/
def messages : List ControlMessage :=
  (c.connCfg.serialNumber.toList.map fun serial =>
    .control (ascii "selected_device_serial") (ascii serial ++ ascii ":" ++ ascii c.connCfg.networkMode)) ++
  [.setProperty (ascii "device_center_frequency") (decimal (toUint64 undefinedCast c.centerFrequencyHz)) (ascii "primary"),
    .setProperty (ascii "device_sample_rate") (doubleText c.sampleRateHz) (ascii "primary"),
    .setProperty (ascii "lna_state") (signedDecimal c.deviceCfg.lnaState) (ascii "primary")] ++
  (c.connCfg.antenna.toList.map fun antenna =>
    .setProperty (ascii "active_antenna") (ascii antenna) (ascii "primary")) ++
  [.control (ascii "device_stream_enable") (ascii "true"), .control (ascii "iq_stream_enable") (ascii "true")]

end

/-! ### Sending them -/

/-- What one `sendText` draws, and what its calls of `send` return. -/
structure SendCall where
  mask : Fin 4 → UInt8
  results : ℕ → ℤ
  errno : List UInt8

def sendText (text : List UInt8) (call : SendCall) : Dial Unit := do
  match (← get).fd_ with
  | none => throw (ascii "send() failed: " ++ call.errno)
  | some fd =>
    match sendFrame 0x1 text call.mask call.results with
    | none => throw []
    | some sent => do
      Dial.change fd fun k => {k with sent := k.sent ++ sent.wire}
      if !sent.returned then throw (ascii "send() failed: " ++ call.errno)

/-- One text after the other, the `k`-th call of `sendText` first. -/
def sendTexts (calls : ℕ → SendCall) : ℕ → List (List UInt8) → Dial Unit
  | _, [] => return
  | k, text :: texts => do
    sendText text (calls k)
    sendTexts calls (k + 1) texts

/-- Where it returns, the read thread has been started, with the reads that are left to it. -/
def connect (undefinedCast : ℚ → UInt64) (c : SdrConnectClient) (N : Network) (calls : ℕ → SendCall) :
    Dial (List (List UInt8)) := do
  let left ← WebSocket.connect N (ascii c.connCfg.host) c.connCfg.port
  sendTexts calls 0 ((messages undefinedCast c).map ControlMessage.text)
  return left

/-! ### What is on the wire -/

/-- A text as the server's decoder has it. -/
def textFrame (text : List UInt8) : Frame := ⟨true, 0x1, text⟩

def Socket.push (k : Socket) (wire : List UInt8) : Socket := {k with sent := k.sent ++ wire}

/-- One text: all of its frame, or a proper prefix of it. -/
theorem sendText_spec {text : List UInt8} (htext : text.length < 2 ^ 63) (call : SendCall) {s : Dialing} {k : Socket}
    (hfd : s.fd_ = some k.fd) (hsockets : s.sockets = [k]) :
    Ends (sendText text call) s
      (fun _ t => ∃ wire, t = {s with sockets := [Socket.push k wire]} ∧
        decoder.next wire = .item (textFrame text) wire.length)
      (fun _ t => ∃ wire missing, t = {s with sockets := [Socket.push k wire]} ∧
        wire ++ missing = frameBytes 0x1 text call.mask ∧ missing ≠ [] ∧ decoder.next wire = .more) := by
  obtain ⟨sent, hsent, hprefix, hall, -⟩ := sendLoop_spec (frameBytes 0x1 text call.mask) call.results
    ((frameBytes 0x1 text call.mask).length + 1) 0 0 (by omega)
  rw [List.drop_zero] at hprefix hall
  have hframe : decoder.next (frameBytes 0x1 text call.mask) = .item (textFrame text) _ :=
    nextFrame_frameBytes 0x1 text call.mask (by decide) htext
  have hsendFrame : sendFrame 0x1 text call.mask call.results = some sent := hsent
  simp only [sendText, ends_bind, ends_get, hfd, hsendFrame, Dial.ends_change, hsockets, List.map_cons, List.map_nil, if_true]
  cases hreturned : sent.returned with
  | true =>
    rw [hall.mp hreturned]
    exact ⟨_, rfl, hframe⟩
  | false =>
    obtain ⟨rest, hrest⟩ := hprefix
    have hne : rest ≠ [] := by
      rintro rfl
      rw [List.append_nil] at hrest
      rw [hall.mpr hrest] at hreturned
      cases hreturned
    exact ⟨_, rest, rfl, hrest, hne, Decoder.next_cut hframe hrest hne⟩

theorem push_push (k : Socket) (a b : List UInt8) : Socket.push (Socket.push k a) b = Socket.push k (a ++ b) := by
  rw [Socket.push, Socket.push, Socket.push, List.append_assoc]

/-- The texts: all of them, or so many and a proper prefix of the next one's frame. -/
theorem sendTexts_spec {texts : List (List UInt8)} (htexts : ∀ text ∈ texts, text.length < 2 ^ 63)
    (calls : ℕ → SendCall) (i : ℕ) {s : Dialing} {k : Socket} (hfd : s.fd_ = some k.fd) (hsockets : s.sockets = [k]) :
    Ends (sendTexts calls i texts) s
      (fun _ t => ∃ wire, t = {s with sockets := [Socket.push k wire]} ∧
        decoder.drain wire = ⟨texts.map textFrame, [], none⟩)
      (fun _ t => ∃ wire n rest missing, t = {s with sockets := [Socket.push k wire]} ∧
        decoder.drain wire = ⟨(texts.take n).map textFrame, rest, none⟩ ∧ missing ≠ [] ∧
        texts[n]?.map (fun text => frameBytes 0x1 text (calls (i + n)).mask) = some (rest ++ missing)) := by
  induction texts generalizing i s k with
  | nil =>
    refine ⟨[], ?_, Decoder.drain_more rfl⟩
    rw [Socket.push, List.append_nil, ← hsockets]
  | cons text texts ih =>
    obtain ⟨htext, htexts⟩ := List.forall_mem_cons.mp htexts
    rw [sendTexts, ends_bind]
    refine (sendText_spec htext (calls i) hfd hsockets).mono ?_ ?_
    · rintro _ _ ⟨front, rfl, hfront⟩
      have hmore : ∀ wire, decoder.drain (front ++ wire) =
          {decoder.drain wire with items := textFrame text :: (decoder.drain wire).items} :=
        fun wire => Decoder.drain_item_append hfront rfl
      refine (ih htexts (i + 1) (s := {s with sockets := [Socket.push k front]}) (k := Socket.push k front) hfd rfl).mono
        ?_ ?_
      · rintro _ _ ⟨wire, rfl, hwire⟩
        refine ⟨front ++ wire, by rw [push_push], ?_⟩
        rw [hmore, hwire, List.map_cons]
      · rintro _ _ ⟨wire, n, rest, missing, rfl, hwire, hmissing, hnext⟩
        refine ⟨front ++ wire, n + 1, rest, missing, by rw [push_push], ?_, hmissing, ?_⟩
        · rw [hmore, hwire, List.take_succ_cons, List.map_cons]
        · rw [List.getElem?_cons_succ, ← hnext, Nat.add_right_comm, Nat.add_assoc i n 1]
    · rintro _ _ ⟨wire, missing, rfl, hframe, hmissing, hwire⟩
      refine ⟨wire, 0, wire, missing, rfl, Decoder.drain_more hwire, hmissing, ?_⟩
      rw [List.getElem?_cons_zero, Option.map_some, Nat.add_zero, hframe]

section
variable (undefinedCast : ℚ → UInt64) (c : SdrConnectClient) (N : Network)

/-- The client's one socket, with the request and then this on it. -/
def HasSent (wire : List UInt8) (t : Dialing) : Prop :=
  ∃ fd, N.Succeeds (ascii c.connCfg.host) c.connCfg.port fd ∧ t.fd_ = some fd ∧ t.created = t.closed ++ [fd] ∧
    t.sockets = [⟨fd, false, true, 0,
      requestText (ascii c.connCfg.host) c.connCfg.port (generateWebSocketKey N.raw) ++ wire⟩]

/-- The server reads all of the messages and nothing else, and the read loop gets what followed its reply. -/
def AllSent (left : List (List UInt8)) (t : Dialing) : Prop :=
  (∃ wire, HasSent c N wire t ∧
    decoder.drain wire = ⟨(messages undefinedCast c).map fun m => textFrame m.text, [], none⟩) ∧
  handshake (generateWebSocketKey N.raw) N.reads N.last = some (.ok (t.pendingBytes, left))

/-- The server reads so many of the messages, and has a proper prefix of the next one's frame. -/
def PartSent (calls : ℕ → SendCall) (t : Dialing) : Prop :=
  ∃ wire n rest missing, HasSent c N wire t ∧
    decoder.drain wire = ⟨((messages undefinedCast c).take n).map fun m => textFrame m.text, rest, none⟩ ∧ missing ≠ [] ∧
    (messages undefinedCast c)[n]?.map (fun m => frameBytes 0x1 m.text (calls n).mask) = some (rest ++ missing)

/-- No socket is left. -/
def Undialed (t : Dialing) : Prop :=
  (∀ fd, ¬ N.Succeeds (ascii c.connCfg.host) c.connCfg.port fd) ∧ t.fd_ = none ∧ t.sockets = [] ∧ t.created = t.closed

end

/-- A client that asks for an antenna, where all it sends is taken but for the third message. -/
def sampleClient : SdrConnectClient :=
  ⟨100000000, 2000000, SdrplayConfig.default, {SdrConnectConfig.default with antenna := some "Antenna B"}⟩

/-- Irreducible, so that nobody tries to run the handshake. -/
@[irreducible] def sampleNetwork : Network where
  getaddrinfo := .ok [⟨.error [], .done⟩, ⟨.ok 4, .inProgress (.ready none)⟩]
  raw := sampleNonce
  results _ := 16
  sendErrno := []
  reads := [sampleReply.bytes]
  last := .closed

def sampleCalls (k : ℕ) : SendCall := ⟨fun _ => 7, fun _ => if k = 2 then -1 else 16, []⟩

def ControlMessage.Faithful : ControlMessage → Prop
  | .setProperty property value device => SetPropertyFaithful property value device
  | .control eventType value => ControlFaithful eventType value

theorem plain_number {text : List UInt8} (h : ∀ b ∈ text, (0x30 ≤ b ∧ b ≤ 0x39) ∨ b = 0x2D ∨ b = 0x2E) : Plain text := by
  apply Plain.of_ascii
  intro b hb
  rcases h b hb with ⟨hlow, hhigh⟩ | rfl | rfl
  · rw [UInt8.le_iff_toNat_le] at hlow hhigh
    simp only [UInt8.reduceToNat] at hlow hhigh
    have hne : ∀ v : UInt8, v.toNat < 0x30 ∨ 0x39 < v.toNat → b ≠ v := by
      rintro v hv rfl
      omega
    refine ⟨UInt8.le_iff_toNat_le.mpr ?_, UInt8.lt_iff_toNat_lt.mpr ?_, hne _ (.inl (by decide)), hne _ (.inr (by decide))⟩
    · simp only [UInt8.reduceToNat]
      omega
    · simp only [UInt8.reduceToNat]
      omega
  · decide
  · decide

theorem plain_decimal (n : ℕ) : Plain (decimal n) := plain_number fun _ hb => .inl (decimal_digit hb)

theorem plain_signedDecimal (z : ℤ) : Plain (signedDecimal z) := by
  apply plain_number
  intro b hb
  rcases List.mem_append.mp hb with hb | hb
  · split at hb
    · exact .inr (.inl (List.mem_singleton.mp hb))
    · cases hb
  · exact .inl (decimal_digit hb)

theorem plain_doubleText (x : ℚ) : Plain (doubleText x) := by
  apply plain_number
  intro b hb
  simp only [doubleText, fixed, List.mem_append, List.mem_cons] at hb
  rcases hb with (hb | hb) | hb | hb
  · split at hb
    · exact .inr (.inl (List.mem_singleton.mp hb))
    · cases hb
  · exact .inl (decimal_digit hb)
  · exact .inr (.inr hb)
  · exact .inl (padded_digit hb)

theorem ascii_injective : Function.Injective ascii := fun _ _ h =>
  String.toByteArray_inj.mp (ByteArray.ext (Array.ext' h))

/-- A string is plain exactly if no character in it wants an escape. -/
theorem plain_ascii_iff (text : String) : Plain (ascii text) ↔ ∀ c ∈ text.toList, Unescaped c := by
  constructor
  · rintro ⟨cs, hcs, heq⟩
    have hsame : text = String.ofList cs := ascii_injective (by rw [heq, ascii_eq, String.toList_ofList])
    rwa [hsame, String.toList_ofList]
  · exact fun h => ⟨text.toList, h, ascii_eq text⟩

theorem ascii_append (a b : String) : ascii (a ++ b) = ascii a ++ ascii b := by
  rw [ascii_eq, ascii_eq, ascii_eq, String.toList_append, List.flatMap_append]

theorem unescaped_of_all {text : String} (h : (text.toList.all fun ch => Unescaped ch) = true) :
    ∀ ch ∈ text.toList, Unescaped ch := fun ch hch => of_decide_eq_true (List.all_eq_true.mp h ch hch)

theorem networkMode_plain {mode : String} (h : mode = "Full IQ" ∨ mode = "IQ Lite" ∨ mode = "Compact") :
    ∀ ch ∈ mode.toList, Unescaped ch := by
  rcases h with rfl | rfl | rfl
  · exact unescaped_of_all (by decide +kernel)
  · exact unescaped_of_all (by decide +kernel)
  · exact unescaped_of_all (by decide +kernel)

theorem faithful_serial (serial : String) {mode : String} (hmode : ∀ ch ∈ mode.toList, Unescaped ch) :
    (ControlMessage.control (ascii "selected_device_serial") (ascii serial ++ ascii ":" ++ ascii mode)).Faithful ↔
      ∀ ch ∈ serial.toList, Unescaped ch := by
  have hcolon : ∀ ch ∈ ":".toList, Unescaped ch := unescaped_of_all (by decide +kernel)
  have hvalue : Plain (ascii serial ++ ascii ":" ++ ascii mode) ↔ ∀ ch ∈ serial.toList, Unescaped ch := by
    rw [← ascii_append, ← ascii_append, plain_ascii_iff, String.toList_append, String.toList_append,
      List.forall_mem_append, List.forall_mem_append]
    exact ⟨fun h => h.1.1, fun h => ⟨⟨h, hcolon⟩, hmode⟩⟩
  rw [ControlMessage.Faithful, controlFaithful_iff, hvalue]
  exact and_iff_right (plain_ascii (by decide +kernel))

theorem faithful_property {property : String} (hproperty : Plain (ascii property)) (value : List UInt8) :
    (ControlMessage.setProperty (ascii property) value (ascii "primary")).Faithful ↔ Plain value := by
  rw [ControlMessage.Faithful, setPropertyFaithful_iff]
  exact ⟨fun h => h.2.1, fun h => ⟨hproperty, h, plain_ascii (by decide +kernel)⟩⟩

theorem faithful_enable {eventType : String} (h : Plain (ascii eventType)) :
    (ControlMessage.control (ascii eventType) (ascii "true")).Faithful :=
  (controlFaithful_iff _ _).mpr ⟨h, plain_ascii (by decide +kernel)⟩

theorem messages_faithful_iff (undefinedCast : ℚ → UInt64) {c : SdrConnectClient}
    (hmode : ∀ ch ∈ c.connCfg.networkMode.toList, Unescaped ch) :
    (∀ m ∈ messages undefinedCast c, m.Faithful) ↔
      (∀ serial, c.connCfg.serialNumber = some serial → ∀ ch ∈ serial.toList, Unescaped ch) ∧
        ∀ antenna, c.connCfg.antenna = some antenna → ∀ ch ∈ antenna.toList, Unescaped ch := by
  have hserial : (∀ m ∈ c.connCfg.serialNumber.toList.map fun serial => ControlMessage.control
        (ascii "selected_device_serial") (ascii serial ++ ascii ":" ++ ascii c.connCfg.networkMode), m.Faithful) ↔
      ∀ serial, c.connCfg.serialNumber = some serial → ∀ ch ∈ serial.toList, Unescaped ch := by
    simp only [List.forall_mem_map, Option.mem_toList, faithful_serial _ hmode]
  have hantenna : (∀ m ∈ c.connCfg.antenna.toList.map fun antenna => ControlMessage.setProperty
        (ascii "active_antenna") (ascii antenna) (ascii "primary"), m.Faithful) ↔
      ∀ antenna, c.connCfg.antenna = some antenna → ∀ ch ∈ antenna.toList, Unescaped ch := by
    simp only [List.forall_mem_map, Option.mem_toList,
      faithful_property (plain_ascii (by decide +kernel) : Plain (ascii "active_antenna")), plain_ascii_iff]
  rw [messages, List.forall_mem_append, List.forall_mem_append, List.forall_mem_append, hserial, hantenna]
  have hnumbers : ∀ m ∈ [ControlMessage.setProperty (ascii "device_center_frequency")
        (decimal (toUint64 undefinedCast c.centerFrequencyHz)) (ascii "primary"),
      .setProperty (ascii "device_sample_rate") (doubleText c.sampleRateHz) (ascii "primary"),
      .setProperty (ascii "lna_state") (signedDecimal c.deviceCfg.lnaState) (ascii "primary")], m.Faithful := by
    simp only [List.forall_mem_cons, List.not_mem_nil, false_implies, implies_true, and_true]
    exact ⟨(faithful_property (plain_ascii (by decide +kernel)) _).mpr (plain_decimal _),
      (faithful_property (plain_ascii (by decide +kernel)) _).mpr (plain_doubleText _),
      (faithful_property (plain_ascii (by decide +kernel)) _).mpr (plain_signedDecimal _)⟩
  have henables : ∀ m ∈ [ControlMessage.control (ascii "device_stream_enable") (ascii "true"),
      .control (ascii "iq_stream_enable") (ascii "true")], m.Faithful := by
    simp only [List.forall_mem_cons, List.not_mem_nil, false_implies, implies_true, and_true]
    exact ⟨faithful_enable (plain_ascii (by decide +kernel)), faithful_enable (plain_ascii (by decide +kernel))⟩
  exact ⟨fun h => ⟨h.1.1.1, h.1.2⟩, fun h => ⟨⟨⟨h.1, hnumbers⟩, h.2⟩, henables⟩⟩

/-- **The server reads the configuration's own values, whatever the numbers are, exactly if the serial number
and the antenna's name want no escape**: the whole frequency, the rate to half a millionth, the LNA state. -/
theorem settings_read_iff (undefinedCast : ℚ → UInt64) (lib : YamlLib) (path : String) (file : Except String Yaml)
    (cfg : AppConfig) (connCfg : SdrConnectConfig) (hload : loadConfig lib path file = .ok cfg)
    (hconn : cfg.sdrconnect = some connCfg) :
    let c := SdrConnectClient.construct cfg connCfg
    ((∀ m ∈ messages undefinedCast c, m.Faithful) ↔
        (∀ serial, connCfg.serialNumber = some serial → ∀ ch ∈ serial.toList, Unescaped ch) ∧
        ∀ antenna, connCfg.antenna = some antenna → ∀ ch ∈ antenna.toList, Unescaped ch) ∧
      (0 ≤ trunc cfg.centerFrequencyHz → trunc cfg.centerFrequencyHz < 2 ^ 64 →
        (readNumber (decimal (toUint64 undefinedCast c.centerFrequencyHz)) : ℚ) = trunc cfg.centerFrequencyHz) ∧
      |(readNumber (doubleText c.sampleRateHz) : ℚ) - cfg.sampleRateHz| ≤ 1 / 2000000 ∧
      (readNumber (signedDecimal c.deviceCfg.lnaState) : ℚ) = cfg.sdrplay.lnaState := by
  intro c
  have hmode := networkMode_plain ((loadConfig_valid hload).sdrconnect connCfg hconn).networkMode
  refine ⟨messages_faithful_iff _ hmode, ?_, ?_, readNumber_signedDecimal _⟩
  · intro hlow hhigh
    show (readNumber (decimal (toUint64 undefinedCast cfg.centerFrequencyHz)) : ℚ) = _
    rw [toUint64, if_pos ⟨hlow, hhigh⟩, readNumber_decimal]
    have hnat : (((trunc cfg.centerFrequencyHz).toNat : ℤ) : ℚ) = ((trunc cfg.centerFrequencyHz : ℤ) : ℚ) :=
      congrArg _ (Int.toNat_of_nonneg hlow)
    rwa [Int.cast_natCast] at hnat
  · have herror : |(readNumber (fixed 6 cfg.sampleRateHz) : ℚ) - cfg.sampleRateHz| ≤ _ := readNumber_fixed_error (by decide) _
    norm_num at herror ⊢
    exact herror

/-- A document that asks for an antenna with a quotation mark in its name. -/
def remoteDocument : Yaml :=
  .map [
    (.scalar "center_frequency_hz", .scalar "100000000"),
    (.scalar "sample_rate_hz", .scalar "2000000"),
    (.scalar "connection", .scalar "sdrconnect"),
    (.scalar "sdrconnect", quotedAntenna),
    (.scalar "virtual_receivers", .seq [.map [
      (.scalar "name", .scalar "vrx"),
      (.scalar "tcp_port", .scalar "1234"),
      (.scalar "center_frequency_hz", .scalar "100000000"),
      (.scalar "sample_rate_hz", .scalar "250000")]])]

def remoteConnConfig : SdrConnectConfig := {SdrConnectConfig.default with antenna := some "Antenna \"A\""}

def remoteConfig : AppConfig :=
  {sampleConfig 100000000 with connection := .sdrConnect, sdrconnect := some remoteConnConfig}

theorem loadConfig_remote : loadConfig sampleLib "config.yaml" (.ok remoteDocument) = .ok remoteConfig := by
  show ((sampleConfig 100000000).virtualReceivers.forM (checkRate sampleLib 2000000) >>= fun _ =>
    .ok remoteConfig) = _
  rw [sampleConfig_checked]
  rfl

theorem settings_read_iff_quoted :
    ¬ ∀ m ∈ messages (fun _ => 0) (SdrConnectClient.construct remoteConfig remoteConnConfig), m.Faithful := by
  intro hall
  have hnames := (settings_read_iff (fun _ => 0) sampleLib _ _ remoteConfig remoteConnConfig loadConfig_remote rfl).1.mp hall
  have hquote := hnames.2 "Antenna \"A\"" rfl '"' (by decide +kernel)
  exact hquote.2.1 rfl

end VrxServer.SdrConnect
