import VrxServer.Base.Json
import VrxServer.Config.Accept
import VrxServer.WebSocket.Base64

/-! The control messages of the SDRconnect backend.

A message is put together as text, around strings that are the configuration's. Nothing is
escaped: the message says what it is to say exactly where no string has a quotation mark, a
backslash or a control character in it (`control_faithful_iff`). -/
namespace VrxServer.SdrConnect
open Base Config WebSocket Json

/-- The text `sendSetProperty` sends. -/
def sendSetProperty (property value device : List UInt8) : List UInt8 :=
  ascii "\x7b\"event_type\":\"set_property\",\"property\":\"" ++ property ++ ascii "\",\"value\":\"" ++ value ++
    ascii "\",\"device\":\"" ++ device ++ ascii "\"\x7d"

/-- The text `sendControl` sends. -/
def sendControl (eventType value : List UInt8) : List UInt8 :=
  ascii "\x7b\"event_type\":\"" ++ eventType ++ ascii "\",\"property\":\"\",\"value\":\"" ++ value ++ ascii "\"\x7d"

/-! ### What a message is to say -/

/-- The text is an object of these strings, and of nothing else. -/
def Says (text : List UInt8) (members : List (List UInt8 × List UInt8)) : Prop := Text text (.obj (strings members))

def SetPropertyFaithful (property value device : List UInt8) : Prop :=
  Says (sendSetProperty property value device) [(ascii "event_type", ascii "set_property"),
    (ascii "property", property), (ascii "value", value), (ascii "device", device)]

def ControlFaithful (eventType value : List UInt8) : Prop :=
  Says (sendControl eventType value) [(ascii "event_type", eventType), (ascii "property", []), (ascii "value", value)]

/-! ### What it is written as -/

theorem sendSetProperty_eq (property value device : List UInt8) : sendSetProperty property value device =
    emit (ascii "event_type") (ascii "set_property")
      [(ascii "property", property), (ascii "value", value), (ascii "device", device)] := by
  have hfirst : ascii "\x7b\"event_type\":\"set_property\",\"property\":\"" =
      0x7B :: quoted (ascii "event_type") (0x3A :: quoted (ascii "set_property")
        (0x2C :: quoted (ascii "property") [0x3A, 0x22])) := by decide +kernel
  have hvalue : ascii "\",\"value\":\"" = 0x22 :: 0x2C :: quoted (ascii "value") [0x3A, 0x22] := by decide +kernel
  have hdevice : ascii "\",\"device\":\"" = 0x22 :: 0x2C :: quoted (ascii "device") [0x3A, 0x22] := by decide +kernel
  have hend : ascii "\"\x7d" = [0x22, 0x7D] := by decide +kernel
  rw [sendSetProperty, hfirst, hvalue, hdevice, hend]
  simp only [emit, emitTail, quoted, List.append_assoc, List.cons_append, List.nil_append]

theorem sendControl_eq (eventType value : List UInt8) : sendControl eventType value =
    emit (ascii "event_type") eventType [(ascii "property", []), (ascii "value", value)] := by
  have hfirst : ascii "\x7b\"event_type\":\"" = 0x7B :: quoted (ascii "event_type") [0x3A, 0x22] := by decide +kernel
  have hvalue : ascii "\",\"property\":\"\",\"value\":\"" = 0x22 :: 0x2C :: quoted (ascii "property")
      (0x3A :: quoted [] (0x2C :: quoted (ascii "value") [0x3A, 0x22])) := by decide +kernel
  have hend : ascii "\"\x7d" = [0x22, 0x7D] := by decide +kernel
  rw [sendControl, hfirst, hvalue, hend]
  simp only [emit, emitTail, quoted, List.append_assoc, List.cons_append, List.nil_append]

/-! ### Which strings can be in it -/

theorem ascii_eq (text : String) : ascii text = text.toList.flatMap String.utf8EncodeChar := by
  have hbytes : text.toUTF8 = text.toList.utf8Encode := String.utf8Encode_toList.symm
  rw [ascii, hbytes, List.utf8Encode]
  simp

/-- A string of the configuration or of the program is plain if its characters need no escape. -/
theorem plain_ascii {text : String} (h : (text.toList.all fun c => Unescaped c) = true) : Plain (ascii text) :=
  ⟨text.toList, fun c hc => of_decide_eq_true (List.all_eq_true.mp h c hc), ascii_eq text⟩

theorem plain_names : Plain (ascii "event_type") ∧ Plain (ascii "set_property") ∧ Plain (ascii "property") ∧
    Plain (ascii "value") ∧ Plain (ascii "device") :=
  ⟨plain_ascii (by decide +kernel), plain_ascii (by decide +kernel), plain_ascii (by decide +kernel),
    plain_ascii (by decide +kernel), plain_ascii (by decide +kernel)⟩

theorem setPropertyFaithful_iff (property value device : List UInt8) :
    SetPropertyFaithful property value device ↔ Plain property ∧ Plain value ∧ Plain device := by
  obtain ⟨heventType, hsetProperty, hproperty, hvalue, hdevice⟩ := plain_names
  rw [SetPropertyFaithful, Says, sendSetProperty_eq, emit_iff (by
    simp only [List.forall_mem_cons, List.not_mem_nil, false_implies, implies_true, and_true]
    exact ⟨heventType, hproperty, hvalue, hdevice⟩)]
  simp only [List.forall_mem_cons, List.not_mem_nil, false_implies, implies_true, and_true]
  exact and_iff_right hsetProperty

theorem controlFaithful_iff (eventType value : List UInt8) :
    ControlFaithful eventType value ↔ Plain eventType ∧ Plain value := by
  obtain ⟨heventType, -, hproperty, hvalue, -⟩ := plain_names
  rw [ControlFaithful, Says, sendControl_eq, emit_iff (by
    simp only [List.forall_mem_cons, List.not_mem_nil, false_implies, implies_true, and_true]
    exact ⟨heventType, hproperty, hvalue⟩)]
  simp only [List.forall_mem_cons, List.not_mem_nil, false_implies, implies_true, and_true]
  exact and_congr_right fun _ => and_iff_right .nil

/-- **The control messages say what they are to say exactly where every string in them is plain.** -/
theorem control_faithful_iff (property value device eventType controlValue : List UInt8) :
    (SetPropertyFaithful property value device ↔ Plain property ∧ Plain value ∧ Plain device) ∧
      (ControlFaithful eventType controlValue ↔ Plain eventType ∧ Plain controlValue) :=
  ⟨setPropertyFaithful_iff property value device, controlFaithful_iff eventType controlValue⟩

/-- A section that names an antenna in quotation marks. -/
def quotedAntenna : Yaml := .map [(.scalar "antenna", .scalar "Antenna \"A\"")]

/-- The loader accepts the name, and the message that selects it is another. -/
theorem quoted_antenna_unfaithful :
    parseSdrConnectConfig sampleLib (some quotedAntenna) =
        .ok {SdrConnectConfig.default with antenna := some "Antenna \"A\""} ∧
      ¬ ((∀ property value device, SetPropertyFaithful property value device) ∧
        ∀ eventType value, ControlFaithful eventType value) := by
  refine ⟨rfl, ?_⟩
  intro hall
  have hfaithful := hall.1 (ascii "active_antenna") (ascii "Antenna \"A\"") (ascii "primary")
  have hplain := ((setPropertyFaithful_iff _ _ _).mp hfaithful).2.1
  exact hplain.quote_not_mem (by decide +kernel)

end VrxServer.SdrConnect
