import VrxServer.Config.Load
import VrxServer.SdrConnect.Binary
import VrxServer.WebSocket.Base64
import VrxServer.WebSocket.Handshake

/-! The text messages of the SDRconnect backend, and the thread that reads them.

A message is parsed inside a `try`, but its members are converted to strings behind it. A
member that is a list or a map throws out of the handler, out of the read loop and out of the
thread, which nothing catches (`read_thread_survives_iff`). -/
namespace VrxServer.SdrConnect
open Base Config SdrPlay WebSocket

section
variable (lib : YamlLib) (load : List UInt8 → Option Yaml)

/-- `load` is `YAML::Load`, where `none` is a `YAML::Exception`. What is returned is the line
that is printed, if any. -/
def handleTextMessage (json : List UInt8) : Except LoadError (Option String) :=
  match load json with
  | none => .ok none
  | some (.map entries) => do
    let node := Yaml.map entries
    match ← node.get "event_type", ← node.get "property" with
    | some eventTypeNode, some propertyNode =>
      let eventType ← eventTypeNode.asString lib
      let property ← propertyNode.asString lib
      if eventType = "property_changed" ∧ property = "overload" then
        let value ← match ← node.get "value" with
          | some valueNode => valueNode.asString lib
          | none => .ok ""
        return some ("[sdrconnect] overload event: " ++ if value = "true" then "Detected" else "Corrected")
      else return none
    | _, _ => return none
  | some _ => .ok none

/-! ### The thread -/

/-- The client, as its read thread sees it. -/
structure ThreadState where
  source : IqSource
  calls : List IqCall
  /-- What has been printed. -/
  log : List String
  running : Bool

/-- What ends a thread that has no handler. -/
inductive ThreadException where
  | text (e : LoadError)
  /-- The `std::length_error` of a payload no vector can hold. -/
  | length

def handleEvent (s : ThreadState) : Event → Except ThreadException ThreadState
  | .text payload =>
    match handleTextMessage lib load payload with
    | .error e => .error (.text e)
    | .ok line => .ok {s with log := s.log ++ line.toList}
  | .binary payload =>
    let r := handleBinaryMessage s.source payload
    .ok {s with source := r.2, calls := s.calls ++ r.1.toList}
  | .sendFrame _ _ => .ok s

/-- `readThread_`, on what `connect` saved and the reads that return bytes. -/
def readThread (s : ThreadState) (pendingBytes : List UInt8) (chunks : List (List UInt8)) :
    Except ThreadException ThreadState := do
  let s ← (runReadLoop .both pendingBytes chunks).foldlM (handleEvent lib load) s
  match (ReadLoop.run decoder pendingBytes chunks).halt with
  | some .fault => .error .length
  | _ => .ok {s with running := false}

/-! ### What does not throw -/

/-- A node that `as<std::string>` has a value for. -/
def Convertible : Yaml → Prop
  | .scalar _ => True
  | .null => lib.nullAsString ≠ none
  | .seq _ | .map _ => False

theorem asString_ok_iff (node : Yaml) : (∃ text, node.asString lib = .ok text) ↔ Convertible lib node := by
  cases node with
  | scalar text => exact iff_of_true ⟨text, rfl⟩ trivial
  | null =>
    cases hnull : lib.nullAsString with
    | none => simp [Yaml.asString, Convertible, hnull]
    | some text => simp [Yaml.asString, Convertible, hnull]
  | seq items => exact iff_of_false nofun id
  | map entries => exact iff_of_false nofun id

/-- If a message names an event and a property, the names are convertible, and so is the value of
an overload event, where it has one. -/
def Harmless (json : List UInt8) : Prop :=
  ∀ node, load json = some node → ∀ eventType, node.get "event_type" = .ok (some eventType) →
    ∀ property, node.get "property" = .ok (some property) → Convertible lib eventType ∧ Convertible lib property ∧
      (eventType.asString lib = .ok "property_changed" → property.asString lib = .ok "overload" →
        ∀ value, node.get "value" = .ok (some value) → Convertible lib value)

/-- **The handler returns exactly of a harmless message.** -/
theorem handleTextMessage_returns_iff (json : List UInt8) :
    (∃ line, handleTextMessage lib load json = .ok line) ↔ Harmless lib load json := by
  unfold handleTextMessage Harmless
  cases hload : load json with
  | none => exact iff_of_true ⟨none, rfl⟩ nofun
  | some node =>
    simp only [Option.some.injEq, forall_eq']
    cases node with
    | null | scalar _ | seq _ => exact iff_of_true ⟨none, rfl⟩ nofun
    | map entries =>
      have hget : ∀ key, ∃ field, (Yaml.map entries).get key = .ok field := fun key => ⟨_, rfl⟩
      obtain ⟨eventTypeNode, hevent⟩ := hget "event_type"
      obtain ⟨propertyNode, hproperty⟩ := hget "property"
      obtain ⟨valueNode, hvalue⟩ := hget "value"
      simp only [hevent, hproperty, hvalue]
      cases eventTypeNode with
      | none => exact iff_of_true ⟨none, rfl⟩ nofun
      | some eventTypeNode =>
        cases propertyNode with
        | none => exact iff_of_true ⟨none, rfl⟩ fun _ _ => nofun
        | some propertyNode =>
          simp only [ok_bind, Except.ok.injEq, Option.some.injEq, forall_eq']
          rw [← asString_ok_iff, ← asString_ok_iff]
          cases eventTypeNode.asString lib with
          | error e => simp only [error_bind, reduceCtorEq, exists_false, false_and]
          | ok eventType =>
            cases propertyNode.asString lib with
            | error e => simp only [ok_bind, error_bind, reduceCtorEq, exists_false, false_and, and_false]
            | ok property =>
              simp only [ok_bind, Except.ok.injEq, exists_eq', true_and]
              split
              · next hoverload =>
                -- the only value that is converted is an overload event's
                obtain ⟨rfl, rfl⟩ := hoverload
                cases valueNode with
                | none => exact iff_of_true ⟨_, rfl⟩ fun _ _ => nofun
                | some valueNode =>
                  simp only [Option.some.injEq, forall_eq', forall_const]
                  rw [← asString_ok_iff]
                  cases valueNode.asString lib with
                  | error e => simp only [error_bind, reduceCtorEq, exists_false]
                  | ok value => exact iff_of_true ⟨_, rfl⟩ ⟨_, rfl⟩
              · next hother => exact iff_of_true ⟨none, rfl⟩ fun hevent hproperty => absurd ⟨hevent, hproperty⟩ hother

/-! ### Runs of the thread -/

theorem handleEvent_ok_iff (s : ThreadState) (event : Event) :
    (∃ s', handleEvent lib load s event = .ok s') ↔ ∀ payload, event = .text payload → Harmless lib load payload := by
  cases event with
  | binary payload => exact iff_of_true ⟨_, rfl⟩ nofun
  | sendFrame opcode payload => exact iff_of_true ⟨_, rfl⟩ nofun
  | text payload =>
    simp only [handleEvent, Event.text.injEq, forall_eq', ← handleTextMessage_returns_iff]
    cases handleTextMessage lib load payload with
    | error e => simp only [reduceCtorEq, exists_false]
    | ok line => exact iff_of_true ⟨_, rfl⟩ ⟨_, rfl⟩

/-- Only a text message makes a handler throw. -/
theorem handleEvent_error {s : ThreadState} {event : Event} {e : ThreadException}
    (h : handleEvent lib load s event = .error e) : ∃ e', e = .text e' := by
  cases event with
  | binary payload => cases h
  | sendFrame opcode payload => cases h
  | text payload =>
    simp only [handleEvent] at h
    split at h
    · next e' _ =>
      cases h
      exact ⟨e', rfl⟩
    · cases h

/-- The texts the read loop dispatches are all harmless. -/
def AllHarmless (pendingBytes : List UInt8) (chunks : List (List UInt8)) : Prop :=
  ∀ payload, Event.text payload ∈ runReadLoop .both pendingBytes chunks → Harmless lib load payload

/-- Each text's handler returns, and none throws out of the thread. -/
structure TextsSurvived (s : ThreadState) (pendingBytes : List UInt8) (chunks : List (List UInt8)) : Prop where
  returns : ∀ payload, Event.text payload ∈ runReadLoop .both pendingBytes chunks →
    ∃ line, handleTextMessage lib load payload = .ok line
  caught : ∀ e, readThread lib load s pendingBytes chunks ≠ .error (.text e)

/-- The handlers get through a run exactly when its texts are harmless. -/
theorem handlers_ok_iff (s : ThreadState) (pendingBytes : List UInt8) (chunks : List (List UInt8)) :
    (∃ s', (runReadLoop .both pendingBytes chunks).foldlM (handleEvent lib load) s = .ok s') ↔
      AllHarmless lib load pendingBytes chunks := by
  rw [foldlM_ok_iff (handleEvent_ok_iff lib load)]
  constructor
  · intro h payload hmem
    exact h _ hmem payload rfl
  · intro h event hmem payload hevent
    exact h payload (hevent ▸ hmem)

/-- **The read thread survives its texts exactly when they are harmless**, and ends as it should
exactly when there is no frame of a length no vector can have either. -/
theorem read_thread_survives_iff (s : ThreadState) (pendingBytes : List UInt8) (chunks : List (List UInt8)) :
    (TextsSurvived lib load s pendingBytes chunks ↔ AllHarmless lib load pendingBytes chunks) ∧
      ((∃ s', readThread lib load s pendingBytes chunks = .ok s') ↔
        AllHarmless lib load pendingBytes chunks ∧ ¬ Threw pendingBytes chunks) := by
  have hreturns : (∀ payload, Event.text payload ∈ runReadLoop .both pendingBytes chunks →
      ∃ line, handleTextMessage lib load payload = .ok line) ↔ AllHarmless lib load pendingBytes chunks :=
    forall₂_congr fun payload _ => handleTextMessage_returns_iff lib load payload
  have hhandlers := handlers_ok_iff lib load s pendingBytes chunks
  cases hrun : (runReadLoop .both pendingBytes chunks).foldlM (handleEvent lib load) s with
  | error e =>
    obtain ⟨t, event, hstep⟩ := foldlM_error hrun
    obtain ⟨e', rfl⟩ := handleEvent_error lib load hstep
    have hthread : readThread lib load s pendingBytes chunks = .error (.text e') := by
      rw [readThread, hrun, error_bind]
    have hharm : ¬ AllHarmless lib load pendingBytes chunks := by
      rw [← hhandlers, hrun]
      simp only [reduceCtorEq, exists_false, not_false_iff]
    refine ⟨iff_of_false (fun h => h.caught e' hthread) hharm, iff_of_false ?_ fun h => hharm h.1⟩
    simp only [hthread, reduceCtorEq, exists_false, not_false_iff]
  | ok t =>
    have hharmless : AllHarmless lib load pendingBytes chunks := hhandlers.mp ⟨t, hrun⟩
    have hthread : readThread lib load s pendingBytes chunks =
        match (ReadLoop.run decoder pendingBytes chunks).halt with
        | some .fault => .error .length
        | _ => .ok {t with running := false} := by
      rw [readThread, hrun, ok_bind]
    rw [hthread]
    refine ⟨iff_of_true ⟨hreturns.mpr hharmless, ?_⟩ hharmless, ?_⟩
    · rw [hthread]
      intro e
      split <;> simp only [ne_eq, reduceCtorEq, not_false_iff, Except.error.injEq]
    · rw [and_iff_right hharmless, Threw]
      split
      · next hfault => simp only [hfault, reduceCtorEq, exists_false, not_true]
      · next hfault => exact iff_of_true ⟨_, rfl⟩ hfault

end

/-! ### A message that is not -/

/-- A message whose event is a list. -/
def listEvent : List UInt8 := ascii "\x7b\"event_type\": [], \"property\": \"x\"\x7d"

/-- `YAML::Load`, of that message. -/
def loadListEvent (json : List UInt8) : Option Yaml :=
  if json = listEvent then some (.map [(.scalar "event_type", .seq []), (.scalar "property", .scalar "x")]) else none

def textLib : YamlLib where
  toDouble _ := none
  toInt _ := none
  toUint16 _ := none
  toBool _ := none
  nullAsString := some "null"
  toString _ := ""

/-- The message in one unmasked frame. -/
theorem list_event_kills : ¬ ∀ (lib : YamlLib) (load : List UInt8 → Option Yaml) (s : ThreadState)
    (pendingBytes : List UInt8) (chunks : List (List UInt8)), TextsSurvived lib load s pendingBytes chunks := by
  intro h
  have hsurvived := h textLib loadListEvent ⟨.fresh, [], [], true⟩ [] [[0x81, UInt8.ofNat listEvent.length] ++ listEvent]
  obtain ⟨line, hline⟩ := hsurvived.returns listEvent (by decide +kernel)
  have hload : loadListEvent listEvent =
      some (.map [(.scalar "event_type", .seq []), (.scalar "property", .scalar "x")]) := if_pos rfl
  simp only [handleTextMessage, hload] at hline
  cases hline

end VrxServer.SdrConnect
