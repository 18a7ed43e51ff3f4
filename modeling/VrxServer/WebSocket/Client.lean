import VrxServer.WebSocket.Frame

/-! The client's read loop: messages put together from frames, and pings answered. -/
namespace VrxServer.WebSocket
open Base

/-- Which of the two handlers are set. -/
structure Handlers where
  onText : Bool
  onBinary : Bool

def Handlers.both : Handlers := ⟨true, true⟩

/-- What the loop does for the outside. -/
inductive Event where
  | text (payload : List UInt8)
  | binary (payload : List UInt8)
  /-- A call of `sendFrame`; an exception of it is dropped. -/
  | sendFrame (opcode : UInt8) (payload : List UInt8)
  deriving DecidableEq

/-- The loop's fragmentation state, which outlives a read. -/
structure Assembly where
  fragActive : Bool
  fragOpcode : UInt8
  fragPayload : List UInt8

def Assembly.initial : Assembly := ⟨false, 0, []⟩

def invoke (handlers : Handlers) (opcode : UInt8) (payload : List UInt8) : List Event :=
  if opcode = 0x1 ∧ handlers.onText then [.text payload]
  else if opcode = 0x2 ∧ handlers.onBinary then [.binary payload]
  else []

/-- The `switch` over the opcode of one frame. -/
def dispatch (handlers : Handlers) (a : Assembly) (f : Frame) : List Event × Assembly :=
  if f.opcode = 0x0 then
    if a.fragActive then
      let fragPayload := a.fragPayload ++ f.payload
      if f.fin then (invoke handlers a.fragOpcode fragPayload, {a with fragActive := false, fragPayload := []})
      else ([], {a with fragPayload := fragPayload})
    else ([], a)
  else if f.opcode = 0x1 ∨ f.opcode = 0x2 then
    if f.fin then (invoke handlers f.opcode f.payload, a)
    else ([], ⟨true, f.opcode, f.payload⟩)
  else if f.opcode = 0x9 then ([.sendFrame 0xA f.payload], a)
  else ([], a)

def dispatchAll (handlers : Handlers) : Assembly → List Frame → List Event × Assembly
  | a, [] => ([], a)
  | a, f :: fs =>
    let r := dispatch handlers a f
    let rs := dispatchAll handlers r.2 fs
    (r.1 ++ rs.1, rs.2)

/-- What the loop does on what `connect` saved and the reads that return bytes; after them a
read returns nothing and the loop ends. -/
def runReadLoop (handlers : Handlers) (pendingBytes : List UInt8) (chunks : List (List UInt8)) : List Event :=
  (dispatchAll handlers .initial (ReadLoop.run decoder pendingBytes chunks).dispatched).1

theorem dispatchAll_append (handlers : Handlers) (a : Assembly) (fs gs : List Frame) :
    dispatchAll handlers a (fs ++ gs) =
      ((dispatchAll handlers a fs).1 ++ (dispatchAll handlers (dispatchAll handlers a fs).2 gs).1,
        (dispatchAll handlers (dispatchAll handlers a fs).2 gs).2) := by
  induction fs generalizing a with
  | nil => rfl
  | cons f fs ih => simp only [List.cons_append, dispatchAll, ih, List.append_assoc]

/-- Without bytes saved, what the loop does is what the frames of the whole stream make it do,
however the reads cut it. -/
theorem runReadLoop_eq (handlers : Handlers) (chunks : List (List UInt8)) :
    runReadLoop handlers [] chunks = (dispatchAll handlers .initial (decoder.drain chunks.flatten).items).1 := by
  have h := (ReadLoop.run_eq_drain_of_more decoder [] rfl chunks).1
  rw [runReadLoop, h, List.nil_append]

end VrxServer.WebSocket
