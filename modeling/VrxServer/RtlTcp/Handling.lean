import VrxServer.Dsp.Requests
import VrxServer.RtlTcp.Commands

/-! What an rtl_tcp command does to the receiver.

Of all commands one is acted upon, a frequency inside the span of the capture
(`handleCommand_eq`): every other is answered by nothing, or by a line of the log. -/
namespace VrxServer.RtlTcp
open Base Config Dsp

/-! ### `rtltcp::Command`, as far as it is handled -/

namespace Command
def setFrequency : UInt8 := 0x01
def setSampleRate : UInt8 := 0x02
def setGainMode : UInt8 := 0x03
def setGain : UInt8 := 0x04
def setFrequencyCorrection : UInt8 := 0x05
def setAgcMode : UInt8 := 0x08
def setDirectSampling : UInt8 := 0x09
def setOffsetTuning : UInt8 := 0x0a
def setTunerGainByIndex : UInt8 := 0x0d
def setBiasTee : UInt8 := 0x0e
end Command

/-- The line a command leaves in the log. -/
inductive Logged (K : Type) where
  | retuned (param : UInt32)
  | retuneRejected (e : VrxError K)
  /-- A sample rate that is not the receiver's own. -/
  | fixedSampleRate (param : UInt32) (sampleRateHz : K)
  | unhandled (cmd : UInt8) (param : UInt32)

variable {K : Type} [Field K] [LinearOrder K] (T : Trig K)

/-- The receiver after a command, and the line in the log if there is one. -/
def handleCommand (vrx : VirtualReceiver K) (c : ParsedCommand) : VirtualReceiver K × Option (Logged K) :=
  if c.cmd = Command.setFrequency then
    match vrx.retune T (c.param.toNat : K) with
    | .ok vrx' => (vrx', some (.retuned c.param))
    | .error e => (vrx, some (.retuneRejected e))
  else if c.cmd = Command.setSampleRate then
    if (c.param.toNat : K) ≠ vrx.getSampleRateHz then (vrx, some (.fixedSampleRate c.param vrx.getSampleRateHz))
    else (vrx, none)
  else if c.cmd ∈ [Command.setGainMode, Command.setGain, Command.setAgcMode, Command.setFrequencyCorrection,
      Command.setTunerGainByIndex, Command.setBiasTee] then (vrx, none)
  else if c.cmd ∈ [Command.setDirectSampling, Command.setOffsetTuning] then (vrx, none)
  else (vrx, some (.unhandled c.cmd c.param))

/-- The frequency a command asks for. -/
def ParsedCommand.frequency (c : ParsedCommand) : Option UInt32 :=
  if c.cmd = Command.setFrequency then some c.param else none

variable {T} [FloorRing K]

/-- A command is the retune it asks for, if it asks for one, and leaves the receiver alone otherwise. -/
theorem handleCommand_eq (vrx : VirtualReceiver K) (c : ParsedCommand) :
    (VirtualReceiver.receiver T).run vrx (c.frequency.toList.map fun param => .retune (param.toNat : K)) =
      some (handleCommand T vrx c).1 := by
  unfold handleCommand ParsedCommand.frequency
  by_cases hfrequency : c.cmd = Command.setFrequency
  · rw [if_pos hfrequency, if_pos hfrequency]
    show (VirtualReceiver.handle T vrx (.retune _)).bind _ = _
    rw [VirtualReceiver.handle]
    cases vrx.retune T (c.param.toNat : K) <;> rfl
  · rw [if_neg hfrequency, if_neg hfrequency]
    split_ifs <;> rfl

end VrxServer.RtlTcp
