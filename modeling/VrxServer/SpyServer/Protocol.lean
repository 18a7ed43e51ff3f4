import VrxServer.Base.Bytes

/-! The SpyServer protocol: what goes over the wire.

Every struct is a row of 32-bit words, written as they lie in memory. -/
namespace VrxServer.SpyServer
open Base

def kProtocolVersion : UInt32 := (2 : UInt32) <<< 24 ||| (0 : UInt32) <<< 16 ||| 1700

def kMaxCommandBodySize : ℕ := 256

/-! ### Enumerations, in the values the server uses -/

namespace CommandType
def hello : UInt32 := 0
def setSetting : UInt32 := 2
def ping : UInt32 := 3
end CommandType

namespace SettingType
def streamingMode : UInt32 := 0
def streamingEnabled : UInt32 := 1
def iqFrequency : UInt32 := 101
end SettingType

def kDeviceTypeRtlSdr : UInt32 := 3

def kStreamTypeStatus : UInt32 := 0
def kStreamTypeIq : UInt32 := 1

def kStreamFormatUint8 : UInt32 := 1

def kMsgTypeDeviceInfo : UInt32 := 0
def kMsgTypeClientSync : UInt32 := 1
def kMsgTypePong : UInt32 := 2
def kMsgTypeUint8Iq : UInt32 := 100

/-! ### Structs -/

structure MessageHeader where
  protocolId : UInt32
  messageType : UInt32
  streamType : UInt32
  sequenceNumber : UInt32
  bodySize : UInt32
  deriving DecidableEq

structure DeviceInfo where
  deviceType : UInt32
  deviceSerial : UInt32
  maximumSampleRate : UInt32
  maximumBandwidth : UInt32
  decimationStageCount : UInt32
  gainStageCount : UInt32
  maximumGainIndex : UInt32
  minimumFrequency : UInt32
  maximumFrequency : UInt32
  resolution : UInt32
  minimumIqDecimation : UInt32
  forcedIqFormat : UInt32
  deriving DecidableEq

structure ClientSync where
  canControl : UInt32
  gain : UInt32
  deviceCenterFrequency : UInt32
  iqCenterFrequency : UInt32
  fftCenterFrequency : UInt32
  minimumIqCenterFrequency : UInt32
  maximumIqCenterFrequency : UInt32
  minimumFftCenterFrequency : UInt32
  maximumFftCenterFrequency : UInt32
  deriving DecidableEq

def MessageHeader.bytes (h : MessageHeader) : List UInt8 :=
  wordsBytes [h.protocolId, h.messageType, h.streamType, h.sequenceNumber, h.bodySize]

def DeviceInfo.bytes (i : DeviceInfo) : List UInt8 :=
  wordsBytes [i.deviceType, i.deviceSerial, i.maximumSampleRate, i.maximumBandwidth, i.decimationStageCount,
    i.gainStageCount, i.maximumGainIndex, i.minimumFrequency, i.maximumFrequency, i.resolution,
    i.minimumIqDecimation, i.forcedIqFormat]

def ClientSync.bytes (s : ClientSync) : List UInt8 :=
  wordsBytes [s.canControl, s.gain, s.deviceCenterFrequency, s.iqCenterFrequency, s.fftCenterFrequency,
    s.minimumIqCenterFrequency, s.maximumIqCenterFrequency, s.minimumFftCenterFrequency,
    s.maximumFftCenterFrequency]

/-! ### Headers as a client reads them -/

@[simp] theorem MessageHeader.length_bytes (h : MessageHeader) : h.bytes.length = 20 :=
  length_wordsBytes _

@[simp] theorem DeviceInfo.length_bytes (i : DeviceInfo) : i.bytes.length = 48 := length_wordsBytes _

@[simp] theorem ClientSync.length_bytes (s : ClientSync) : s.bytes.length = 36 := length_wordsBytes _

theorem readU32_messageType (h : MessageHeader) (rest : List UInt8) :
    readU32 (h.bytes ++ rest) 4 = some h.messageType :=
  readU32_wordsBytes [h.protocolId, h.messageType, h.streamType, h.sequenceNumber, h.bodySize] rest 1 (by simp)

theorem readU32_sequenceNumber (h : MessageHeader) (rest : List UInt8) :
    readU32 (h.bytes ++ rest) 12 = some h.sequenceNumber :=
  readU32_wordsBytes [h.protocolId, h.messageType, h.streamType, h.sequenceNumber, h.bodySize] rest 3 (by simp)

theorem readU32_bodySize (h : MessageHeader) (rest : List UInt8) :
    readU32 (h.bytes ++ rest) 16 = some h.bodySize :=
  readU32_wordsBytes [h.protocolId, h.messageType, h.streamType, h.sequenceNumber, h.bodySize] rest 4 (by simp)

end VrxServer.SpyServer
