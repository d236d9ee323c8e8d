import Mathlib.Data.List.Basic
import Mathlib.Tactic.Ring

/-!
# Frames

A frame is a request id and a payload length of two bytes each, big-endian, then the payload. The format
is written and read twice: `Session.cpp` shifts and masks by hand, `tcpmgr.cpp` uses `QDataStream` and
`qFromBigEndian`. Both writers put the same two bytes, and both readers read them back.
-/

set_option autoImplicit false

namespace SyncRtc.Net

abbrev Bytes := List UInt8

/-- `kFrameHeaderLength`. -/
def frameHeaderLength : Nat := 4

/-! ## By hand -/

/-- Two bytes of the header as `Session::Send` writes them. -/
def shiftedBytes (n : UInt16) : Bytes := [((n >>> 8) &&& 0xFF).toUInt8, (n &&& 0xFF).toUInt8]

/-- Two bytes of the header as `Session::ParseFrames` reads them. -/
def shiftedValue (high low : UInt8) : UInt16 := (high.toUInt16 <<< 8) ||| low.toUInt16

/-- The frame `Session::Send` builds. -/
def sessionFrame (requestId : UInt16) (payload : Bytes) : Bytes :=
  shiftedBytes requestId ++ shiftedBytes payload.length.toUInt16 ++ payload

/-! ## By Qt -/

/-- `QDataStream << quint16` in big-endian order. -/
def streamBytes (n : UInt16) : Bytes := [(n.toNat / 256).toUInt8, (n.toNat % 256).toUInt8]

/-- `qFromBigEndian<quint16>`. -/
def fromBigEndian (high low : UInt8) : UInt16 := (high.toNat * 256 + low.toNat).toUInt16

/-- The frame `TcpMgr::slot_send_data` builds. -/
def streamFrame (requestId : UInt16) (payload : Bytes) : Bytes :=
  streamBytes requestId ++ streamBytes payload.length.toUInt16 ++ payload

/-! ## The two agree -/

theorem shiftedBytes_eq (n : UInt16) : shiftedBytes n = streamBytes n := by
  have hn : n.toNat < 65536 := n.toNat_lt
  have hmask : ∀ x : Nat, x &&& 255 = x % 256 := fun x => Nat.and_two_pow_sub_one_eq_mod x 8
  have hhigh : ((n >>> 8) &&& 0xFF).toUInt8 = (n.toNat / 256).toUInt8 := by
    apply UInt8.toNat_inj.mp
    simp [hmask, Nat.shiftRight_eq_div_pow]
  have hlow : (n &&& 0xFF).toUInt8 = (n.toNat % 256).toUInt8 := by
    apply UInt8.toNat_inj.mp
    simp [hmask]
  simp only [shiftedBytes, streamBytes, hhigh, hlow]

theorem shiftedValue_eq (high low : UInt8) : shiftedValue high low = fromBigEndian high low := by
  apply UInt16.toNat_inj.mp
  have hhigh : high.toNat < 256 := high.toNat_lt
  have hlow : low.toNat < 256 := low.toNat_lt
  have hshift : high.toNat <<< 8 % 65536 = high.toNat <<< 8 := by
    rw [Nat.shiftLeft_eq]
    omega
  have hor : high.toNat <<< 8 ||| low.toNat = high.toNat * 256 + low.toNat := by
    rw [← Nat.shiftLeft_add_eq_or_of_lt (i := 8) hlow, Nat.shiftLeft_eq]
  simp [shiftedValue, fromBigEndian, UInt16.toNat_or, UInt16.toNat_shiftLeft, hshift, hor]
  omega

theorem sessionFrame_eq (id : UInt16) (payload : Bytes) : sessionFrame id payload = streamFrame id payload := by
  simp only [sessionFrame, streamFrame, shiftedBytes_eq]

/-- The value of two bytes a writer has put. -/
theorem fromBigEndian_bytes (n : UInt16) :
    fromBigEndian (n.toNat / 256).toUInt8 (n.toNat % 256).toUInt8 = n := by
  apply UInt16.toNat_inj.mp
  have hn : n.toNat < 65536 := n.toNat_lt
  simp [fromBigEndian]
  omega

theorem sessionFrame_length (id : UInt16) (payload : Bytes) :
    (sessionFrame id payload).length = frameHeaderLength + payload.length := by
  simp only [sessionFrame, shiftedBytes, List.length_append, List.length_cons, List.length_nil, frameHeaderLength]

end SyncRtc.Net
