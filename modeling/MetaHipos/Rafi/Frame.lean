/-
  The frames of the touch controller: `rafi_gs_device.c`.

  A frame has 10 bytes: the number of frames that follow, a fragment of 8 bytes
  and a CRC.  A fragment is a report, its first byte tells which one.  Frames
  that follow are not supported, so a fragment is a whole report.

  * `crc8`, `decodeFrame`: the check and the decoder, with one definition for
    each function of the source.
-/
import Mathlib.Data.Nat.Notation
import MetaHipos.Crc
import MetaHipos.LittleEndian

namespace MetaHipos.Rafi

open LittleEndian

/-- The error numbers of the driver. -/
inductive Errno where
  | EIO
  | EINVAL
  | ETIMEDOUT
deriving DecidableEq, Repr

/-! ## Reports -/

/-- `enum report_status_code` -/
inductive StatusCode where
  | normalOperation
  | acceptingData
  | dataAccepted
  | error
deriving DecidableEq, Repr

/-- `enum report_status_error` -/
inductive StatusError where
  | noErr
  | unsuppMsgId
  | unexpMsgId
  | invMsgDat
  | unexpErr
  | datOutOfOrder
  | tooViewDat
  | tooManyDat
  | fwChkSum
  | fwFileLen
  | fwErase
  | fwProg
  | downloadType
  | downloadConfigIdx
deriving DecidableEq, Repr

/-- The byte of a code. -/
def StatusCode.value : StatusCode → Byte
  | normalOperation => 1
  | acceptingData => 2
  | dataAccepted => 3
  | error => 4

/-- The byte of an error. -/
def StatusError.value : StatusError → Byte
  | noErr => 0
  | unsuppMsgId => 1
  | unexpMsgId => 2
  | invMsgDat => 3
  | unexpErr => 4
  | datOutOfOrder => 7
  | tooViewDat => 8
  | tooManyDat => 9
  | fwChkSum => 10
  | fwFileLen => 11
  | fwErase => 12
  | fwProg => 13
  | downloadType => 14
  | downloadConfigIdx => 15

/-- The `switch` over the codes. -/
def StatusCode.ofByte (b : Byte) : Option StatusCode :=
  [normalOperation, acceptingData, dataAccepted, error].find? fun code => code.value = b

/-- The `switch` over the errors. -/
def StatusError.ofByte (b : Byte) : Option StatusError :=
  [noErr, unsuppMsgId, unexpMsgId, invMsgDat, unexpErr, datOutOfOrder, tooViewDat, tooManyDat,
    fwChkSum, fwFileLen, fwErase, fwProg, downloadType, downloadConfigIdx].find?
      fun error => error.value = b

/-- `struct report_sw_version` -/
structure SwVersion where
  major : Byte
  minor : Byte
  revision : Byte
deriving DecidableEq, Repr

/-- `struct report_status` -/
structure Status where
  code : StatusCode
  error : StatusError
  lastCmdId : ℕ
deriving DecidableEq, Repr

/-- `struct report_ts_data` -/
structure TsData where
  pressed : Bool
  inRange : Bool
  valid : Bool
  fingerId : ℕ
  x : ℕ
  y : ℕ
  contactCnt : ℕ
deriving DecidableEq, Repr

/-- `struct report_key_array`, with `RAFI_GS_MAX_KEYS` keys -/
structure KeyArray where
  numKeys : ℕ
  anyKeyTouched : Bool
  keyTouched : Fin 32 → Bool

/-- The payload of `struct report`; the constructor stands for the id. -/
inductive Payload where
  | swVersion (d : SwVersion)
  | status (d : Status)
  | tsData (d : TsData)
  | keyArray (d : KeyArray)

/-- `enum report_id` -/
def Payload.id : Payload → Byte
  | swVersion _ => 11
  | status _ => 40
  | tsData _ => 75
  | keyArray _ => 79

/-- `struct report` -/
structure Report where
  remainingFrames : Byte
  payload : Payload

/-! ## The decoder -/

/-- `buffer[ k ]` -/
def byteAt (buffer : List Byte) (k : ℕ) : Byte := buffer.getD k 0

/-- `RAFI_GS_REPORT_STATUS_SIZE` and its likes: the size of all reports. -/
def reportSize : ℕ := 7

/-- `decode_report_sw_version` -/
def decodeReportSwVersion (buffer : List Byte) (size : ℕ) : Except Errno Payload :=
  if reportSize ≠ size then .error .EINVAL
  else .ok (.swVersion ⟨byteAt buffer 0, byteAt buffer 1, byteAt buffer 2⟩)

/-- `decode_report_status` -/
def decodeReportStatus (buffer : List Byte) (size : ℕ) : Except Errno Payload :=
  if reportSize ≠ size then .error .EINVAL
  else
    match StatusCode.ofByte (byteAt buffer 0) with
    | none => .error .EINVAL
    | some code =>
      match StatusError.ofByte (byteAt buffer 1) with
      | none => .error .EINVAL
      | some error => .ok (.status ⟨code, error, (byteAt buffer 2).toNat⟩)

/-- `decode_report_ts_data` -/
def decodeReportTsData (buffer : List Byte) (size : ℕ) : Except Errno Payload :=
  if reportSize ≠ size then .error .EINVAL
  else
    let info := byteAt buffer 0
    .ok (.tsData
      { pressed := info &&& 1 ≠ 0
        inRange := info &&& 2 ≠ 0
        valid := info &&& 4 ≠ 0
        fingerId := (byteAt buffer 1).toNat
        x := (byteAt buffer 2).toNat + (byteAt buffer 3).toNat <<< 8
        y := (byteAt buffer 4).toNat + (byteAt buffer 5).toNat <<< 8
        contactCnt := (byteAt buffer 6).toNat })

/-- `decode_report_key_array` -/
def decodeReportKeyArray (buffer : List Byte) (size : ℕ) : Except Errno Payload :=
  if reportSize ≠ size then .error .EINVAL
  else
    let info := byteAt buffer 0
    .ok (.keyArray
      { numKeys := (info &&& 0x1F).toNat
        anyKeyTouched := info &&& 0x80 ≠ 0
        keyTouched := fun i => byteAt buffer (i.val / 8 + 1) &&& ((1 : Byte) <<< (i.val % 8)) ≠ 0 })

/-- `decode_report` -/
def decodeReport (buffer : List Byte) (size : ℕ) : Except Errno Payload :=
  let id := byteAt buffer 0
  if id = 11 then decodeReportSwVersion (buffer.drop 1) (size - 1)
  else if id = 40 then decodeReportStatus (buffer.drop 1) (size - 1)
  else if id = 75 then decodeReportTsData (buffer.drop 1) (size - 1)
  else if id = 79 then decodeReportKeyArray (buffer.drop 1) (size - 1)
  else .error .EINVAL

/-- `CRCPOLY` -/
def crcpoly : Byte := 0x8C

/-- The body of the inner loop: the next bit of `dat`. -/
def crc8Bit (crc dat : Byte) : Byte × Byte :=
  let fb := (crc ^^^ dat) &&& 1
  let dat := dat >>> 1
  let crc := crc >>> 1
  (if fb ≠ 0 then crc ^^^ crcpoly else crc, dat)

/-- `do { … } while ( index-- )` -/
def crc8Byte (crc dat : Byte) : ℕ → Byte
  | 0 => (crc8Bit crc dat).1
  | index + 1 => crc8Byte (crc8Bit crc dat).1 (crc8Bit crc dat).2 index

/-- `crc8` -/
def crc8 (start : Byte) (array : List Byte) : Byte :=
  array.foldl (fun crc dat => crc8Byte crc dat 7) start

/-- `RAFI_GS_FRAME_SIZE` -/
def frameSize : ℕ := 10

/-- `decode_frame` -/
def decodeFrame (rcv : List Byte) (size : ℕ) : Except Errno Report :=
  if size ≠ frameSize then .error .EINVAL
  else if crc8 0 (rcv.take size) ≠ 0 then .error .EINVAL
  else
    let remainingFrames := byteAt rcv 0
    if remainingFrames ≠ 0 then .error .EINVAL -- Not supported yet.
    else do
      let payload ← decodeReport (rcv.drop 1) 8
      pure ⟨remainingFrames, payload⟩

/-- A frame that is not followed by others, with its CRC. -/
def withCrc (fragment : List Byte) : List Byte :=
  (0 :: fragment) ++ [crc8 0 (0 :: fragment)]

/-- `COMMAND_SELECT_TOUCH_CONFIGURATION`, which a status may refer to. -/
def COMMAND_SELECT_TOUCH_CONFIGURATION : Byte := 78

end MetaHipos.Rafi
