/-
  From reports to input events: `rafi_gs_device.c` and `rafi_ts_input.c`.

  The device keeps which fingers are down and which keys are touched, and tells
  its observers.  The observer of the touchscreen has a state of its own, and
  reports to the input subsystem.  An array that is accessed out of its bounds
  ends a run with `none`.

  The input device is the one after both patches: the second one,
  `rafi-touchscreen-event-report.patch`, takes the sync out of
  `emit_button_down`, so that `BTN_TOUCH` and the position are one packet.
-/
import Mathlib.Logic.Function.Basic
import MetaHipos.Rafi.Frame

namespace MetaHipos.Rafi

open LittleEndian

/-! ## The input device -/

/-- What is reported to the input subsystem; the only key is `BTN_TOUCH`. -/
inductive InputEvent where
  | key (value : Bool)
  | absX (x : ℕ)
  | absY (y : ℕ)
  | absMtPositionX (x : ℕ)
  | absMtPositionY (y : ℕ)
  | mtSync
  | sync
deriving DecidableEq, Repr

/-- The messages of the input device. -/
inductive Perror where
  | ignoreFinger (finger : ℕ)
  | alreadyDown (finger : ℕ)
  | noFingerDownYet (finger : ℕ)
  | notDownYet (finger : ℕ)
deriving DecidableEq, Repr

/-- `enum rafi_ts_input_state` -/
inductive TsInputState where
  | untouched
  | singleTouch
  | multiTouch
deriving DecidableEq, Repr

/-- `struct rafi_ts_finger` -/
structure TsFinger where
  down : Bool
  x : ℕ
  y : ℕ
deriving DecidableEq, Repr

/-- `struct rafi_ts_input`, with the events and messages so far. -/
structure TsInput where
  state : TsInputState
  fingers : Fin 2 → TsFinger
  events : List InputEvent
  perrors : List Perror

namespace TsInput

/-- `rafi_ts_input_ctor` -/
def ctor : TsInput := ⟨.untouched, fun _ => ⟨false, 0, 0⟩, [], []⟩

/-- `input_report_key`, `input_report_abs`, `input_mt_sync` and `input_sync` -/
def emit (t : TsInput) (events : List InputEvent) : TsInput := { t with events := t.events ++ events }

/-- `PERROR` -/
def perror (t : TsInput) (message : Perror) : TsInput :=
  { t with perrors := t.perrors ++ [message] }

/-- `base->fingers[ finger ] = …` -/
def setFinger (t : TsInput) (finger : Fin 2) (value : TsFinger) : TsInput :=
  { t with fingers := Function.update t.fingers finger value }

/-- `base->state = …` -/
def setState (t : TsInput) (state : TsInputState) : TsInput := { t with state := state }

/-- The fingers that are down, in the order of their numbers. -/
def downFingers (t : TsInput) : List TsFinger :=
  ((List.finRange 2).map t.fingers).filter TsFinger.down

/-- `get_finger_state` -/
def getFingerState (t : TsInput) : TsInputState :=
  if t.downFingers.length ≥ 2 then .multiTouch
  else if t.downFingers.length = 1 then .singleTouch
  else .untouched

/-- `emit_button_down`: the packet is not complete. -/
def emitButtonDown (t : TsInput) : TsInput := t.emit [.key true]

/-- `emit_button_up` -/
def emitButtonUp (t : TsInput) : TsInput := t.emit [.key false, .sync]

/-- `emit_single_touch` -/
def emitSingleTouch (t : TsInput) (x y : ℕ) : TsInput := t.emit [.absX x, .absY y, .sync]

/-- `emit_multi_touch`: one contact for each finger that is down, or an empty one. -/
def emitMultiTouch (t : TsInput) : TsInput :=
  let contacts := t.downFingers.flatMap fun f =>
    [.absMtPositionX f.x, .absMtPositionY f.y, .mtSync]
  t.emit ((if t.downFingers = [] then [.mtSync] else contacts) ++ [.sync])

/-- The message for a finger that is too big; the function goes on. -/
def checkFinger (t : TsInput) (finger : ℕ) : TsInput :=
  if finger ≥ 2 then t.perror (.ignoreFinger finger) else t

/-- `virt_down` of the observer of the touchscreen -/
def virtDown (t : TsInput) (finger x y : ℕ) : Option TsInput :=
  let t := t.checkFinger finger
  if h : finger < 2 then
    match t.state with
    | .untouched =>
      let t := t.setFinger ⟨finger, h⟩ ⟨true, x, y⟩
      some (((t.emitButtonDown).emitSingleTouch x y).setState .singleTouch)
    | .singleTouch | .multiTouch =>
      if (t.fingers ⟨finger, h⟩).down = false then
        let t := t.setFinger ⟨finger, h⟩ ⟨true, x, y⟩
        some ((t.emitButtonDown).emitMultiTouch.setState .multiTouch)
      else some (t.perror (.alreadyDown finger))
  else none

/-- `virt_move` -/
def virtMove (t : TsInput) (finger x y : ℕ) : Option TsInput :=
  let t := t.checkFinger finger
  match t.state with
  | .untouched => (t.perror (.noFingerDownYet finger)).virtDown finger x y
  | .singleTouch =>
    if h : finger < 2 then
      if (t.fingers ⟨finger, h⟩).down = true then
        some ((t.setFinger ⟨finger, h⟩ ⟨true, x, y⟩).emitSingleTouch x y)
      else (t.perror (.notDownYet finger)).virtDown finger x y
    else none
  | .multiTouch =>
    if h : finger < 2 then
      if (t.fingers ⟨finger, h⟩).down = true then
        some (t.setFinger ⟨finger, h⟩ ⟨true, x, y⟩).emitMultiTouch
      else (t.perror (.notDownYet finger)).virtDown finger x y
    else none

/-- `virt_up` of the observer of the touchscreen -/
def virtUp (t : TsInput) (finger : ℕ) : Option TsInput :=
  let t := t.checkFinger finger
  match t.state with
  | .untouched => some (t.perror (.noFingerDownYet finger))
  | .singleTouch =>
    if h : finger < 2 then
      if (t.fingers ⟨finger, h⟩).down = true then
        some ((t.setFinger ⟨finger, h⟩ ⟨false, 0, 0⟩).emitButtonUp.setState .untouched)
      else some (t.perror (.notDownYet finger))
    else none
  | .multiTouch =>
    if h : finger < 2 then
      if (t.fingers ⟨finger, h⟩).down = true then
        let t := (t.setFinger ⟨finger, h⟩ ⟨false, 0, 0⟩).emitMultiTouch
        if t.getFingerState = .untouched then some (t.emitButtonUp.setState .untouched) else some t
      else some (t.perror (.notDownYet finger))
    else none

end TsInput

/-! ## The device -/

/-- `struct rafi_key_input`: the values of its key that were reported. -/
structure KeyInput where
  events : List Bool
deriving DecidableEq, Repr

/-- `struct rafi_gs_device`, as far as it is about fingers and keys. -/
structure Device where
  tsObs : List TsInput
  fingerDown : Fin 2 → Bool
  keyObs : Fin 32 → List KeyInput
  keyTouched : Fin 32 → Bool

/-- `rafi_gs_device_create`, and the observer `rafi_gs_probe` registers; the
    observers of keys are up to the platform. -/
def Device.probe (keyObs : Fin 32 → List KeyInput) : Device where
  tsObs := [TsInput.ctor]
  fingerDown := fun _ => false
  keyObs := keyObs
  keyTouched := fun _ => false

namespace Device

/-- The loop of `bc_event_ts_press`: `finger_down` of the finger, and the
    observers that are left. -/
def pressLoop (finger x y : ℕ) : Bool → List TsInput → Option (Bool × List TsInput)
  | down, [] => some (down, [])
  | down, obs :: rest => do
    let obs ← if down = false then obs.virtDown finger x y else some obs
    let obs ← obs.virtMove finger x y
    let (down, rest) ← pressLoop finger x y true rest
    pure (down, obs :: rest)

/-- `bc_event_ts_press` -/
def bcEventTsPress (d : Device) (finger x y : ℕ) : Option Device :=
  if h : finger < 2 then do
    let (down, obs) ← pressLoop finger x y (d.fingerDown ⟨finger, h⟩) d.tsObs
    pure { d with fingerDown := Function.update d.fingerDown ⟨finger, h⟩ down, tsObs := obs }
  else some d

/-- The loop of `bc_event_ts_release`. -/
def releaseLoop (finger : ℕ) : Bool → List TsInput → Option (Bool × List TsInput)
  | down, [] => some (down, [])
  | down, obs :: rest => do
    let obs ← if down = true then obs.virtUp finger else some obs
    let (down, rest) ← releaseLoop finger false rest
    pure (down, obs :: rest)

/-- `bc_event_ts_release` -/
def bcEventTsRelease (d : Device) (finger : ℕ) : Option Device :=
  if h : finger < 2 then do
    let (down, obs) ← releaseLoop finger (d.fingerDown ⟨finger, h⟩) d.tsObs
    pure { d with fingerDown := Function.update d.fingerDown ⟨finger, h⟩ down, tsObs := obs }
  else some d

/-- `bc_event_key_down` and `bc_event_key_up`: all observers of the key report
    the value. -/
def bcEventKey (d : Device) (key : Fin 32) (value : Bool) : Device :=
  let tell (obs : KeyInput) : KeyInput := ⟨obs.events ++ [value]⟩
  { d with keyObs := Function.update d.keyObs key ((d.keyObs key).map tell) }

/-- `handle_ts_data_report` -/
def handleTsDataReport (d : Device) (tsData : TsData) : Option (Except Errno Device) :=
  if tsData.pressed = true ∧ (tsData.inRange = false ∨ tsData.valid = false) then
    some (.error .EINVAL)
  else if tsData.pressed = true then
    (d.bcEventTsPress tsData.fingerId tsData.x tsData.y).map .ok
  else (d.bcEventTsRelease tsData.fingerId).map .ok

/-- The body of the loop of `handle_key_array_report`. -/
def handleKey (touched : Fin 32 → Bool) (d : Device) (i : Fin 32) : Device :=
  if touched i = true then
    if d.keyTouched i = false then
      { d with keyTouched := Function.update d.keyTouched i true }.bcEventKey i true
    else d
  else
    if d.keyTouched i = true then
      { d with keyTouched := Function.update d.keyTouched i false }.bcEventKey i false
    else d

/-- `handle_key_array_report` -/
def handleKeyArrayReport (d : Device) (keyArray : KeyArray) : Device :=
  (List.finRange 32).foldl (handleKey keyArray.keyTouched) d

/-- `get_report`, for what `i2c_transfer` returns: an error, or 10 bytes. -/
def getReport (rcv : Except Errno (List Byte)) : Except Errno Report := do
  let rcv ← rcv
  decodeFrame rcv frameSize

/-- The end of `work_fn`: the device afterwards, and the report that is handed
    to `handle_report`. -/
def handlePayload (d : Device) : Payload → Option (Device × Option Payload)
  | .tsData tsData =>
    (d.handleTsDataReport tsData).map fun
      | .ok d => (d, none)
      | .error _ => (d, none)
  | .keyArray keyArray => some (d.handleKeyArrayReport keyArray, none)
  | payload => some (d, some payload)

/-- `work_fn`, for what `i2c_transfer` returns. -/
def workFn (d : Device) (rcv : Except Errno (List Byte)) : Option (Device × Option Payload) :=
  match getReport rcv with
  | .error _ => some (d, none)
  | .ok report =>
    if report.remainingFrames ≠ 0 then some (d, none)
    else d.handlePayload report.payload

/-- The device after any number of interrupts. -/
def run (d : Device) : List (Except Errno (List Byte)) → Option Device
  | [] => some d
  | rcv :: rcvs => do
    let (d, _) ← d.workFn rcv
    run d rcvs

end Device

end MetaHipos.Rafi
