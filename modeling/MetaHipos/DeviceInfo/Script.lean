/-
  The device identity: the script `hipos-device-info.sh`.

  An info file is a list of lines `KEY=VALUE`; the script sources it, so that
  the last line of a key wins.  The script fetches the info file of the board
  controller, sorts it and removes repeated lines, and decides whether it
  becomes `/etc/hydraip-devid`.  File commands succeed, and there is no external
  program that fixes the file.

  * `fetchInfo`, `updateDeviceType`, `updateHostname`: the functions of the
    script;
  * `run`: the script.
-/
import Mathlib.Data.List.Sort
import MetaHipos.Assignments

namespace MetaHipos.DeviceInfo

open Assignments

/-! ## Info files -/

/-- The variables of the script. -/
def scriptVariables : List String :=
  ["NAME", "BCTRL_DEV", "DRBCC_BIN", "DEVID_FILE", "TMP_DEVID_FILE", "TMP_DEVID_FILE_SORT",
    "FIX_DEVID_BIN", "HOSTNAME_FILE", "DEVICE_FILE_START", "machine", "host_running",
    "machine_module", "ret", "resp", "device_file", "iter_file"]

/-- A character that means itself to the shell, and is no separator of a path. -/
def isPlain (c : Char) : Bool := c.isAlphanum || c ∈ ['_', '-', '.', ':', '+', ',', '@', '%']

/-- A line `KEY=VALUE`, which sets none of the variables of the script. -/
structure InfoLine where
  key : String
  value : String
  ordinary : key ∉ scriptVariables
  plain : value.toList.all isPlain = true
deriving DecidableEq

/-- The file, line by line. -/
abbrev InfoFile := List InfoLine

/-- The variables of the shell; those that are not set are empty. -/
abbrev Vars := String → String

/-- Before the first line is read, no variable is set. -/
def unset : Vars := fun _ => ""

/-- `. <file>` -/
def source (vars : Vars) (file : InfoFile) : Vars :=
  assign vars (file.map fun l => (l.key, l.value))

/-- `uniq`: of equal lines next to each other, the first one. -/
def uniq : InfoFile → InfoFile
  | [] => []
  | [l] => [l]
  | l :: l' :: ls => if l = l' then uniq (l' :: ls) else l :: uniq (l' :: ls)

/-- `sort <file> | uniq`, in the order of the locale. -/
def sortUniq (collate : InfoLine → InfoLine → Bool) (file : InfoFile) : InfoFile :=
  uniq (file.insertionSort fun a b => collate a b = true)

/-- The text of a line. -/
def InfoLine.text (l : InfoLine) : List Char := l.key.toList ++ '=' :: l.value.toList

/-- The order of the locale `C`. -/
def cLocale (a b : InfoLine) : Bool := !decide (b.text < a.text)

/-- `[0-9]` -/
def isDigit (c : Char) : Bool := '0' ≤ c && c ≤ '9'

/-- `[0-9][0-9][0-9][0-9]-[0-9]-[0-9][0-9][0-9][0-9][0-9]` -/
def serialPattern : List (Char → Bool) :=
  [isDigit, isDigit, isDigit, isDigit, (· == '-'), isDigit, (· == '-'),
    isDigit, isDigit, isDigit, isDigit, isDigit]

/-- `serial_valid` -/
def serialValid (serial : String) : Bool :=
  serial.toList.length == serialPattern.length &&
    (List.zipWith (fun p c => p c) serialPattern serial.toList).all id

/-! ## The script -/

/-- The files the script leaves: `/etc/hydraip-devid`, the device types whose
    marker file `/etc/hipos/hipos-device.<type>` exists, and the text of
    `/etc/hostname`. -/
structure Root where
  devid : Option InfoFile
  markers : String → Bool
  hostname : Option String

/-- What a run meets: whether `drbcc` can be executed, and the file that
    `gfiletype` leaves in `/tmp/hipos-devid`. -/
structure Answer where
  drbcc : Bool
  bctrl : Option InfoFile

/-- The variables, the files, the info file in the board controller, and the
    return value of a function of the script. -/
structure State where
  vars : Vars
  root : Root
  bctrl : Option InfoFile
  ret : ℕ

/-- `diff -abq $TMP_DEVID_FILE $DEVID_FILE || mv -f $TMP_DEVID_FILE $DEVID_FILE` -/
def Root.replaceDevid (root : Root) (tmp : InfoFile) : Root :=
  if root.devid = some tmp then root else { root with devid := some tmp }

/-- `fetch_info` -/
def fetchInfo (collate : InfoLine → InfoLine → Bool) (bctrl : Option InfoFile) (root : Root) :
    State :=
  let received := bctrl.getD []
  if received = [] then
    { vars := unset
      root := { root with devid := some (root.devid.getD []) }
      bctrl := bctrl
      ret := 1 }
  else
    let sorted := sortUniq collate received
    let tmp := if received ≠ sorted then sorted else received
    let bctrl := if received ≠ sorted then some sorted else bctrl
    let vars := source unset tmp
    match root.devid with
    | some devid =>
      if !serialValid (vars "serial") then
        let vars := source vars devid
        if serialValid (vars "serial") then
          { vars := vars, root := root, bctrl := bctrl, ret := 1 }
        else
          { vars := vars, root := root.replaceDevid tmp, bctrl := bctrl, ret := 0 }
      else
        { vars := vars, root := root.replaceDevid tmp, bctrl := bctrl, ret := 0 }
    | none =>
      { vars := vars
        root := { root with devid := some tmp }
        bctrl := bctrl
        ret := if !serialValid (vars "serial") then 1 else 0 }

/-- `update_device_type` -/
def updateDeviceType (s : State) : State :=
  let device := if s.vars "device" = "" then "unknown" else s.vars "device"
  let touched := Function.update s.root.markers device true
  { s with
    vars := Function.update s.vars "device" device
    root := { s.root with markers := fun name => touched name && name == device }
    ret := if s.vars "device" = "" then 1 else 0 }

/-- `update_hostname` -/
def updateHostname (s : State) : State :=
  if serialValid (s.vars "serial") then
    if s.root.hostname = none ∨ s.root.hostname = some "hikirk" ∨
        s.root.hostname = some "4080-0-00000" then
      { s with root := { s.root with hostname := some (s.vars "serial") }, ret := 0 }
    else { s with ret := 0 }
  else { s with ret := 1 }

/-- The script, as far as it works on these files: after `fetch_info`, the local
    file is sourced again. -/
def run (collate : InfoLine → InfoLine → Bool) (answer : Answer) (root : Root) : State :=
  if !answer.drbcc then { vars := unset, root := root, bctrl := answer.bctrl, ret := 1 }
  else
    let s := fetchInfo collate answer.bctrl root
    let s := { s with vars := source s.vars (s.root.devid.getD []) }
    updateHostname (updateDeviceType s)

end MetaHipos.DeviceInfo
