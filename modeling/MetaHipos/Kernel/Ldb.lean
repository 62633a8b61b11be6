/-
  The LVDS power sequence of the kernel's `ldb` driver, as patched.

  The device tree node of a channel and the outcomes of the calls to the kernel
  are given; the GPIOs the driver requests and frees are kept in a ledger.

  * `lvdsPowerGpio`: `lvds_power_gpio`, with its error labels `err`, `errVled`
    and `errBl`;
  * `ldbEnable`, `ldbDisable`: the power sequences the patch adds to
    `ldb_enable` and `ldb_disable`.
-/
import Mathlib.Data.Int.Notation
import Mathlib.Data.Nat.Notation
import Mathlib.Logic.Function.Basic
import MetaHipos.Ledger

namespace MetaHipos.Kernel

/-- The numbers of GPIOs, as 32-bit integers.  Zero is one of them, a negative
    number is not. -/
structure GpioNumbers where
  gpioIsValid : BitVec 32 → Bool
  valid_zero : gpioIsValid 0 = true
  not_valid_neg : ∀ n, n.msb = true → gpioIsValid n = false

/-- `struct gpio`, less its label. -/
structure Gpio where
  gpio : BitVec 32
  flags : BitVec 32

/-- `flags & OF_GPIO_ACTIVE_LOW` -/
def activeLow (flags : BitVec 32) : Bool := flags &&& 1 != 0

/-! ## The device tree and the kernel -/

/-- The device tree node of a channel.  `vccCount` is what
    `of_gpio_named_count` returns for `vcc-gpios`; a GPIO is what
    `of_get_named_gpio_flags` returns, be it an error. -/
structure LvdsChannel where
  vccCount : ℤ
  vcc : ℕ → Gpio
  vled : Gpio
  backlight : Gpio
  vccPowerupDelayMs : Option (BitVec 32)
  vccDownDelayMs : Option (BitVec 32)
  vledPowerupDelayMs : Option (BitVec 32)
  vledPowerdownDelayMs : Option (BitVec 32)
  backlightPowerupDelayMs : Option (BitVec 32)

/-- The GPIOs of a channel. -/
inductive Line where
  | vcc (i : ℕ)
  | vled
  | backlight
deriving DecidableEq, Repr

/-- Which calls to the kernel work. -/
structure Outcomes where
  devmKzalloc : Bool
  gpioRequest : Line → Bool
  gpioDirectionOutput : Line → Bool

/-- The fields of `struct ldb_chan` the patch adds.  `vccGpios` is the memory
    behind the pointer. -/
structure LdbChan where
  vccNrGpios : ℕ
  vccGpios : ℕ → Gpio
  vccPowerupDelayMs : BitVec 32
  vccDownDelayMs : BitVec 32
  vledGpio : BitVec 32
  vledActiveLow : Bool
  vledPowerupDelayMs : BitVec 32
  vledPowerdownDelayMs : BitVec 32
  backlightGpio : BitVec 32
  backlightActiveLow : Bool
  backlightPowerupDelayMs : BitVec 32

/-- `struct ldb_chan`, filled with zeros. -/
def LdbChan.zero : LdbChan :=
  ⟨0, fun _ => ⟨0, 0⟩, 0, 0, 0, false, 0, 0, 0, false, 0⟩

/-- A channel, and the GPIOs that were requested and freed for it. -/
structure Probe where
  chan : LdbChan
  gpios : Ledger (BitVec 32)

/-! ## `lvds_power_gpio` -/

namespace Probe

variable (G : GpioNumbers) (np : LvdsChannel) (out : Outcomes)

/-- Entry `i` of `vcc_gpios`. -/
def setVcc (p : Probe) (i : ℕ) (g : Gpio) : Probe :=
  { p with chan := { p.chan with vccGpios := Function.update p.chan.vccGpios i g } }

/-- A round of the loop over `vcc-gpios`; an error is `goto err`. -/
def requestVcc (i : ℕ) (p : Probe) : Except Probe Probe :=
  if !G.gpioIsValid (np.vcc i).gpio then .ok p
  else if !out.gpioRequest (.vcc i) then .ok p
  else
    let p := { p with gpios := p.gpios.acquire (np.vcc i).gpio }.setVcc i (np.vcc i)
    if !out.gpioDirectionOutput (.vcc i) then .error p else .ok p

/-- The first `n` rounds of the loop. -/
def requestVccs : ℕ → Probe → Except Probe Probe
  | 0, p => .ok p
  | n + 1, p => do
    let p ← requestVccs n p
    p.requestVcc G np out n

/-- A round of the loop at `err`. -/
def freeVcc (i : ℕ) (p : Probe) : Probe :=
  if (p.chan.vccGpios i).gpio ≠ -1 then
    { p with gpios := p.gpios.release (p.chan.vccGpios i).gpio }.setVcc i
      { p.chan.vccGpios i with gpio := -1 }
  else p

/-- The first `n` rounds of the loop at `err`. -/
def freeVccs : ℕ → Probe → Probe
  | 0, p => p
  | n + 1, p => (freeVccs n p).freeVcc n

/-- From the label `err` on. -/
def err (p : Probe) : Probe :=
  let p := freeVccs p.chan.vccNrGpios p
  { p with chan := { p.chan with vccNrGpios := 0 } }

/-- From the label `err_vled` on. -/
def errVled (p : Probe) : Probe :=
  if G.gpioIsValid p.chan.vledGpio then
    err { chan := { p.chan with vledGpio := -1 }, gpios := p.gpios.release p.chan.vledGpio }
  else err p

/-- From the label `err_bl` on. -/
def errBl (p : Probe) : Probe :=
  errVled G
    { chan := { p.chan with backlightGpio := -1 }, gpios := p.gpios.release p.chan.backlightGpio }

/-- `lvds_power_gpio`, from `backlight-gpio` on. -/
def powerBacklight (p : Probe) : Probe :=
  let p := { p with chan := { p.chan with backlightGpio := np.backlight.gpio } }
  if !G.gpioIsValid p.chan.backlightGpio then errVled G p
  else
    let p := { p with chan := { p.chan with backlightActiveLow := activeLow np.backlight.flags } }
    if !out.gpioRequest .backlight then errVled G p
    else
      let p := { p with gpios := p.gpios.acquire p.chan.backlightGpio }
      if !out.gpioDirectionOutput .backlight then errBl G p
      else
        { p with chan := { p.chan with
            backlightPowerupDelayMs :=
              np.backlightPowerupDelayMs.getD p.chan.backlightPowerupDelayMs } }

/-- `lvds_power_gpio`, from `vled-gpio` on. -/
def powerVled (p : Probe) : Probe :=
  let p := { p with chan := { p.chan with vledGpio := np.vled.gpio } }
  if !G.gpioIsValid p.chan.vledGpio then powerBacklight G np out p
  else
    let p := { p with chan := { p.chan with vledActiveLow := activeLow np.vled.flags } }
    if !out.gpioRequest .vled then err p
    else
      let p := { p with gpios := p.gpios.acquire p.chan.vledGpio }
      if !out.gpioDirectionOutput .vled then errVled G p
      else
        powerBacklight G np out { p with chan := { p.chan with
          vledPowerupDelayMs := np.vledPowerupDelayMs.getD p.chan.vledPowerupDelayMs
          vledPowerdownDelayMs := np.vledPowerdownDelayMs.getD p.chan.vledPowerdownDelayMs } }

/-- `lvds_power_gpio`, from the loop over `vcc-gpios` on. -/
def powerVcc (p : Probe) : Probe :=
  match requestVccs G np out p.chan.vccNrGpios p with
  | .error p => err p
  | .ok p =>
    powerVled G np out { p with chan := { p.chan with
      vccPowerupDelayMs := np.vccPowerupDelayMs.getD p.chan.vccPowerupDelayMs
      vccDownDelayMs := np.vccDownDelayMs.getD p.chan.vccDownDelayMs } }

end Probe

/-- `lvds_power_gpio` -/
def lvdsPowerGpio (G : GpioNumbers) (np : LvdsChannel) (out : Outcomes) (chan : LdbChan) : Probe :=
  let chan := { chan with backlightGpio := -1 }
  if 0 ≥ np.vccCount then ⟨{ chan with vccNrGpios := 0 }, .empty⟩
  else if !out.devmKzalloc then ⟨{ chan with vccNrGpios := 0 }, .empty⟩
  else
    Probe.powerVcc G np out
      ⟨{ chan with vccNrGpios := np.vccCount.toNat, vccGpios := fun _ => ⟨-1, -1⟩ }, .empty⟩

/-! ## `ldb_enable` and `ldb_disable` -/

/-- The calls of the power sequences. -/
inductive PowerOp where
  | gpioSetValue (gpio : BitVec 32) (value : Bool)
  | mdelay (ms : BitVec 32)
  /-- the channel is switched on or off -/
  | regmapWrite
deriving DecidableEq, Repr

namespace LdbChan

variable (G : GpioNumbers) (chan : LdbChan)

/-- `gpio_set_value`, for a valid GPIO. -/
def setValue (gpio : BitVec 32) (value : Bool) : List PowerOp :=
  if G.gpioIsValid gpio then [.gpioSetValue gpio value] else []

/-- The loops over the VCC GPIOs; they are set to the active value if `on`. -/
def setVccs (on : Bool) : List PowerOp :=
  (List.range chan.vccNrGpios).flatMap fun i =>
    setValue G (chan.vccGpios i).gpio (activeLow (chan.vccGpios i).flags != on)

/-- The power sequence of `ldb_enable`. -/
def ldbEnable : List PowerOp :=
  chan.setVccs G true ++
    (if 0 < chan.vccNrGpios then [.mdelay chan.vccPowerupDelayMs] else []) ++
    [.regmapWrite] ++
    (if G.gpioIsValid chan.vledGpio then
      [.mdelay chan.vledPowerupDelayMs, .gpioSetValue chan.vledGpio (!chan.vledActiveLow)]
    else []) ++
    if G.gpioIsValid chan.backlightGpio then
      [.mdelay chan.backlightPowerupDelayMs,
        .gpioSetValue chan.backlightGpio (!chan.backlightActiveLow)]
    else []

/-- The power sequence of `ldb_disable`. -/
def ldbDisable : List PowerOp :=
  (if G.gpioIsValid chan.backlightGpio then
    [.gpioSetValue chan.backlightGpio chan.backlightActiveLow]
  else []) ++
    (if G.gpioIsValid chan.vledGpio then
      [.gpioSetValue chan.vledGpio chan.vledActiveLow, .mdelay chan.vledPowerdownDelayMs]
    else []) ++
    [.regmapWrite] ++
    chan.setVccs G false ++
    if 0 < chan.vccNrGpios then [.mdelay chan.vccDownDelayMs] else []

end LdbChan

/-- The GPIOs that are set. -/
def driven (ops : List PowerOp) : List (BitVec 32) :=
  ops.filterMap fun
    | .gpioSetValue gpio _ => some gpio
    | _ => none

end MetaHipos.Kernel
