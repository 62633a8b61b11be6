/-
  The GPIOs of the LVDS power sequence.

  `lvds_power_gpio` returns early, or at one of its labels, with numbers left in
  the channel that it does not own: `vled_gpio` is still zero, the number of a
  GPIO, or a GPIO whose request failed is kept.

  * `requestVccs_spec`, `err_owns`, `errVled_owns`: what the loops and the labels
    do to the GPIOs that are owned;
  * `lvds_power_owns_iff`: the channel owns exactly the GPIOs it will set if and
    only if none of these returns is taken.
-/
import Mathlib.Data.List.Range
import MetaHipos.Kernel.Ldb

namespace MetaHipos.Kernel

variable {G : GpioNumbers} {np : LvdsChannel} {out : Outcomes} {p p' : Probe}
  {rest : List (BitVec 32)}

theorem GpioNumbers.not_valid_minus_one (G : GpioNumbers) : G.gpioIsValid (-1) = false :=
  G.not_valid_neg _ rfl

/-! ## The GPIOs of a channel -/

/-- The GPIOs entered in the first `n` entries of `vcc_gpios`. -/
def vccHeld (f : ℕ → Gpio) : ℕ → List (BitVec 32)
  | 0 => []
  | n + 1 => vccHeld f n ++ if (f n).gpio ≠ -1 then [(f n).gpio] else []

/-- The GPIO, if it is one. -/
def ifValid (G : GpioNumbers) (gpio : BitVec 32) : List (BitVec 32) :=
  if G.gpioIsValid gpio then [gpio] else []

/-- The driver owns the GPIOs it will set, each requested and not freed; every
    other one it requested was freed once. -/
def Owns (G : GpioNumbers) (p : Probe) : Prop :=
  p.gpios.Accounts (driven (p.chan.ldbEnable G)) ∧
    p.gpios.Accounts (driven (p.chan.ldbDisable G))

section
variable {f : ℕ → Gpio} {n i : ℕ} {g : Gpio}

theorem vccHeld_congr {f' : ℕ → Gpio} (h : ∀ i < n, (f i).gpio = (f' i).gpio) :
    vccHeld f n = vccHeld f' n := by
  induction n with
  | zero => rfl
  | succ n ih =>
    simp only [vccHeld, h n (Nat.lt_succ_self n), ih fun i hi => h i (Nat.lt_succ_of_lt hi)]

/-- An entry is the one more that is held. -/
theorem vccHeld_update (hi : i < n) : (vccHeld (Function.update f i g) n).Perm
    ((if g.gpio ≠ -1 then [g.gpio] else []) ++
      vccHeld (Function.update f i { g with gpio := -1 }) n) := by
  induction n with
  | zero => exact absurd hi (Nat.not_lt_zero i)
  | succ n ih =>
    rcases Nat.lt_succ_iff_lt_or_eq.1 hi with hlt | rfl
    · have hne : n ≠ i := Nat.ne_of_gt hlt
      simp only [vccHeld, Function.update_of_ne hne, ← List.append_assoc]
      exact (ih hlt).append_right _
    · have hsame : ∀ g', vccHeld (Function.update f i g') i = vccHeld f i := fun g' =>
        vccHeld_congr fun j hj => by rw [Function.update_of_ne (Nat.ne_of_lt hj)]
      simp only [vccHeld, hsame, Function.update_self]
      simpa using List.perm_append_comm

theorem vccHeld_eq_nil (h : ∀ i < n, (f i).gpio = -1) : vccHeld f n = [] := by
  induction n with
  | zero => rfl
  | succ n ih =>
    simp [vccHeld, h n (Nat.lt_succ_self n), ih fun i hi => h i (Nat.lt_succ_of_lt hi)]

end

/-! ## The GPIOs that are set -/

section
variable {chan : LdbChan}

theorem driven_append (a b : List PowerOp) : driven (a ++ b) = driven a ++ driven b :=
  List.filterMap_append

/-- Calls for one GPIO that are made only if it is valid. -/
theorem driven_ifValid {gpio : BitVec 32} {ops : List PowerOp} (h : driven ops = [gpio]) :
    driven (if G.gpioIsValid gpio then ops else []) = ifValid G gpio := by
  unfold ifValid
  split
  · exact h
  · rfl

theorem driven_setVccs (on : Bool)
    (h : ∀ i, (chan.vccGpios i).gpio = -1 ∨ G.gpioIsValid (chan.vccGpios i).gpio = true) :
    driven (chan.setVccs G on) = vccHeld chan.vccGpios chan.vccNrGpios := by
  unfold LdbChan.setVccs
  generalize chan.vccNrGpios = n
  induction n with
  | zero => rfl
  | succ n ih =>
    rw [List.range_succ, List.flatMap_append, driven_append, ih, List.flatMap_singleton,
      LdbChan.setValue, driven_ifValid rfl, vccHeld, ifValid]
    rcases h n with h1 | hv
    · rw [h1, G.not_valid_minus_one, if_neg Bool.false_ne_true, if_neg (not_not_intro rfl)]
    · have hne : (chan.vccGpios n).gpio ≠ -1 := by
        intro h1
        rw [h1, G.not_valid_minus_one] at hv
        cases hv
      rw [if_pos hv, if_pos hne]

/-- Both sequences set the same GPIOs. -/
theorem driven_ldb
    (h : ∀ i, (chan.vccGpios i).gpio = -1 ∨ G.gpioIsValid (chan.vccGpios i).gpio = true) :
    driven (chan.ldbEnable G) = vccHeld chan.vccGpios chan.vccNrGpios ++
        ifValid G chan.vledGpio ++ ifValid G chan.backlightGpio ∧
      driven (chan.ldbDisable G) = ifValid G chan.backlightGpio ++ ifValid G chan.vledGpio ++
        vccHeld chan.vccGpios chan.vccNrGpios := by
  have hdelay : ∀ ms, driven (if 0 < chan.vccNrGpios then [.mdelay ms] else []) = [] := by
    intro ms
    split <;> rfl
  have hwrite : driven [.regmapWrite] = [] := rfl
  constructor
  · simp only [LdbChan.ldbEnable, driven_append, driven_setVccs _ h, hdelay, hwrite,
      List.append_nil]
    rw [driven_ifValid rfl, driven_ifValid rfl]
  · simp only [LdbChan.ldbDisable, driven_append, driven_setVccs _ h, hdelay, hwrite,
      List.append_nil]
    rw [driven_ifValid rfl, driven_ifValid rfl]

end

/-- The driver owns what it will set, as one collection. -/
theorem owns_iff
    (h : ∀ i, (p.chan.vccGpios i).gpio = -1 ∨ G.gpioIsValid (p.chan.vccGpios i).gpio = true) :
    Owns G p ↔ p.gpios.Accounts (vccHeld p.chan.vccGpios p.chan.vccNrGpios ++
      ifValid G p.chan.vledGpio ++ ifValid G p.chan.backlightGpio) := by
  obtain ⟨hen, hdis⟩ := driven_ldb h
  rw [Owns, hen, hdis]
  refine ⟨fun h => h.1, fun h => ⟨h, h.perm ?_⟩⟩
  refine List.perm_append_comm.trans ?_
  rw [List.append_assoc]
  exact List.perm_append_comm.append_left _

/-! ## Requests -/

/-- Entry `i` of `vcc-gpios` does not stop the loop. -/
def VccWorks (G : GpioNumbers) (np : LvdsChannel) (out : Outcomes) (i : ℕ) : Prop :=
  G.gpioIsValid (np.vcc i).gpio = true → out.gpioRequest (.vcc i) = true →
    out.gpioDirectionOutput (.vcc i) = true

/-- The channel before entry `i` of `n` is looked at: it owns what is entered. -/
structure Requested (G : GpioNumbers) (n i : ℕ) (p : Probe) : Prop where
  nr : p.chan.vccNrGpios = n
  entries : ∀ j, (p.chan.vccGpios j).gpio = -1 ∨ G.gpioIsValid (p.chan.vccGpios j).gpio = true
  fresh : ∀ j, i ≤ j → (p.chan.vccGpios j).gpio = -1
  accounts : p.gpios.Accounts (vccHeld p.chan.vccGpios n)
  vled : p.chan.vledGpio = 0
  backlight : p.chan.backlightGpio = -1

section
variable {n i : ℕ}

theorem Requested.enter (h : Requested G n i p) (hi : i < n) {g : Gpio}
    (hv : G.gpioIsValid g.gpio = true) :
    Requested G n (i + 1) ({ p with gpios := p.gpios.acquire g.gpio }.setVcc i g) where
  nr := h.nr
  entries j := by
    by_cases hj : j = i
    · subst hj
      right
      simpa [Probe.setVcc] using hv
    · simpa [Probe.setVcc, hj] using h.entries j
  fresh j hj := by
    have hne : j ≠ i := by omega
    simpa [Probe.setVcc, hne] using h.fresh j (by omega)
  accounts := by
    have hne : g.gpio ≠ -1 := by
      intro h1
      rw [h1, G.not_valid_minus_one] at hv
      cases hv
    have hsame : vccHeld p.chan.vccGpios n =
        vccHeld (Function.update p.chan.vccGpios i { g with gpio := -1 }) n := by
      refine vccHeld_congr fun j _ => ?_
      by_cases hj : j = i
      · subst hj
        rw [h.fresh j (Nat.le_refl j), Function.update_self]
      · rw [Function.update_of_ne hj]
    have hup := vccHeld_update (f := p.chan.vccGpios) (g := g) hi
    rw [if_pos hne, ← hsame] at hup
    exact (h.accounts.acquire g.gpio).perm hup.symm
  vled := h.vled
  backlight := h.backlight

theorem Requested.skip (h : Requested G n i p) : Requested G n (i + 1) p :=
  { h with fresh := fun j hj => h.fresh j (by omega) }

/-- A round of the loop. -/
theorem requestVcc_spec (np : LvdsChannel) (out : Outcomes) (h : Requested G n i p) (hi : i < n) :
    ∃ p', Requested G n (i + 1) p' ∧
      ((p.requestVcc G np out i = .ok p' ∧ VccWorks G np out i) ∨
        (p.requestVcc G np out i = .error p' ∧ ¬ VccWorks G np out i)) := by
  unfold Probe.requestVcc
  cases hv : G.gpioIsValid (np.vcc i).gpio with
  | false =>
    refine ⟨p, h.skip, Or.inl ⟨rfl, fun hv' => ?_⟩⟩
    rw [hv] at hv'
    cases hv'
  | true =>
    cases hr : out.gpioRequest (.vcc i) with
    | false =>
      refine ⟨p, h.skip, Or.inl ⟨rfl, fun _ hr' => ?_⟩⟩
      rw [hr] at hr'
      cases hr'
    | true =>
      refine ⟨_, h.enter hi hv, ?_⟩
      cases hd : out.gpioDirectionOutput (.vcc i) with
      | false => exact Or.inr ⟨rfl, fun hw => absurd (hw hv hr) (by simp [hd])⟩
      | true => exact Or.inl ⟨rfl, fun _ _ => hd⟩

/-- **The loop over `vcc-gpios`**: it ends if no entry stops it. -/
theorem requestVccs_spec (np : LvdsChannel) (out : Outcomes) (h : Requested G n 0 p) (hi : i ≤ n) :
    ∃ j p', Requested G n j p' ∧
      ((p.requestVccs G np out i = .ok p' ∧ j = i ∧ ∀ k < i, VccWorks G np out k) ∨
        (p.requestVccs G np out i = .error p' ∧ ∃ k < i, ¬ VccWorks G np out k)) := by
  induction i with
  | zero => exact ⟨0, p, h, Or.inl ⟨rfl, rfl, fun k hk => absurd hk (Nat.not_lt_zero k)⟩⟩
  | succ i ih =>
    obtain ⟨j, p₁, h₁, ⟨hok, rfl, hw⟩ | ⟨herr, k, hk, hnw⟩⟩ := ih (Nat.le_of_succ_le hi)
    · obtain ⟨p₂, h₂, hcase⟩ := requestVcc_spec np out h₁ hi
      have hround : p.requestVccs G np out (j + 1) = p₁.requestVcc G np out j := by
        simp only [Probe.requestVccs, hok, bind, Except.bind]
      refine ⟨j + 1, p₂, h₂, ?_⟩
      rw [hround]
      rcases hcase with ⟨hok₂, hwi⟩ | ⟨herr₂, hnwi⟩
      · refine Or.inl ⟨hok₂, rfl, fun k hk => ?_⟩
        rcases Nat.lt_succ_iff_lt_or_eq.1 hk with hk | rfl
        · exact hw k hk
        · exact hwi
      · exact Or.inr ⟨herr₂, j, Nat.lt_succ_self j, hnwi⟩
    · have herr' : p.requestVccs G np out (i + 1) = .error p₁ := by
        simp only [Probe.requestVccs, herr, bind, Except.bind]
      exact ⟨j, p₁, h₁, Or.inr ⟨herr', k, Nat.lt_succ_of_lt hk, hnw⟩⟩

end

/-! ## The error labels -/

section
variable {n : ℕ}

/-- After `i` rounds of the loop at `err`: the first `i` entries are freed. -/
structure Freed (p : Probe) (n i : ℕ) (rest : List (BitVec 32)) (p' : Probe) : Prop where
  accounts : p'.gpios.Accounts (vccHeld p'.chan.vccGpios n ++ rest)
  gpio : ∀ j, (p'.chan.vccGpios j).gpio = if j < i then -1 else (p.chan.vccGpios j).gpio
  vled : p'.chan.vledGpio = p.chan.vledGpio
  backlight : p'.chan.backlightGpio = p.chan.backlightGpio

theorem Freed.round {i : ℕ} (h : Freed p n i rest p') (hi : i < n) :
    Freed p n (i + 1) rest (p'.freeVcc i) := by
  have hgpio : ∀ j, (p'.chan.vccGpios j).gpio = -1 ∨ j ≠ i →
      (p'.chan.vccGpios j).gpio = if j < i + 1 then -1 else (p.chan.vccGpios j).gpio := by
    intro j hj
    have hold := h.gpio j
    by_cases hji : j = i
    · rw [if_pos (by omega)]
      exact hj.resolve_right (fun hne => hne hji)
    · rw [hold]
      have hiff : j < i ↔ j < i + 1 := by omega
      simp only [hiff]
  unfold Probe.freeVcc
  split
  · rename_i hne
    refine ⟨?_, fun j => ?_, h.vled, h.backlight⟩
    · have hup := vccHeld_update (f := p'.chan.vccGpios) (g := p'.chan.vccGpios i) hi
      rw [Function.update_eq_self, if_pos hne] at hup
      have hacc := h.accounts.perm (hup.append_right rest)
      exact hacc.release
    · by_cases hji : j = i
      · subst hji
        simp [Probe.setVcc]
      · rw [← hgpio j (Or.inr hji)]
        simp [Probe.setVcc, hji]
  · rename_i heq
    have h1 : (p'.chan.vccGpios i).gpio = -1 := Classical.not_not.1 heq
    refine ⟨h.accounts, fun j => hgpio j ?_, h.vled, h.backlight⟩
    by_cases hji : j = i
    · exact Or.inl (hji ▸ h1)
    · exact Or.inr hji

theorem freeVccs_spec {i : ℕ} (ha : p.gpios.Accounts (vccHeld p.chan.vccGpios n ++ rest))
    (hi : i ≤ n) : Freed p n i rest (p.freeVccs i) := by
  induction i with
  | zero => exact ⟨ha, fun j => by simp [Probe.freeVccs], rfl, rfl⟩
  | succ i ih => exact (ih (Nat.le_of_succ_le hi)).round hi

/-- A channel without VCC GPIOs that owns nothing. -/
structure Emptied (G : GpioNumbers) (p : Probe) : Prop where
  nr : p.chan.vccNrGpios = 0
  entries : ∀ j, (p.chan.vccGpios j).gpio = -1 ∨ G.gpioIsValid (p.chan.vccGpios j).gpio = true
  accounts : p.gpios.Accounts []

/-- The driver owns what it will set if there is nothing to set. -/
theorem Emptied.owns_iff (h : Emptied G p) :
    Owns G p ↔ G.gpioIsValid p.chan.vledGpio = false ∧
      G.gpioIsValid p.chan.backlightGpio = false := by
  rw [MetaHipos.Kernel.owns_iff h.entries, h.nr, h.accounts.iff_perm, List.nil_perm]
  unfold ifValid
  cases G.gpioIsValid p.chan.vledGpio <;> cases G.gpioIsValid p.chan.backlightGpio <;>
    simp [vccHeld]

/-- The channel owns the VCC GPIOs it has entered, and `rest`. -/
structure Owning (G : GpioNumbers) (rest : List (BitVec 32)) (p : Probe) : Prop where
  entries : ∀ j, (p.chan.vccGpios j).gpio = -1 ∨ G.gpioIsValid (p.chan.vccGpios j).gpio = true
  accounts : p.gpios.Accounts (rest ++ vccHeld p.chan.vccGpios p.chan.vccNrGpios)

/-- From the label `err` on: the VCC GPIOs are freed. -/
theorem err_owns (h : Owning G [] p) :
    Emptied G p.err ∧ p.err.chan.vledGpio = p.chan.vledGpio ∧
      p.err.chan.backlightGpio = p.chan.backlightGpio := by
  have hacc := h.accounts
  rw [List.nil_append, ← List.append_nil (vccHeld _ _)] at hacc
  have hF := freeVccs_spec hacc (Nat.le_refl _)
  refine ⟨⟨rfl, fun j => ?_, ?_⟩, hF.vled, hF.backlight⟩
  · have hj := hF.gpio j
    simp only [Probe.err]
    split at hj
    · exact Or.inl hj
    · rw [hj]
      exact h.entries j
  · have hnil := vccHeld_eq_nil fun i hi => by rw [hF.gpio i, if_pos hi]
    have hfreed := hF.accounts
    rw [hnil] at hfreed
    exact hfreed

/-- From the label `err_vled` on: the VLED GPIO is freed as well, if it is one. -/
theorem errVled_owns (h : Owning G (ifValid G p.chan.vledGpio) p) :
    Owns G (p.errVled G) ↔ G.gpioIsValid p.chan.backlightGpio = false := by
  have hacc := h.accounts
  unfold Probe.errVled
  split
  · rename_i hv
    rw [ifValid, if_pos hv] at hacc
    obtain ⟨hE, hvled, hbl⟩ := err_owns (G := G)
      (p := { chan := { p.chan with vledGpio := -1 }, gpios := p.gpios.release p.chan.vledGpio })
      ⟨h.entries, hacc.release⟩
    rw [hE.owns_iff, hvled, hbl]
    exact and_iff_right G.not_valid_minus_one
  · rename_i hv
    rw [ifValid, if_neg hv] at hacc
    obtain ⟨hE, hvled, hbl⟩ := err_owns (G := G) ⟨h.entries, hacc⟩
    rw [hE.owns_iff, hvled, hbl]
    exact and_iff_right (Bool.eq_false_iff.2 hv)

end

/-! ## The whole sequence -/

/-- From `backlight-gpio` on: a GPIO whose request fails is kept. -/
theorem powerBacklight_owns (h : Owning G (ifValid G p.chan.vledGpio) p) :
    Owns G (p.powerBacklight G np out) ↔
      (G.gpioIsValid np.backlight.gpio = true → out.gpioRequest .backlight = true) := by
  unfold Probe.powerBacklight
  cases hv : G.gpioIsValid np.backlight.gpio with
  | false =>
    simp only [hv, Bool.not_false, if_true]
    refine Iff.trans (errVled_owns ⟨h.entries, h.accounts⟩) ?_
    simp [hv]
  | true =>
    simp only [hv, Bool.not_true, Bool.false_eq_true, if_false]
    cases hr : out.gpioRequest .backlight with
    | false =>
      simp only [Bool.not_false, if_true]
      refine Iff.trans (errVled_owns ⟨h.entries, h.accounts⟩) ?_
      simp [hv]
    | true =>
      have hacc := h.accounts.acquire np.backlight.gpio
      simp only [Bool.not_true, Bool.false_eq_true, if_false]
      cases hd : out.gpioDirectionOutput .backlight with
      | false =>
        simp only [Bool.not_false, if_true, Probe.errBl]
        refine Iff.trans (errVled_owns ⟨h.entries, hacc.release⟩) ?_
        simp only [G.not_valid_minus_one, implies_true]
      | true =>
        simp only [Bool.not_true, Bool.false_eq_true, if_false]
        refine iff_of_true ((owns_iff ?_).2 ?_) (fun _ => trivial)
        · exact h.entries
        refine Ledger.Accounts.perm hacc ?_
        simp only [ifValid, hv, if_true]
        exact (List.perm_append_comm.cons _).trans (List.perm_append_singleton _ _).symm

/-- The VLED GPIO is not kept without its request, nor is the backlight's. -/
def RestWorks (G : GpioNumbers) (np : LvdsChannel) (out : Outcomes) : Prop :=
  (G.gpioIsValid np.vled.gpio = true → out.gpioRequest .vled = true) ∧
    ((G.gpioIsValid np.vled.gpio = true → out.gpioDirectionOutput .vled = true) →
      G.gpioIsValid np.backlight.gpio = true → out.gpioRequest .backlight = true)

/-- From `vled-gpio` on: a GPIO whose request fails is kept. -/
theorem powerVled_owns (h : Owning G [] p) (hbl : p.chan.backlightGpio = -1) :
    Owns G (p.powerVled G np out) ↔ RestWorks G np out := by
  unfold Probe.powerVled RestWorks
  cases hv : G.gpioIsValid np.vled.gpio with
  | false =>
    simp only [hv, Bool.not_false, if_true]
    have hnil : ifValid G np.vled.gpio = [] := by simp [ifValid, hv]
    refine Iff.trans (powerBacklight_owns ⟨h.entries, ?_⟩) ?_
    · simp only [hnil]
      exact h.accounts
    · simp
  | true =>
    have hone : ifValid G np.vled.gpio = [np.vled.gpio] := by simp [ifValid, hv]
    simp only [hv, Bool.not_true, Bool.false_eq_true, if_false]
    cases hr : out.gpioRequest .vled with
    | false =>
      simp only [Bool.not_false, if_true]
      obtain ⟨hE, hvled, -⟩ := err_owns (G := G)
        (p := { p with chan := { p.chan with
          vledGpio := np.vled.gpio, vledActiveLow := activeLow np.vled.flags } })
        ⟨h.entries, h.accounts⟩
      refine iff_of_false (fun hO => ?_) (fun hc => by simpa using hc.1)
      have hno := (hE.owns_iff.1 hO).1
      rw [hvled] at hno
      exact absurd hno (by simp [hv])
    | true =>
      have hacc := h.accounts.acquire np.vled.gpio
      simp only [Bool.not_true, Bool.false_eq_true, if_false]
      cases hd : out.gpioDirectionOutput .vled with
      | false =>
        simp only [Bool.not_false, if_true]
        refine Iff.trans (errVled_owns ⟨h.entries, ?_⟩) (iff_of_true ?_ (by simp))
        · simp only [hone]
          exact hacc
        · simp only [hbl]
          exact G.not_valid_minus_one
      | true =>
        simp only [Bool.not_true, Bool.false_eq_true, if_false]
        refine Iff.trans (powerBacklight_owns ⟨h.entries, ?_⟩) (by simp)
        simp only [hone]
        exact hacc

/-- Neither of the early returns is taken, and no VCC GPIO stops the loop. -/
def VccsWork (G : GpioNumbers) (np : LvdsChannel) (out : Outcomes) : Prop :=
  0 < np.vccCount ∧ out.devmKzalloc = true ∧ ∀ i < np.vccCount.toNat, VccWorks G np out i

/-- A return that leaves `vled_gpio` zero. -/
theorem not_owns_of_zero (h : Emptied G p) (hz : p.chan.vledGpio = 0) : ¬ Owns G p := by
  intro hO
  have hno := (h.owns_iff.1 hO).1
  rw [hz, G.valid_zero] at hno
  cases hno

/-- **The driver owns exactly the GPIOs it will set if and only if there are VCC
    GPIOs, memory for them, no VCC GPIO whose direction cannot be set, and no
    other GPIO whose request fails.** -/
theorem lvds_power_owns_iff (G : GpioNumbers) (np : LvdsChannel) (out : Outcomes) :
    Owns G (lvdsPowerGpio G np out .zero) ↔ VccsWork G np out ∧ RestWorks G np out := by
  have hempty : ∀ chan : LdbChan, chan.vccNrGpios = 0 → chan.vccGpios = (fun _ => ⟨0, 0⟩) →
      Emptied G ⟨chan, .empty⟩ := by
    intro chan hn hg
    refine ⟨hn, fun j => Or.inr ?_, Ledger.accounts_empty⟩
    simp only [hg]
    exact G.valid_zero
  unfold lvdsPowerGpio
  split
  · rename_i hc
    refine iff_of_false (not_owns_of_zero (hempty _ rfl rfl) rfl) (fun h => ?_)
    have hpos := h.1.1
    omega
  · rename_i hc
    split
    · rename_i hm
      refine iff_of_false (not_owns_of_zero (hempty _ rfl rfl) rfl) (fun h => ?_)
      have hmem := h.1.2.1
      simp [hmem] at hm
    · rename_i hm
      have hR : Requested G np.vccCount.toNat 0 ⟨{ LdbChan.zero with
          backlightGpio := -1, vccNrGpios := np.vccCount.toNat, vccGpios := fun _ => ⟨-1, -1⟩ },
          .empty⟩ :=
        ⟨rfl, fun _ => Or.inl rfl, fun _ _ => rfl, by
          rw [vccHeld_eq_nil fun _ _ => rfl]
          exact Ledger.accounts_empty, rfl, rfl⟩
      obtain ⟨j, p', hR', hcase⟩ := requestVccs_spec np out hR (Nat.le_refl _)
      have hO : Owning G [] p' := ⟨hR'.entries, by rw [hR'.nr]; exact hR'.accounts⟩
      unfold Probe.powerVcc
      rcases hcase with ⟨hok, -, hw⟩ | ⟨herr, k, hk, hnw⟩
      · simp only [hok]
        refine Iff.trans (powerVled_owns ⟨hO.entries, hO.accounts⟩ hR'.backlight) ?_
        rw [and_iff_right]
        exact ⟨by omega, by simpa using hm, hw⟩
      · simp only [herr]
        obtain ⟨hE, hvled, -⟩ := err_owns hO
        refine iff_of_false (not_owns_of_zero hE (hvled.trans hR'.vled)) (fun h => ?_)
        exact hnw (h.1.2.2 k hk)

/-- The numbers that are not negative. -/
def nonnegative : GpioNumbers where
  gpioIsValid n := !n.msb
  valid_zero := rfl
  not_valid_neg n hn := by simp [hn]

/-- A channel without a power sequence. -/
def noSequence : LvdsChannel :=
  ⟨-2, fun _ => ⟨-2, 0⟩, ⟨-2, 0⟩, ⟨-2, 0⟩, none, none, none, none, none⟩

/-- GPIO 0 is set for a channel without a power sequence. -/
theorem lvds_power_not_owns :
    ¬ ∀ G np out, Owns G (lvdsPowerGpio G np out .zero) := by
  intro h
  have hO := h nonnegative noSequence ⟨true, fun _ => true, fun _ => true⟩
  exact absurd (List.nil_perm.1 hO.1) (by decide)

end MetaHipos.Kernel
