/-
  The commands that change the config.

  * `Request.Satisfied`: the current config says what was requested, and
    `satisfied_congr`: which configs make no difference to that;
  * `main_eq`: what `main` makes of their arguments;
  * `mainRun_eq`: their runs.
-/
import MetaHipos.Bootconfig.Current
import MetaHipos.Bootconfig.Main

namespace MetaHipos

open LittleEndian Process

/-! ## Requests -/

/-- The commands that change the config. -/
inductive Request where
  | set (which : BtLlParttype) (p : BitVec 1)
  | healthy (which : BtLlParttype)

namespace Request

/-- The arguments of the command. -/
def argv : Request → List String
  | .set .kernel p => ["set-kernel", if p = 0 then "mtd2" else "mtd3"]
  | .set .rootfs p => ["set-rootfs", if p = 0 then "mtd4" else "mtd5"]
  | .healthy .kernel => ["set-kernel-healthy"]
  | .healthy .rootfs => ["set-rootfs-healthy"]

/-- The config says what was requested. -/
def On : Request → Btblock → Prop
  | .set which p, b => (b.info which).partition = p
  | .healthy which, b => (b.info which).nHealthy = 0

instance : (req : Request) → (b : Btblock) → Decidable (req.On b)
  | .set .., _ => inferInstanceAs (Decidable (_ = _))
  | .healthy _, _ => inferInstanceAs (Decidable (_ = _))

/-- The current config of the blocks says what was requested. -/
def Satisfied (req : Request) (blocks : ℕ → Btblock) (n : ℕ) : Prop :=
  ∃ c, currentIdx blocks n = some c ∧ req.On (blocks c)

end Request

/-! ## What the flash shows -/

/-- The headers on flash. -/
def hdrs (flash : ℕ → Page) (i : ℕ) : Btblock := (flash i).hdr

/-- The configs that count: those in blocks that are not bad. -/
def seen (bad : ℕ → Bool) (blocks : ℕ → Btblock) (i : ℕ) : Btblock :=
  if bad i then .zero else blocks i

/-- Two configs that make no difference to `bc_ll_get_current` and to what may
    be requested. -/
structure Shows (b b' : Btblock) : Prop where
  version : b.version = b'.version
  info : b.version ≠ none → ∀ which, b.info which = b'.info which

section
variable {b b' : Btblock} {blocks blocks' : ℕ → Btblock} {n : ℕ}

theorem Shows.refl (b : Btblock) : Shows b b := ⟨rfl, fun _ _ => rfl⟩

theorem Shows.of_not_boot (h : b.magic ≠ .boot) : Shows b .zero where
  version := (Btblock.version_of_not_boot h).trans Btblock.version_zero.symm
  info hv := absurd (Btblock.version_of_not_boot h) hv

/-- Updates differ in their time only. -/
theorem Shows.updated (old : Btblock) (which : BtLlParttype) (p : ℕ) (now : BitVec 32) :
    Shows (updated old which p now) (updated old which p 0) where
  version := by cases which <;> exact Btblock.version_congr rfl rfl
  info _ which' := by cases which <;> cases which' <;> rfl

theorem Shows.seen {bad : ℕ → Bool} {i : ℕ} (h : Shows (blocks i) (blocks' i)) :
    Shows (seen bad blocks i) (seen bad blocks' i) := by
  unfold MetaHipos.seen
  split_ifs
  · exact .refl _
  · exact h

theorem Request.on_congr (req : Request) (h : ∀ which, b.info which = b'.info which) :
    req.On b ↔ req.On b' := by
  cases req <;> simp only [Request.On, h]

/-- What is requested is seen in both or in none. -/
theorem satisfied_congr (req : Request) (bad : ℕ → Bool)
    (h : ∀ i < n, Shows (blocks i) (blocks' i)) :
    req.Satisfied (seen bad blocks) n ↔ req.Satisfied (seen bad blocks') n := by
  have hcur : currentIdx (seen bad blocks) n = currentIdx (seen bad blocks') n :=
    currentIdx_of_versions fun j hj => ((h j hj).seen).version
  rw [Request.Satisfied, Request.Satisfied, hcur]
  refine exists_congr fun c => and_congr_right fun hc => req.on_congr ?_
  rw [← hcur] at hc
  have hnew := currentIdx_eq_some.1 hc
  refine ((h c hnew.lt).seen).info fun hnone => ?_
  have := hnew.key_eq
  rw [versions, hnone] at this
  cases this

end

/-! ## The command -/

/-- What `main` does after `bc_ll_init`. -/
def Request.body (tgt : Target) (bc : Bootconfig) : Request → Mtd ℤ
  | .set which p => do
    let (_, bc) ← bcLlSetPartition tgt bc which p.toNat
    let (_, bc) ← bcLlReread tgt bc
    printConfig bc
    .stop (.exit 0)
  | .healthy which => do
    let bc ← mainSetHealthyOf which bc
    printConfig bc
    .stop (.exit 0)

theorem sscanfMtd_digit (tgt : Target) :
    sscanfMtd tgt "mtd2" = some 2 ∧ sscanfMtd tgt "mtd3" = some 3 ∧
      sscanfMtd tgt "mtd4" = some 4 ∧ sscanfMtd tgt "mtd5" = some 5 := by
  rcases tgt with ⟨_, rfl | rfl⟩ <;> decide

/-- `_set` with an argument that is scanned as the partition `p`. -/
theorem mainSet_eq {tgt : Target} {arg : String} {partMod : ℤ} {part : BitVec 32} {p : BitVec 1}
    (which : BtLlParttype) (bc : Bootconfig) (harg : sscanfMtd tgt arg = some part)
    (hpart : part + BitVec.ofInt 32 partMod = p.setWidth 32) :
    mainSet tgt bc arg partMod which = (Request.set which p).body tgt bc := by
  have hp : ∀ p : BitVec 1, ¬ (1 : BitVec 32) < p.setWidth 32 ∧
      (p.setWidth 32).toNat = p.toNat := by decide
  rw [mainSet, harg]
  simp only [hpart, (hp p).1, if_false, (hp p).2]
  rfl

/-- `main` obeys the request. -/
theorem main_eq (tgt : Target) (req : Request) :
    main tgt req.argv = bcLlInit false "/dev/mtd1" >>= fun bc => req.body tgt bc := by
  obtain ⟨h2, h3, h4, h5⟩ := sscanfMtd_digit tgt
  have hbit : ∀ p : BitVec 1, p = 0 ∨ p = 1 := by decide
  rcases req with ⟨_ | _, p⟩ | (_ | _)
  · rcases hbit p with rfl | rfl
    · exact congrArg _ (funext fun bc => mainSet_eq .kernel bc h2 (by decide))
    · exact congrArg _ (funext fun bc => mainSet_eq .kernel bc h3 (by decide))
  · rcases hbit p with rfl | rfl
    · exact congrArg _ (funext fun bc => mainSet_eq .rootfs bc h4 (by decide))
    · exact congrArg _ (funext fun bc => mainSet_eq .rootfs bc h5 (by decide))
  · rfl
  · rfl

/-! ## Runs -/

section
variable (tgt : Target) (req : Request) (flash : ℕ → Page) (ω : Oracle Resp)

/-- The run of `bc_ll_init`. -/
def initRun : End Stop Bootconfig × World × Oracle Resp :=
  exec mtd (bcLlInit false "/dev/mtd1") ⟨flash, []⟩ ω

/-- The run of the command. -/
def mainRun : End Stop ℤ × World × Oracle Resp := exec mtd (main tgt req.argv) ⟨flash, []⟩ ω

/-- The command is a run of `bc_ll_init` and, if that returns, of the rest. -/
theorem mainRun_eq : mainRun tgt req flash ω = match initRun flash ω with
    | (.done bc, w, ω') => exec mtd (req.body tgt bc) w ω'
    | (.stopped e, w, ω') => (.stopped e, w, ω') := by
  rw [mainRun, main_eq, exec_bind, initRun]
  generalize exec mtd (bcLlInit false "/dev/mtd1") ⟨flash, []⟩ ω = x
  obtain ⟨_ | _, _, _⟩ := x <;> rfl

end

end MetaHipos
