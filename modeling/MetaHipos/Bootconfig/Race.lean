/-
  Two processes that set a partition at the same time, on one flash.

  One process sets the kernel, the other one the root file system.  There is no
  lock: each of them reads all blocks, and then erases and writes one of them.
  Which block that is depends on what it has seen of the block `t`, the first
  one after the current block.

  * `Shared`, `sharedMtd`: the flash and the calls of both processes;
  * `Phase`, `phase`: how far a process is, and what it has seen;
  * `Race`, `Joint`: the flash in all combinations of phases;
  * `Racing.read`, `Racing.erase`, `Racing.write`: what one process does.
-/
import MetaHipos.Process.Parallel
import MetaHipos.Bootconfig.SetFine

namespace MetaHipos

open LittleEndian Process Newest

/-! ## The shared flash -/

/-- The flash, and the calls of both processes, the latest first.  A process is
    named after the image it sets. -/
structure Shared where
  flash : ℕ → Page
  log : List (BtLlParttype × Event)

/-- The device as the process `who` reaches it. -/
def sharedMtd (who : BtLlParttype) : Env Op Ans Resp Shared where
  reply o r s := mtd.reply o r ⟨s.flash, []⟩
  next o r s := ⟨flashAfter s.flash o r, (who, ⟨o, r⟩) :: s.log⟩

/-- The call writes a block. -/
def Op.isWrite : Op → Bool
  | .mtdWrite .. => true
  | _ => false

section
variable (t : ℕ) (who : BtLlParttype) (log : List (BtLlParttype × Event))

/-- The process has written. -/
def wrote : Bool := log.any fun e => e.1 == who && e.2.1.isWrite

/-- The process has erased or written. -/
def touched : Bool := log.any fun e => e.1 == who && e.2.1.target.isSome

/-- The process has read the block `t`. -/
def hasRead : Bool := log.any fun e => e.1 == who && e.2.1 == .mtdRead t

/-- The process has read the block `t` after the other one had written, and
    before it erased a block itself. -/
def informed : List (BtLlParttype × Event) → Bool
  | [] => false
  | e :: log => informed log ||
      (e.1 == who && e.2.1 == .mtdRead t && wrote who.other log && !touched who log)

/-! ## Phases -/

/-- How far a process is.  `stale` and `informed`: it has read the block `t`
    before or after the other process wrote; `cleared` and `finished` are the
    phases of a process that was `informed`. -/
inductive Phase where
  | start
  | stale
  | informed
  | erased
  | cleared
  | written
  | finished
deriving DecidableEq, Repr

def phase : Phase :=
  if wrote who log then if informed t who log then .finished else .written
  else if touched who log then if informed t who log then .cleared else .erased
  else if informed t who log then .informed
  else if hasRead t who log then .stale else .start

end

/-- The process has not erased a block so far, and not seen the other one. -/
def Phase.Early (φ : Phase) : Prop := φ = .start ∨ φ = .stale

/-- The process has written its block. -/
def Phase.Over (φ : Phase) : Prop := φ = .written ∨ φ = .finished

section
variable {t : ℕ} {who w : BtLlParttype} {log : List (BtLlParttype × Event)} {o : Op} {r : Resp o}

theorem other_ne (who : BtLlParttype) : who.other ≠ who := by
  cases who <;> simp [BtLlParttype.other]

theorem eq_other_of_ne (h : w ≠ who) : w = who.other := by
  cases w <;> cases who <;> simp_all [BtLlParttype.other]

section
variable (t : ℕ) (who w : BtLlParttype) (e : Event) (log : List (BtLlParttype × Event))

theorem wrote_cons : wrote who ((w, e) :: log) = (w == who && e.1.isWrite || wrote who log) := rfl

theorem touched_cons :
    touched who ((w, e) :: log) = (w == who && e.1.target.isSome || touched who log) := rfl

theorem hasRead_cons :
    hasRead t who ((w, e) :: log) = (w == who && e.1 == .mtdRead t || hasRead t who log) := rfl

theorem informed_cons : informed t who ((w, e) :: log) = (informed t who log ||
    (w == who && e.1 == .mtdRead t && wrote who.other log && !touched who log)) := rfl

end

@[simp] theorem other_other (who : BtLlParttype) : who.other.other = who := by cases who <;> rfl

/-- The calls of one process do not change the phase of the other one. -/
theorem phase_of_ne (h : w ≠ who) : phase t w ((who, ⟨o, r⟩) :: log) = phase t w log := by
  have hb : (who == w) = false := by simpa using Ne.symm h
  simp only [phase, wrote_cons, touched_cons, hasRead_cons, informed_cons, hb, Bool.false_and,
    Bool.false_or, Bool.or_false]

/-- The phases after a call, where only the process `who` has moved. -/
theorem phase_eq_update {φ : Phase} (h : phase t who ((who, ⟨o, r⟩) :: log) = φ) :
    (fun w => phase t w ((who, ⟨o, r⟩) :: log)) =
      Function.update (fun w => phase t w log) who φ := by
  funext w
  by_cases hw : w = who
  · subst hw; rw [Function.update_self, h]
  · rw [Function.update_of_ne hw, phase_of_ne hw]

theorem isWrite_of_target (h : o.target = none) : o.isWrite = false := by
  cases o <;> first | rfl | cases h

theorem wrote_iff_over : wrote who log = true ↔ (phase t who log).Over := by
  unfold phase Phase.Over
  split_ifs <;> simp_all

theorem touched_of_wrote (h : wrote who log = true) : touched who log = true := by
  simp only [wrote, touched, List.any_eq_true, Bool.and_eq_true] at h ⊢
  obtain ⟨⟨w, o, r⟩, he, hwho, hwr⟩ := h
  exact ⟨_, he, hwho, by cases o <;> first | rfl | cases hwr⟩

/-- Calls that leave the flash alone do not change the phase, but for the first
    one that reads the block `t`. -/
theorem phase_calm (ho : o.target = none) (h : o ≠ .mtdRead t ∨ (phase t who log).Over) :
    phase t who ((who, ⟨o, r⟩) :: log) = phase t who log := by
  have hw := isWrite_of_target ho
  rcases h with h | h
  · have hb : (o == .mtdRead t) = false := by simpa using h
    simp only [phase, wrote_cons, touched_cons, hasRead_cons, informed_cons, hw, ho, hb,
      Option.isSome_none, Bool.and_false, Bool.false_and, Bool.false_or, Bool.or_false]
  · have hwrote := wrote_iff_over.2 h
    have htouched := touched_of_wrote hwrote
    simp only [phase, wrote_cons, informed_cons, hwrote, htouched, Bool.or_true, Bool.not_true,
      Bool.and_false, Bool.or_false, if_true]

/-- Reading the block `t` for the first time. -/
theorem phase_read {e : ℤ} (h : phase t who log = .start) :
    phase t who ((who, ⟨.mtdRead t, e⟩) :: log) =
      if wrote who.other log then .informed else .stale := by
  unfold phase at h
  split_ifs at h with h1 h2 h3 h4 h5 h6
  simp only [Bool.not_eq_true] at h1 h3 h5
  cases hw : wrote who.other log <;>
    simp [phase, wrote_cons, touched_cons, hasRead_cons, informed_cons, Op.isWrite, Op.target,
      h1, h3, h5, hw]

theorem phase_erase {b : ℕ} {e : Outcome} :
    (phase t who log = .stale → phase t who ((who, ⟨.mtdErase b, e⟩) :: log) = .erased) ∧
    (phase t who log = .informed → phase t who ((who, ⟨.mtdErase b, e⟩) :: log) = .cleared) := by
  have hop : (Op.mtdErase b == .mtdRead t) = false := rfl
  simp only [phase, wrote_cons, touched_cons, informed_cons, Op.isWrite, Op.target, hop,
    Option.isSome_some, Bool.and_false, Bool.false_and, Bool.false_or, Bool.or_false,
    beq_self_eq_true, Bool.true_and, Bool.true_or, if_true]
  constructor
  · intro h
    split_ifs at h ⊢
    rfl
  · intro h
    split_ifs at h ⊢
    rfl

theorem phase_write {b : ℕ} (pg : List Byte) {e : Outcome} :
    (phase t who log = .erased → phase t who ((who, ⟨.mtdWrite b pg, e⟩) :: log) = .written) ∧
    (phase t who log = .cleared → phase t who ((who, ⟨.mtdWrite b pg, e⟩) :: log) = .finished) := by
  have hop : (Op.mtdWrite b pg == .mtdRead t) = false := rfl
  simp only [phase, wrote_cons, touched_cons, informed_cons, Op.isWrite, Op.target, hop,
    Option.isSome_some, Bool.and_false, Bool.false_and, Bool.or_false, beq_self_eq_true,
    Bool.true_and, Bool.true_or, if_true]
  constructor
  · intro h
    split_ifs at h ⊢
    rfl
  · intro h
    split_ifs at h ⊢
    rfl

end

/-! ## The race -/

/-- The first position after `c` on the ring for which `good` holds. -/
def FirstAfter (good : ℕ → Prop) (n c i : ℕ) : Prop :=
  ∃ pre post, Ring.ring n c = pre ++ i :: post ∧ good i ∧ ∀ j ∈ pre, ¬ good j

/-- There is one if any other position is good. -/
theorem exists_firstAfter {good : ℕ → Prop} {n c j : ℕ} (hc : c < n) (hj : j < n) (hjc : j ≠ c)
    (hg : good j) : ∃ i, FirstAfter good n c i := by
  classical
  have hex : ∃ x ∈ Ring.ring n c, decide (good x) = true :=
    ⟨j, (Ring.mem_ring hc).2 ⟨hj, hjc⟩, by simpa using hg⟩
  obtain ⟨i, hi⟩ := Option.isSome_iff_exists.1 (List.find?_isSome.2 hex)
  obtain ⟨hgi, pre, post, hsplit, hpre⟩ := List.find?_eq_some_iff_append.1 hi
  exact ⟨i, pre, post, hsplit, by simpa using hgi, fun j hj => by simpa using hpre j hj⟩

theorem FirstAfter.mem {good : ℕ → Prop} {n c i : ℕ} (h : FirstAfter good n c i) (hc : c < n) :
    i < n ∧ i ≠ c ∧ good i := by
  obtain ⟨pre, post, hsplit, hg, -⟩ := h
  have hi : i ∈ Ring.ring n c := by rw [hsplit]; simp
  exact ⟨((Ring.mem_ring hc).1 hi).1, ((Ring.mem_ring hc).1 hi).2, hg⟩

/-- The block is neither bad nor marked as bad. -/
def Good (bad : ℕ → Bool) (flash : ℕ → Page) (i : ℕ) : Prop :=
  bad i = false ∧ (flash i).hdr.magic ≠ .bad

/-- Two updates of one flash: its bad blocks, the partitions to be set, the
    current block `c`, and the first good blocks `t` and `u` after `c` and
    after `t`. -/
structure Race where
  bad : ℕ → Bool
  info : MtdDevInfo
  flash : ℕ → Page
  part : BtLlParttype → BitVec 1
  c : ℕ
  t : ℕ
  u : ℕ
  io : Btblock.size ≤ info.minIoSize
  current : currentIdx (Bootconfig.ofFlash bad info flash).blocks info.ebCnt = some c
  epoch : (flash c).hdr.epoch.toNat + 2 < 2 ^ 32
  next : FirstAfter (Good bad flash) info.ebCnt c t
  next' : FirstAfter (Good bad flash) info.ebCnt t u

namespace Race

variable (R : Race)

/-- The current config. -/
def old : Btblock := (R.flash R.c).hdr

/-- The config a process makes from the current one at the time `now`. -/
def update (who : BtLlParttype) (now : BitVec 32) : Btblock :=
  updated R.old who (R.part who).toNat now

/-- The config it makes from the one of the other process. -/
def update' (who : BtLlParttype) (now now' : BitVec 32) : Btblock :=
  updated (R.update who.other now) who (R.part who).toNat now'

/-- An erased block after the config `b` was written. -/
def page (b : Btblock) : Page := Page.erased.program (pageOf R.info.minIoSize b)

/-- The flash with another content of the block `t`. -/
def withT (pg : Page) : ℕ → Page := Function.update R.flash R.t pg

end Race

/-- **The flash in the course of a race**, for the phases of the process `w` and
    of the other one. -/
inductive Joint (R : Race) (w : BtLlParttype) : Phase → Phase → (ℕ → Page) → Prop
  | untouched {ψ ψ' : Phase} : ψ.Early → ψ'.Early → Joint R w ψ ψ' R.flash
  | erased {ψ' : Phase} : ψ'.Early → Joint R w .erased ψ' (R.withT .erased)
  | written {ψ' : Phase} (now : BitVec 32) : ψ'.Early →
      Joint R w .written ψ' (R.withT (R.page (R.update w now)))
  | bothErased : Joint R w .erased .erased (R.withT .erased)
  | oneWritten (now : BitVec 32) (pg : Page) : (pg = .erased ∨ pg = R.page (R.update w now)) →
      Joint R w .written .erased (R.withT pg)
  | bothWritten (now now' : BitVec 32) (pg : Page) : (pg = R.page (R.update w now) ∨
      pg = (R.page (R.update w now)).program
        (pageOf R.info.minIoSize (R.update w.other now'))) →
      Joint R w .written .written (R.withT pg)
  | informed (now : BitVec 32) :
      Joint R w .informed .written (R.withT (R.page (R.update w.other now)))
  | cleared (now : BitVec 32) :
      Joint R w .cleared .written
        (Function.update (R.withT (R.page (R.update w.other now))) R.u .erased)
  | finished (now now' now'' : BitVec 32) :
      Joint R w .finished .written
        (Function.update (R.withT (R.page (R.update w.other now))) R.u
          (R.page (R.update' w now' now'')))

/-- The state of a race, where the process `w` is in the phase `φ w`. -/
def Racing (R : Race) (φ : BtLlParttype → Phase) (flash : ℕ → Page) : Prop :=
  ∃ w, Joint R w (φ w) (φ w.other) flash

section
variable {R : Race} {φ : BtLlParttype → Phase} {flash : ℕ → Page} {who : BtLlParttype} {ψ : Phase}

theorem not_early : ¬ Phase.Early .erased ∧ ¬ Phase.Early .written ∧ ¬ Phase.Early .informed ∧
    ¬ Phase.Early .cleared ∧ ¬ Phase.Early .finished := by
  simp [Phase.Early]

/-- One of the processes moves on. -/
theorem Racing.of_self {flash' : ℕ → Page} (h : Joint R who ψ (φ who.other) flash') :
    Racing R (Function.update φ who ψ) flash' :=
  ⟨who, by rwa [Function.update_self, Function.update_of_ne (other_ne who)]⟩

theorem Racing.of_other {flash' : ℕ → Page} (h : Joint R who.other (φ who.other) ψ flash') :
    Racing R (Function.update φ who ψ) flash' :=
  ⟨who.other, by rwa [other_other, Function.update_self, Function.update_of_ne (other_ne who)]⟩

/-! ### What a process knows -/

/-- A process that has erased nothing and has not seen the other one. -/
theorem Racing.early (h : Racing R φ flash) (hφ : (φ who).Early) :
    (flash = R.flash ∧ (φ who.other).Early) ∨
    (flash = R.withT .erased ∧ φ who.other = .erased) ∨
    ∃ now, flash = R.withT (R.page (R.update who.other now)) ∧ φ who.other = .written := by
  obtain ⟨h1, h2, h3, h4, h5⟩ := not_early
  obtain ⟨w, h⟩ := h
  rcases eq_or_ne w who with rfl | hne
  · generalize φ w = ψ at h hφ
    generalize φ w.other = ψ' at h ⊢
    cases h with
    | untouched _ h => exact Or.inl ⟨rfl, h⟩
    | erased _ => exact absurd hφ h1
    | written _ _ => exact absurd hφ h2
    | bothErased => exact absurd hφ h1
    | oneWritten _ _ _ => exact absurd hφ h2
    | bothWritten _ _ _ _ => exact absurd hφ h2
    | informed _ => exact absurd hφ h3
    | cleared _ => exact absurd hφ h4
    | finished _ _ _ => exact absurd hφ h5
  · obtain rfl := eq_other_of_ne hne
    rw [other_other] at h
    generalize φ who = ψ at h hφ
    generalize φ who.other = ψ' at h ⊢
    cases h with
    | untouched h _ => exact Or.inl ⟨rfl, h⟩
    | erased _ => exact Or.inr (Or.inl ⟨rfl, rfl⟩)
    | written now _ => exact Or.inr (Or.inr ⟨now, rfl, rfl⟩)
    | bothErased => exact absurd hφ h1
    | oneWritten _ _ _ => exact absurd hφ h1
    | bothWritten _ _ _ _ => exact absurd hφ h2
    | informed _ => exact absurd hφ h2
    | cleared _ => exact absurd hφ h2
    | finished _ _ _ => exact absurd hφ h2

/-- A process that has erased the block `t`. -/
theorem Racing.erased (h : Racing R φ flash) (hφ : φ who = .erased) :
    (flash = R.withT .erased ∧ ((φ who.other).Early ∨ φ who.other = .erased)) ∨
    ∃ now pg, flash = R.withT pg ∧ (pg = .erased ∨ pg = R.page (R.update who.other now)) ∧
      φ who.other = .written := by
  obtain ⟨h1, -⟩ := not_early
  obtain ⟨w, h⟩ := h
  rcases eq_or_ne w who with rfl | hne
  · rw [hφ] at h
    generalize φ w.other = ψ' at h ⊢
    cases h with
    | untouched h _ => exact absurd h h1
    | erased h => exact Or.inl ⟨rfl, Or.inl h⟩
    | bothErased => exact Or.inl ⟨rfl, Or.inr rfl⟩
  · obtain rfl := eq_other_of_ne hne
    rw [other_other, hφ] at h
    generalize φ who.other = ψ' at h ⊢
    cases h with
    | untouched _ h => exact absurd h h1
    | erased h => exact absurd h h1
    | written _ h => exact absurd h h1
    | bothErased => exact Or.inl ⟨rfl, Or.inr rfl⟩
    | oneWritten now pg h => exact Or.inr ⟨now, pg, rfl, h, rfl⟩

/-- A process that has seen the config of the other one. -/
theorem Racing.informed (h : Racing R φ flash) (hφ : φ who = .informed) :
    ∃ now, flash = R.withT (R.page (R.update who.other now)) ∧ φ who.other = .written := by
  obtain ⟨-, -, h3, -⟩ := not_early
  obtain ⟨w, h⟩ := h
  rcases eq_or_ne w who with rfl | hne
  · rw [hφ] at h
    generalize φ w.other = ψ' at h ⊢
    cases h with
    | untouched h _ => exact absurd h h3
    | informed now => exact ⟨now, rfl, rfl⟩
  · obtain rfl := eq_other_of_ne hne
    rw [other_other, hφ] at h
    generalize φ who.other = ψ' at h ⊢
    cases h with
    | untouched _ h => exact absurd h h3
    | erased h => exact absurd h h3
    | written _ h => exact absurd h h3

/-- The same process after it erased the block `u`. -/
theorem Racing.cleared (h : Racing R φ flash) (hφ : φ who = .cleared) :
    ∃ now, flash = Function.update (R.withT (R.page (R.update who.other now))) R.u .erased ∧
      φ who.other = .written := by
  obtain ⟨-, -, -, h4, -⟩ := not_early
  obtain ⟨w, h⟩ := h
  rcases eq_or_ne w who with rfl | hne
  · rw [hφ] at h
    generalize φ w.other = ψ' at h ⊢
    cases h with
    | untouched h _ => exact absurd h h4
    | cleared now => exact ⟨now, rfl, rfl⟩
  · obtain rfl := eq_other_of_ne hne
    rw [other_other, hφ] at h
    generalize φ who.other = ψ' at h ⊢
    cases h with
    | untouched _ h => exact absurd h h4
    | erased h => exact absurd h h4
    | written _ h => exact absurd h h4

/-! ### What it does -/

/-- What a process sees of the block `t` when it reads it first, and where it
    goes from there. -/
theorem Racing.read (h : Racing R φ flash) (hφ : φ who = .start) :
    (¬ (φ who.other).Over ∧ (flash R.t = R.flash R.t ∨ flash R.t = .erased) ∧
      Racing R (Function.update φ who .stale) flash) ∨
    ((φ who.other).Over ∧ (∃ now, flash R.t = R.page (R.update who.other now)) ∧
      Racing R (Function.update φ who .informed) flash) := by
  have hstale : Phase.Early .stale := Or.inr rfl
  rcases h.early (Or.inl hφ) with ⟨rfl, hφ'⟩ | ⟨rfl, hφ'⟩ | ⟨now, rfl, hφ'⟩
  · refine Or.inl ⟨?_, Or.inl rfl, .of_self (.untouched hstale hφ')⟩
    rcases hφ' with h | h <;> simp [h, Phase.Over]
  · refine Or.inl ⟨by simp [hφ', Phase.Over], Or.inr (Function.update_self ..), .of_other ?_⟩
    rw [hφ']
    exact .erased hstale
  · refine Or.inr ⟨Or.inl hφ', ⟨now, Function.update_self ..⟩, .of_self ?_⟩
    rw [hφ']
    exact .informed now

/-- Before a process erases a block, the blocks but `t` are as they were. -/
theorem Racing.unchanged (h : Racing R φ flash) (hφ : (φ who).Early ∨ φ who = .informed) {j : ℕ}
    (hj : j ≠ R.t) : flash j = R.flash j := by
  have ht : ∀ pg, R.withT pg j = R.flash j := fun pg => Function.update_of_ne hj ..
  rcases hφ with hφ | hφ
  · rcases h.early hφ with ⟨rfl, -⟩ | ⟨rfl, -⟩ | ⟨now, rfl, -⟩
    · rfl
    · exact ht _
    · exact ht _
  · obtain ⟨now, rfl, -⟩ := h.informed hφ
    exact ht _

/-- A process that has not seen the other one erases the block `t` … -/
theorem Racing.erase (h : Racing R φ flash) (hφ : φ who = .stale) :
    Racing R (Function.update φ who .erased) (Function.update flash R.t .erased) := by
  have hwithT : ∀ pg, Function.update (R.withT pg) R.t .erased = R.withT .erased :=
    fun pg => Function.update_idem ..
  rcases h.early (Or.inr hφ) with ⟨rfl, hφ'⟩ | ⟨rfl, hφ'⟩ | ⟨now, rfl, hφ'⟩
  · exact .of_self (.erased hφ')
  · rw [hwithT]
    refine .of_self ?_
    rw [hφ']
    exact .bothErased
  · rw [hwithT]
    refine .of_other ?_
    rw [hφ']
    exact .oneWritten now _ (Or.inl rfl)

/-- … and writes a config made from the current one. -/
theorem Racing.write (h : Racing R φ flash) (hφ : φ who = .erased) (now : BitVec 32) :
    Racing R (Function.update φ who .written) (Function.update flash R.t
      ((flash R.t).program (pageOf R.info.minIoSize (R.update who now)))) := by
  have hwithT : ∀ pg, Function.update (R.withT pg) R.t ((R.withT pg R.t).program
      (pageOf R.info.minIoSize (R.update who now))) =
      R.withT (pg.program (pageOf R.info.minIoSize (R.update who now))) := by
    intro pg
    simp only [Race.withT, Function.update_self, Function.update_idem]
  rcases h.erased hφ with ⟨rfl, hφ' | hφ'⟩ | ⟨now', pg, rfl, hpg, hφ'⟩
  · rw [hwithT]
    exact .of_self (.written now hφ')
  · rw [hwithT]
    refine .of_self ?_
    rw [hφ']
    exact .oneWritten now _ (Or.inr rfl)
  · rw [hwithT]
    rcases hpg with rfl | rfl
    · refine .of_self ?_
      rw [hφ']
      exact .bothWritten now now _ (Or.inl rfl)
    · refine .of_other ?_
      rw [hφ']
      refine .bothWritten now' now _ (Or.inr ?_)
      rw [other_other]

/-- A process that has seen the config of the other one erases the block `u` … -/
theorem Racing.erase' (h : Racing R φ flash) (hφ : φ who = .informed) :
    Racing R (Function.update φ who .cleared) (Function.update flash R.u .erased) := by
  obtain ⟨now, rfl, hφ'⟩ := h.informed hφ
  refine .of_self ?_
  rw [hφ']
  exact .cleared now

/-- … and writes a config made from that one. -/
theorem Racing.write' (h : Racing R φ flash) (hφ : φ who = .cleared) (now now' : BitVec 32) :
    Racing R (Function.update φ who .finished) (Function.update flash R.u
      ((flash R.u).program (pageOf R.info.minIoSize (R.update' who now now')))) := by
  obtain ⟨now₀, rfl, hφ'⟩ := h.cleared hφ
  rw [Function.update_self, Function.update_idem]
  refine .of_self ?_
  rw [hφ']
  exact .finished now₀ now now'

end

end MetaHipos
