/-
  The partition argument of `set-kernel` and `set-rootfs`.

  `sscanf` with `"mtd%u"` accepts more than the names of the partitions: blanks
  and a sign before the digits, anything after them, and numbers that come to
  the same value in 32 bits.

  * `sscanfMtd_eq_some`: the strings that are scanned as a number;
  * `arg_documented_iff`: an argument is handled as documented exactly if it is
    scanned as the number of a partition in the documented spelling only.
-/
import Mathlib.Data.List.TakeWhile
import MetaHipos.Bootconfig.Reading
import MetaHipos.Bootconfig.Request

namespace MetaHipos

open Process

/-! ## What is scanned -/

/-- The `unsigned long` that `strtoul` makes of the digits of `v`, with a minus
    sign if `neg`. -/
def Target.ulongOf (tgt : Target) (neg : Prop) [Decidable neg] (v : ℕ) : ℕ :=
  if tgt.ulongs ≤ v then tgt.ulongs - 1
  else if neg then (tgt.ulongs - v) % tgt.ulongs
  else v

/-- The string is `mtd`, blanks, a sign or none, digits, and anything that does
    not go on with a digit; the digits come to the value `v` in 32 bits. -/
def Spells (tgt : Target) (s : String) (v : BitVec 32) : Prop :=
  ∃ blanks sign ds rest, s.toList = "mtd".toList ++ (blanks ++ (sign ++ (ds ++ rest))) ∧
    (∀ c ∈ blanks, isspace c = true) ∧ (sign = [] ∨ sign = ['+'] ∨ sign = ['-']) ∧
    ds ≠ [] ∧ (∀ c ∈ ds, c.isDigit = true) ∧ (∀ c, rest.head? = some c → c.isDigit = false) ∧
    v = BitVec.ofNat 32 (tgt.ulongOf (sign = ['-']) (decimal ds))

/-- The sign `strtoul` skips, and what follows. -/
theorem sign_split (cs : List Char) : ∃ sign, (sign = [] ∨ sign = ['+'] ∨ sign = ['-']) ∧
    cs = sign ++ (if cs.head? = some '-' ∨ cs.head? = some '+' then cs.tail else cs) ∧
    (cs.head? = some '-' ↔ sign = ['-']) := by
  cases cs with
  | nil => exact ⟨[], by simp⟩
  | cons c cs =>
    by_cases hm : c = '-'
    · subst hm
      exact ⟨['-'], by simp⟩
    · by_cases hp : c = '+'
      · subst hp
        exact ⟨['+'], by simp⟩
      · exact ⟨[], by simp [hm, hp]⟩

/-- After blanks and a sign come digits: nothing more is skipped. -/
theorem digits_start {sign ds : List Char} (rest : List Char)
    (hsign : sign = [] ∨ sign = ['+'] ∨ sign = ['-']) (hne : ds ≠ [])
    (hds : ∀ c ∈ ds, c.isDigit = true) :
    (sign ++ (ds ++ rest)).dropWhile isspace = sign ++ (ds ++ rest) ∧
      ((sign ++ (ds ++ rest)).head? = some '-' ↔ sign = ['-']) ∧
      ((sign ++ (ds ++ rest)).head? = some '+' ↔ sign = ['+']) := by
  obtain ⟨d, ds, rfl⟩ := List.exists_cons_of_ne_nil hne
  have hd := hds d (List.mem_cons_self ..)
  have hdigit : 48 ≤ d.toNat ∧ d.toNat ≤ 57 := by
    simpa [Char.isDigit, UInt32.le_iff_toNat_le] using hd
  have hspace : isspace d = false := by
    simp only [isspace, Bool.or_eq_false_iff, beq_eq_false_iff_ne, ne_eq, Bool.and_eq_false_iff,
      decide_eq_false_iff_not]
    omega
  have hm : d ≠ '-' := by
    intro h
    rw [h] at hdigit
    exact absurd hdigit (by decide)
  have hp : d ≠ '+' := by
    intro h
    rw [h] at hdigit
    exact absurd hdigit (by decide)
  rcases hsign with rfl | rfl | rfl
  · simp [hspace, hm, hp]
  · exact ⟨rfl, by simp, by simp⟩
  · exact ⟨rfl, by simp, by simp⟩

/-- **The strings that `sscanf` takes for the number `v`.** -/
theorem sscanfMtd_eq_some {tgt : Target} {s : String} {v : BitVec 32} :
    sscanfMtd tgt s = some v ↔ Spells tgt s v := by
  constructor
  · intro h
    rw [sscanfMtd] at h
    split at h
    · next cs hs =>
      obtain ⟨n, hn, rfl⟩ := Option.map_eq_some_iff.1 h
      set cs' := cs.dropWhile isspace with hcs'
      obtain ⟨sign, hsign, hsplit, hneg⟩ := sign_split cs'
      rw [strtoul, ← hcs'] at hn
      set tl := if cs'.head? = some '-' ∨ cs'.head? = some '+' then cs'.tail else cs'
      simp only [hneg] at hn
      by_cases hnil : tl.takeWhile Char.isDigit = []
      · rw [if_pos hnil] at hn; cases hn
      · rw [if_neg hnil] at hn
        refine ⟨cs.takeWhile isspace, sign, tl.takeWhile Char.isDigit, tl.dropWhile Char.isDigit,
          ?_, fun c hc => List.mem_takeWhile_imp hc, hsign, hnil,
          fun c hc => List.mem_takeWhile_imp hc, ?_, ?_⟩
        · rw [hs, List.takeWhile_append_dropWhile, ← hsplit, hcs', List.takeWhile_append_dropWhile]
          rfl
        · intro c hc
          have := List.head?_dropWhile_not Char.isDigit tl
          rw [hc] at this
          simpa using this
        · refine congrArg _ ?_
          rw [Target.ulongOf]
          split_ifs at hn ⊢ <;> exact (Option.some.inj hn).symm
    · cases h
  · rintro ⟨blanks, sign, ds, rest, hs, hblanks, hsign, hne, hds, hrest, rfl⟩
    obtain ⟨hdrop, hm, hp⟩ := digits_start rest hsign hne hds
    have hcs : s.toList = 'm' :: 't' :: 'd' :: (blanks ++ (sign ++ (ds ++ rest))) := hs
    have htail : (if sign = ['-'] ∨ sign = ['+'] then (sign ++ (ds ++ rest)).tail
        else sign ++ (ds ++ rest)) = ds ++ rest := by
      rcases hsign with rfl | rfl | rfl <;> simp
    have htake : (ds ++ rest).takeWhile Char.isDigit = ds := by
      rw [List.takeWhile_append_of_pos hds]
      cases rest with
      | nil => simp
      | cons c rest => rw [List.takeWhile_cons_of_neg (by simp [hrest c rfl]), List.append_nil]
    rw [sscanfMtd, hcs]
    simp only [strtoul, List.dropWhile_append_of_pos hblanks, hdrop, hm, hp, htail, htake, hne,
      if_false, Target.ulongOf]
    split_ifs <;> rfl

/-! ## What is done -/

/-- The command that sets an image. -/
def setCommand : BtLlParttype → String
  | .kernel => "set-kernel"
  | .rootfs => "set-rootfs"

/-- The number of the first partition of an image. -/
def firstPartition : BtLlParttype → ℤ
  | .kernel => 2
  | .rootfs => 4

/-- The documented name of the partition `p` of an image. -/
def partitionName : BtLlParttype → BitVec 1 → String
  | .kernel, p => if p = 0 then "mtd2" else "mtd3"
  | .rootfs, p => if p = 0 then "mtd4" else "mtd5"

section
variable {tgt : Target} {which : BtLlParttype} {s : String} {p : BitVec 1}

theorem main_set : main tgt [setCommand which, s] = bcLlInit false "/dev/mtd1" >>= fun bc =>
    mainSet tgt bc s (-firstPartition which) which := by
  cases which <;> rfl

/-- The documented name is scanned as its number. -/
theorem sscanfMtd_partitionName : sscanfMtd tgt (partitionName which p) =
    some (BitVec.ofInt 32 (firstPartition which) + p.setWidth 32) := by
  have hbit : ∀ p : BitVec 1, p = 0 ∨ p = 1 := by decide
  obtain ⟨h2, h3, h4, h5⟩ := sscanfMtd_digit tgt
  cases which <;> rcases hbit p with rfl | rfl <;> first
    | exact h2 | exact h3 | exact h4 | exact h5

/-- A string that is scanned as the number of a partition sets it. -/
theorem main_of_spells
    (h : Spells tgt s (BitVec.ofInt 32 (firstPartition which) + p.setWidth 32)) :
    main tgt [setCommand which, s] =
      bcLlInit false "/dev/mtd1" >>= fun bc => (Request.set which p).body tgt bc := by
  rw [main_set]
  refine congrArg _ (funext fun bc => mainSet_eq which bc (sscanfMtd_eq_some.2 h) ?_)
  have hcancel : ∀ a b : BitVec 32, a + b + -a = b := fun a b => by
    rw [BitVec.add_comm a b, BitVec.add_assoc, ← BitVec.sub_eq_add_neg, BitVec.sub_self,
      BitVec.add_zero]
  rw [BitVec.ofInt_neg]
  exact hcancel _ _

/-- Any other string makes `_set` exit. -/
theorem mainSet_exit (bc : Bootconfig)
    (h : ∀ p : BitVec 1, ¬ Spells tgt s (BitVec.ofInt 32 (firstPartition which) + p.setWidth 32)) :
    mainSet tgt bc s (-firstPartition which) which = .stop (.exit 1) := by
  rw [mainSet]
  cases hs : sscanfMtd tgt s with
  | none => rfl
  | some part =>
    have hgt : 1 < part + BitVec.ofInt 32 (-firstPartition which) := by
      by_contra hle
      have hsmall : ∀ x : BitVec 32, ¬ 1 < x → x = (0 : BitVec 1).setWidth 32 ∨
          x = (1 : BitVec 1).setWidth 32 := by
        intro x hx
        have : x.toNat ≤ 1 := by simpa [BitVec.lt_def] using hx
        rcases Nat.le_one_iff_eq_zero_or_eq_one.1 this with h | h
        · exact Or.inl (BitVec.eq_of_toNat_eq (by rw [h]; rfl))
        · exact Or.inr (BitVec.eq_of_toNat_eq (by rw [h]; rfl))
      have hback : ∀ x : BitVec 32, part + BitVec.ofInt 32 (-firstPartition which) = x →
          part = BitVec.ofInt 32 (firstPartition which) + x := by
        rintro x rfl
        rw [BitVec.ofInt_neg, BitVec.add_comm, BitVec.add_assoc,
          BitVec.add_comm _ (BitVec.ofInt 32 (firstPartition which)), ← BitVec.sub_eq_add_neg,
          BitVec.sub_self, BitVec.add_zero]
      rcases hsmall _ hle with h0 | h1
      · exact h 0 (sscanfMtd_eq_some.1 (hs.trans (congrArg some (hback _ h0))))
      · exact h 1 (sscanfMtd_eq_some.1 (hs.trans (congrArg some (hback _ h1))))
    exact if_pos hgt

/-- `bc_ll_init` neither erases nor writes. -/
theorem wp_init_quiet (flash : ℕ → Page) (flag : Bool) (dev : String) :
    wp mtd ⟨fun _ _ => True, fun w => erases w.log = [] ∧ writes w.log = [],
      fun e w => e = .exit 1 ∧ erases w.log = [] ∧ writes w.log = []⟩ (bcLlInit flag dev)
      (fun _ w => erases w.log = [] ∧ writes w.log = []) ⟨flash, []⟩ := by
  refine wp_bcLlInit (fun w o r ho _ h => ?_) ⟨rfl, rfl⟩ (fun _ _ _ _ _ h => ⟨rfl, h⟩)
    fun fd r _ _ hi => ?_
  · exact ⟨(erases_other r _ ho).trans h.1, (writes_other r _ ho).trans h.2⟩
  · refine wp_reading (fun _ _ _ => True) rfl (fun w o r ho _ h => ?_) hi (fun _ _ _ _ _ => trivial)
      (fun _ _ _ _ _ => trivial) (fun _ _ _ _ _ => trivial) fun code bc' w' hw' _ =>
        ⟨fun _ => ⟨rfl, hw'⟩, fun _ => hw'⟩
    exact ⟨(erases_other r _ ho).trans h.1, (writes_other r _ ho).trans h.2⟩

end

/-- The argument `s` is handled as documented: the name of a partition sets this
    partition; with anything else, the process exits with `1`, and nothing was
    erased or written. -/
def ArgDocumented (tgt : Target) (which : BtLlParttype) (s : String) : Prop :=
  (∀ p, s = partitionName which p → main tgt [setCommand which, s] =
    bcLlInit false "/dev/mtd1" >>= fun bc => (Request.set which p).body tgt bc) ∧
  ((∀ p, s ≠ partitionName which p) → ∀ flash ω,
    let run := exec mtd (main tgt [setCommand which, s]) ⟨flash, []⟩ ω
    exitStatus run.1 = some 1 ∧ erases run.2.1.log = [] ∧ writes run.2.1.log = [])

/-- **An argument is handled as documented exactly if** it is scanned as the
    number of a partition in the documented spelling only. -/
theorem arg_documented_iff (tgt : Target) (which : BtLlParttype) (s : String) :
    ArgDocumented tgt which s ↔
      ∀ p : BitVec 1, Spells tgt s (BitVec.ofInt 32 (firstPartition which) + p.setWidth 32) →
        s = partitionName which p := by
  constructor
  · rintro ⟨-, hother⟩ p hs
    by_contra hne
    have hnone : ∀ p', s ≠ partitionName which p' := by
      rintro p' rfl
      have hscan := sscanfMtd_eq_some.2 hs
      rw [sscanfMtd_partitionName] at hscan
      refine hne (congrArg _ ?_)
      have hinj : ∀ (a : BitVec 32) (p p' : BitVec 1),
          a + p'.setWidth 32 = a + p.setWidth 32 → p' = p := by
        intro a p p' h
        have hwide : ∀ p p' : BitVec 1, p'.setWidth 32 = p.setWidth 32 → p' = p := by decide
        exact hwide p p' ((BitVec.add_right_inj a).1 h)
      exact hinj _ _ _ (Option.some.inj hscan)
    -- on a fine device, the run goes through
    have hexit := (hother hnone twoBlocks (checkAnswers 0)).1
    rw [main_of_spells hs] at hexit
    have hbit : ∀ p : BitVec 1, p = 0 ∨ p = 1 := by decide
    have h0 : exitStatus (exec mtd (bcLlInit false "/dev/mtd1" >>= fun bc =>
        (Request.set which p).body tgt bc) ⟨twoBlocks, []⟩ (checkAnswers 0)).1 = some 0 := by
      rcases tgt with ⟨_, rfl | rfl⟩ <;> cases which <;> rcases hbit p with rfl | rfl <;> rfl
    rw [h0] at hexit
    cases hexit
  · intro h
    constructor
    · rintro p rfl
      exact main_of_spells (sscanfMtd_eq_some.1 sscanfMtd_partitionName)
    · intro hnone flash ω run
      have hmain : main tgt [setCommand which, s] =
          bcLlInit false "/dev/mtd1" >>= fun _ => .stop (.exit 1) := by
        rw [main_set]
        exact congrArg _ (funext fun bc => mainSet_exit bc fun p hp => hnone p (h p hp))
      have hwp : wp mtd ⟨fun _ _ => True, fun w => erases w.log = [] ∧ writes w.log = [],
          fun e w => e = .exit 1 ∧ erases w.log = [] ∧ writes w.log = []⟩
          (main tgt [setCommand which, s]) (fun _ _ => False) ⟨flash, []⟩ := by
        rw [hmain, wp_bind]
        exact wp_mono (wp_init_quiet flash false "/dev/mtd1") fun _ _ hw => ⟨rfl, hw⟩
      have hend := wp_exec hwp (ω := ω) fun _ _ => trivial
      change Judge.ends _ _ run.2.1 run.1 at hend
      cases hrun : run.1 with
      | done a => rw [hrun] at hend; exact hend.elim
      | stopped e =>
        rw [hrun] at hend
        obtain ⟨rfl, hlog⟩ := hend
        exact ⟨rfl, hlog⟩

/-- A mistyped name sets the partition all the same. -/
theorem arg_not_documented : ¬ ArgDocumented ⟨4, Or.inl rfl⟩ .kernel "mtd3x" := by
  rintro ⟨-, hother⟩
  have h := (hother (by decide) twoBlocks (checkAnswers 0)).1
  have h0 : exitStatus (exec mtd (main ⟨4, Or.inl rfl⟩ [setCommand .kernel, "mtd3x"])
      ⟨twoBlocks, []⟩ (checkAnswers 0)).1 = some 0 := rfl
  rw [h0] at h
  cases h

end MetaHipos
