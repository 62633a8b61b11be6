/-
  One attempt of an update: `_update_bootblock`.

  * `IsNext`: the config that follows another one;
  * `Attempt`: whatever fails, an attempt on the block `i` touches no other
    block, and leaves `i` as it was, without a valid magic, or with the new
    config;
  * `wp_updateBootblock_tried`: what the memory and the return value say
    afterwards;
  * `wp_updateBootblock_fine`: an attempt without failures.
-/
import MetaHipos.Bootconfig.Reading

namespace MetaHipos

open LittleEndian Process Newest

/-! ## The next config -/

/-- `b` is a config that follows `old`: partition `p` for the image `which`,
    the other image as before. -/
structure IsNext (old : Btblock) (which : BtLlParttype) (p : ℕ) (b : Btblock) : Prop where
  magic : b.magic = .boot
  epoch : b.epoch = old.epoch + 1
  partition : (b.info which).partition.toNat = p
  other : b.info which.other = old.info which.other

theorem updated_isNext (old : Btblock) (which : BtLlParttype) {p : ℕ} (hp : p ≤ 1)
    (now : BitVec 32) : IsNext old which p (updated old which p now) where
  magic := by simp [updated]
  epoch := by simp [updated]
  partition := by simp only [updated, Btblock.setInfo_info, BitVec.toNat_ofNat]; omega
  other := by cases which <;> rfl

theorem toNat_succ {e : BitVec 32} (h : e.toNat < 2 ^ 32 - 1) : (e + 1).toNat = e.toNat + 1 := by
  rw [BitVec.toNat_add, show (1 : BitVec 32).toNat = 1 from rfl, Nat.mod_eq_of_lt (by omega)]

theorem IsNext.version {old b : Btblock} {which : BtLlParttype} {p : ℕ} (h : IsNext old which p b)
    (he : old.epoch.toNat < 2 ^ 32 - 1) : b.version = some (old.epoch.toNat + 1) := by
  have hn : b.epoch.toNat = old.epoch.toNat + 1 := by rw [h.epoch, toNat_succ he]
  exact Btblock.version_eq_some.2 ⟨h.magic, toNat_pos.1 (by omega), hn⟩

/-- After the last epoch comes `0`, which no valid config has. -/
theorem IsNext.version_wrap {old b : Btblock} {which : BtLlParttype} {p : ℕ}
    (h : IsNext old which p b) (he : old.epoch.toNat = 2 ^ 32 - 1) : b.version = none := by
  refine Btblock.version_eq_none.2 fun _ => ?_
  rw [h.epoch, ← BitVec.toNat_inj, BitVec.toNat_add, he]; rfl

/-- **The old config or the next one**: where the block `c` is kept and the
    others are kept, lost, or replaced by next configs, the newest config is
    the one of `c` or a next one. -/
theorem newest_or_next {blocks blocks' : ℕ → Btblock} {n c i p v : ℕ} {which : BtLlParttype}
    (hnew : IsNewest (versions blocks) n c (blocks c).epoch.toNat)
    (he : (blocks c).epoch.toNat < 2 ^ 32 - 1) (hc : blocks' c = blocks c)
    (hother : ∀ j < n, j ≠ c → blocks' j = blocks j ∨ (blocks' j).version = none ∨
      IsNext (blocks c) which p (blocks' j))
    (hi : IsNewest (versions blocks') n i v) :
    i = c ∨ (v = (blocks c).epoch.toNat + 1 ∧ IsNext (blocks c) which p (blocks' i)) := by
  have hvc : versions blocks' c = versions blocks c := by rw [versions, hc, versions]
  have hsurv := hnew.survives hvc (fun k hk hkc => (hother k hk hkc).imp (congrArg Btblock.version)
      (Or.imp_right fun h => h.version he)) hi
  rcases hsurv with ⟨hic, -⟩ | ⟨hic, hv, hk⟩
  · exact Or.inl hic
  · refine Or.inr ⟨hv, ?_⟩
    rcases hother i hi.lt hic with h | h | h
    · -- an old config of that epoch would have been newer than the current one
      have := hnew.le i hi.lt _ (show versions blocks i = some _ by rw [versions, ← h]; exact hk)
      omega
    · rw [versions, h] at hk; cases hk
    · exact h

/-! ## What a call is about -/

/-- The block a call is about, if any. -/
def Op.about : Op → Option ℕ
  | .mtdIsBad i => some i
  | .mtdRead i => some i
  | .mtdErase i => some i
  | .mtdWrite i _ => some i
  | _ => none

/-- From `w` to `w'`, the calls were about no other block than `i`. -/
def OnlyAbout (i : ℕ) (w w' : World) : Prop :=
  ∃ evs, w'.log = evs ++ w.log ∧ ∀ e ∈ evs, ∀ j, e.1.about = some j → j = i

section
variable {i j : ℕ} {w w' : World}

theorem OnlyAbout.refl : OnlyAbout i w w := ⟨[], rfl, by simp⟩

theorem OnlyAbout.after (h : OnlyAbout i w w') {o : Op} {r : Resp o}
    (ho : ∀ j, o.about = some j → j = i) : OnlyAbout i w (w'.after o r) := by
  obtain ⟨evs, hlog, hevs⟩ := h
  refine ⟨⟨o, r⟩ :: evs, by rw [after_log, hlog, List.cons_append], fun e he => ?_⟩
  rcases List.mem_cons.1 he with rfl | he
  exacts [ho, hevs e he]

/-- Other blocks are neither checked … -/
theorem OnlyAbout.lastBad (h : OnlyAbout i w w') (hj : j ≠ i) :
    lastBad j w'.log = lastBad j w.log := by
  obtain ⟨evs, hlog, hevs⟩ := h
  rw [hlog]
  clear hlog
  induction evs with
  | nil => rfl
  | cons e evs ih =>
    obtain ⟨o, r⟩ := e
    have ho := hevs ⟨o, r⟩ (List.mem_cons_self ..)
    rw [List.cons_append, ← ih fun e he => hevs e (List.mem_cons_of_mem _ he)]
    by_cases h : ∃ k, o = .mtdIsBad k
    · obtain ⟨k, rfl⟩ := h
      obtain rfl : k = i := ho k rfl
      exact lastBad_isBad_ne _ (Ne.symm hj) r
    · exact lastBad_other j _ r fun k hk => h ⟨k, hk⟩

/-- … nor touched. -/
theorem OnlyAbout.target (h : OnlyAbout i w w') {e : Event} (he : e ∈ w'.log)
    (ht : e.1.target = some j) : e ∈ w.log ∨ j = i := by
  obtain ⟨evs, hlog, hevs⟩ := h
  rw [hlog, List.mem_append] at he
  rcases he with he | he
  · refine Or.inr (hevs e he j ?_)
    obtain ⟨o, r⟩ := e
    cases o <;> first | exact ht | cases ht
  · exact Or.inl he

end

/-- The write stored its page. -/
def TookEffect : Event → Prop
  | ⟨.mtdWrite .., o⟩ => 0 ≤ o.ret ∨ o.left = .complete
  | _ => False

/-- Some write stored its page. -/
def Effect (log : List Event) : Prop := ∃ e ∈ log, TookEffect e

theorem effect_cons {e : Event} {log : List Event} :
    Effect (e :: log) ↔ TookEffect e ∨ Effect log := by
  simp [Effect]

theorem effect_other {o : Op} {r : Resp o} {log : List Event} (h : ∀ i page, o ≠ .mtdWrite i page) :
    Effect (⟨o, r⟩ :: log) ↔ Effect log := by
  rw [effect_cons, or_iff_right]
  cases o <;> first | exact not_false | exact absurd rfl (h _ _)

theorem effect_calm {o : Op} {r : Resp o} {log : List Event} (h : o.target = none) :
    Effect (⟨o, r⟩ :: log) ↔ Effect log :=
  effect_other fun i page he => by rw [he] at h; cases h

/-! ## Attempts -/

/-- The block `i` was erased at most, from `w` to `w'`. -/
structure Unwritten (i : ℕ) (w w' : World) : Prop where
  block : w'.flash i = w.flash i ∨ (w'.flash i).hdr.magic ≠ .boot
  effect : Effect w'.log ↔ Effect w.log

/-- The update of the block `i` to `b`, whatever failed so far. -/
structure Attempt (i : ℕ) (b : Btblock) (w w' : World) : Prop where
  others : ∀ j ≠ i, w'.flash j = w.flash j
  block : Unwritten i w w' ∨ ((w'.flash i).hdr = b ∧ Effect w'.log)
  about : OnlyAbout i w w'

section
variable {i : ℕ} {b : Btblock} {w w' : World}

theorem Unwritten.refl : Unwritten i w w := ⟨Or.inl rfl, Iff.rfl⟩

theorem Attempt.refl : Attempt i b w w := ⟨fun _ _ => rfl, Or.inl .refl, .refl⟩

theorem after_flash_calm (w : World) {o : Op} (r : Resp o) (h : o.target = none) :
    (w.after o r).flash = w.flash := funext fun j => after_flash_of_ne w o r (by simp [h])

theorem Unwritten.calm (h : Unwritten i w w') {o : Op} {r : Resp o} (ht : o.target = none) :
    Unwritten i w (w'.after o r) :=
  ⟨by rw [after_flash_calm w' r ht]; exact h.block, (effect_calm ht).trans h.effect⟩

theorem Attempt.calm (h : Attempt i b w w') {o : Op} {r : Resp o} (ht : o.target = none)
    (ho : ∀ j, o.about = some j → j = i) : Attempt i b w (w'.after o r) where
  others j hj := by rw [after_flash_calm w' r ht, h.others j hj]
  block := h.block.imp (fun hu => hu.calm ht) fun ⟨hb, he⟩ =>
    ⟨by rw [after_flash_calm w' r ht]; exact hb, (effect_calm ht).2 he⟩
  about := h.about.after ho

/-- What an erase leaves behind. -/
theorem erase_flash (w : World) (i : ℕ) (e : Outcome) :
    (w.after (.mtdErase i) e).flash i = w.flash i ∨
      ((w.after (.mtdErase i) e).flash i).hdr.magic ≠ .boot := by
  have he := Page.hdr_erased_magic
  rw [after_flash, flashAfter, Function.update_self]
  split_ifs
  · rcases e with ⟨_, _ | pg | _⟩
    exacts [Or.inl rfl, Or.inr pg.2, Or.inr he]
  · exact Or.inr he

theorem erase_flash_of_ok (w : World) (i : ℕ) {e : Outcome} (h : 0 ≤ e.ret) :
    (w.after (.mtdErase i) e).flash = Function.update w.flash i .erased := by
  rw [after_flash, flashAfter, if_neg (by omega)]

theorem prefix_pageOf (n : ℕ) (b : Btblock) : b.bytes <+: pageOf n b := List.prefix_append ..

/-- What a write to an erased block leaves behind. -/
theorem write_flash (w : World) (i n : ℕ) (b : Btblock) (o : Outcome) (h : w.flash i = .erased) :
    (¬ TookEffect ⟨.mtdWrite i (pageOf n b), o⟩ ∧
      ((w.after (.mtdWrite i (pageOf n b)) o).flash i).hdr.magic ≠ .boot) ∨
    (TookEffect ⟨.mtdWrite i (pageOf n b), o⟩ ∧
      ((w.after (.mtdWrite i (pageOf n b)) o).flash i).hdr = b) := by
  have he := Page.hdr_erased_magic
  have hp := Page.hdr_program_erased (prefix_pageOf n b)
  rw [after_flash, flashAfter, Function.update_self, h]
  rcases lt_or_ge o.ret 0 with hneg | hpos
  · rw [if_pos hneg]
    rcases o with ⟨ret, _ | pg | _⟩
    · exact Or.inl ⟨by simpa [TookEffect] using hneg, he⟩
    · exact Or.inl ⟨by simpa [TookEffect] using hneg, pg.2⟩
    · exact Or.inr ⟨Or.inr rfl, hp⟩
  · rw [if_neg (by omega)]
    exact Or.inr ⟨Or.inl hpos, hp⟩

theorem write_flash_of_ok (w : World) (i : ℕ) (buf : List Byte) {o : Outcome} (h : 0 ≤ o.ret) :
    (w.after (.mtdWrite i buf) o).flash = Function.update w.flash i ((w.flash i).program buf) := by
  rw [after_flash, flashAfter, if_neg (by omega)]

theorem Unwritten.erase (h : Unwritten i w w') (e : Outcome) :
    Unwritten i w (w'.after (.mtdErase i) e) where
  block := by
    rcases erase_flash w' i e with he | he
    · rw [he]; exact h.block
    · exact Or.inr he
  effect := (effect_other fun _ _ he => by cases he).trans h.effect

theorem Attempt.erase (h : Attempt i b w w') (hu : Unwritten i w w') (e : Outcome) :
    Attempt i b w (w'.after (.mtdErase i) e) where
  others j hj :=
    (after_flash_of_ne w' (.mtdErase i) e fun h => hj (Option.some.inj h).symm).trans
      (h.others j hj)
  block := Or.inl (hu.erase e)
  about := h.about.after fun _ hj => (Option.some.inj hj).symm

theorem Attempt.write (h : Attempt i b w w') (hu : Unwritten i w w') (n : ℕ) (o : Outcome)
    (he : w'.flash i = .erased) : Attempt i b w (w'.after (.mtdWrite i (pageOf n b)) o) where
  others j hj :=
    (after_flash_of_ne w' (.mtdWrite i _) o fun h => hj (Option.some.inj h).symm).trans
      (h.others j hj)
  block := by
    rcases write_flash w' i n b o he with ⟨hn, hb⟩ | ⟨ht, hb⟩
    · exact Or.inl ⟨Or.inr hb, (effect_cons.trans (or_iff_right hn)).trans hu.effect⟩
    · exact Or.inr ⟨hb, effect_cons.2 (Or.inl ht)⟩
  about := h.about.after fun _ hj => (Option.some.inj hj).symm

end

variable {J : Judge Op Resp Stop World} {bc : Bootconfig} {i c p : ℕ} {w : World}
  {which : BtLlParttype}

/-- An attempt to write the block `i` from memory, after it was checked. -/
theorem wp_doWriteBootblock_tried {Q : ℤ → World → Prop} {b : Btblock} {w₀ : World}
    (hi : i < bc.info.ebCnt) (hb : bc.blocks i = b) (h0 : lastBad i w.log = some 0)
    (h : Attempt i b w₀ w) (hu : Unwritten i w₀ w)
    (hio : bc.info.minIoSize < Btblock.size → ∀ w', J.stop .fault w')
    (hinv : ∀ w', Attempt i b w₀ w' → J.inv w')
    (hQ : ∀ err w', Attempt i b w₀ w' → lastBad i w'.log = some 0 →
      (err = 0 → (w'.flash i).hdr = b) → Q err w') : wp mtd J (doWriteBootblock bc i) Q w := by
  rw [wp_doWriteBootblock hi, hb]
  intro e _
  have h1 := h.erase hu e
  have hu1 := hu.erase e
  refine ⟨hinv _ h1, fun hneg => hQ 1 _ h1 h0 (by simp), fun hpos m _ => ?_⟩
  have h2 := h1.calm (o := .malloc bc.info.minIoSize) (r := m) rfl (by simp [Op.about])
  refine ⟨hinv _ h2, fun hm => hQ _ _ h2 h0 (by simp), fun hm =>
    ⟨fun h => hio h _, fun _ o _ => ?_⟩⟩
  have herased :
      ((w.after (.mtdErase i) e).after (.malloc bc.info.minIoSize) m).flash i = .erased := by
    rw [after_flash_calm _ _ rfl, erase_flash_of_ok w i hpos, Function.update_self]
  have h3 := h2.write (hu1.calm rfl) bc.info.minIoSize o herased
  refine ⟨hinv _ h3, hQ _ _ h3 h0 fun herr => ?_⟩
  have ho : 0 ≤ o.ret := by by_contra hlt; rw [if_pos (by omega)] at herr; cases herr
  rw [write_flash_of_ok _ i _ ho, Function.update_self, herased]
  exact Page.hdr_program_erased (prefix_pageOf ..)

/-- **One attempt, whatever fails.**  It skips a block known as bad; else the
    memory holds the new config, marked if `mtd_is_bad` said last that the
    block is bad, and `0` is returned only if the flash holds it, too. -/
theorem wp_updateBootblock_tried {Q : ℤ × Bootconfig → World → Prop} (hi : i < bc.info.ebCnt)
    (hc : c < bc.info.ebCnt) (hio : bc.info.minIoSize < Btblock.size → ∀ w', J.stop .fault w')
    (hinv : ∀ now w', Attempt i (updated (bc.blocks c) which p now) w w' → J.inv w')
    (hskip : (bc.blocks i).magic = .bad → Q (-1, bc) w)
    (htried : (bc.blocks i).magic ≠ .bad → ∀ now err r w', J.inv w' →
      Attempt i (updated (bc.blocks c) which p now) w w' → lastBad i w'.log = some r →
      (err = 0 → r = 0 ∧ (w'.flash i).hdr = updated (bc.blocks c) which p now) →
      Q (err, (bc.setBlock i (updated (bc.blocks c) which p now)).noteBad i r) w') :
    wp mtd J (updateBootblock bc which p c i) Q w := by
  rw [wp_updateBootblock hi hc]
  refine ⟨hskip, fun hm now _ => ?_⟩
  set b := updated (bc.blocks c) which p now with hb
  have h1 : Attempt i b w (w.after .time now) := Attempt.refl.calm rfl (by simp [Op.about])
  refine ⟨hinv now _ h1, ?_⟩
  have hi' : i < (bc.setBlock i b).info.ebCnt := hi
  rw [wp_writeErrorcheckBootblock hi']
  intro r _
  have h2 : Attempt i b w ((w.after .time now).after (.mtdIsBad i) r) :=
    h1.calm rfl fun j hj => (Option.some.inj hj).symm
  have hinv2 := hinv now _ h2
  refine ⟨hinv2, fun hr => ?_, ?_⟩
  · exact htried hm now _ r _ hinv2 h2 (lastBad_self ..) fun h => absurd (badCode_eq_zero.1 h) hr
  · rintro rfl
    have hu : Unwritten i w ((w.after .time now).after (.mtdIsBad i) 0) :=
      (Unwritten.refl.calm rfl).calm rfl
    refine wp_doWriteBootblock_tried hi' (Function.update_self ..) (lastBad_self ..) h2 hu hio
      (fun w' => hinv now w') ?_
    intro err w' h3 h0 herr
    refine ⟨fun _ r' _ => ?_, fun hne => ?_⟩
    · have h4 : Attempt i b w (w'.after (.mtdIsBad i) r') :=
        h3.calm rfl fun j hj => (Option.some.inj hj).symm
      exact ⟨hinv now _ h4, htried hm now 1 r' _ (hinv now _ h4) h4 (lastBad_self ..) (by simp)⟩
    · exact htried hm now err 0 _ (hinv now _ h3) h3 h0 fun h => ⟨rfl, herr h⟩

/-! ## Attempts without failures -/

/-- **One attempt where nothing fails** erases the block and writes it. -/
theorem wp_updateBootblock_fine {Q : ℤ × Bootconfig → World → Prop} {bad : ℕ → Bool}
    {info : MtdDevInfo} (hok : ∀ o r, J.ok o r → Fine bad info o r) (hinv : ∀ w, J.inv w)
    (hi : i < bc.info.ebCnt) (hc : c < bc.info.ebCnt) (hio : Btblock.size ≤ bc.info.minIoSize)
    (hgood : bad i = false) (hm : (bc.blocks i).magic ≠ .bad)
    (hQ : ∀ now w', let b := updated (bc.blocks c) which p now
      w'.flash = Function.update w.flash i (Page.erased.program (pageOf bc.info.minIoSize b)) →
      erases w'.log = i :: erases w.log →
      writes w'.log = (i, pageOf bc.info.minIoSize b) :: writes w.log → Q (0, bc.setBlock i b) w') :
    wp mtd J (updateBootblock bc which p c i) Q w := by
  rw [wp_updateBootblock hi hc]
  refine ⟨fun h => absurd h hm, fun _ now _ => ⟨hinv _, ?_⟩⟩
  rw [wp_writeErrorcheckBootblock (by exact hi)]
  intro r hr
  have hr0 : Answers (bad i) r := hok _ _ hr
  simp only [Answers, hgood, Bool.false_eq_true, if_false] at hr0
  refine ⟨hinv _, fun h => absurd hr0 h, fun _ => ?_⟩
  rw [wp_doWriteBootblock (by exact hi)]
  intro e he
  have he0 : 0 ≤ e.ret := hok _ _ he
  refine ⟨hinv _, fun h => absurd h (by omega), fun _ m hmem => ⟨hinv _, fun h => ?_, fun _ =>
    ⟨fun h => absurd h (by simpa using hio), fun _ o ho => ?_⟩⟩⟩
  · have := hok _ _ hmem
    simp [Fine, h] at this
  have ho0 : 0 ≤ o.ret := hok _ _ ho
  refine ⟨hinv _, ?_⟩
  rw [if_neg (by omega)]
  refine ⟨fun h => absurd h (by decide), fun _ => ?_⟩
  rw [Bootconfig.setBlock_blocks, Function.update_self]
  refine hQ now _ ?_ rfl rfl
  rw [write_flash_of_ok _ i _ ho0]
  have h1 : ∀ (w : World) m, (w.after (.malloc bc.info.minIoSize) m).flash = w.flash :=
    fun w m => rfl
  rw [Bootconfig.setBlock_info, h1, erase_flash_of_ok _ i he0, Function.update_self,
    Function.update_idem]
  rfl

end MetaHipos
