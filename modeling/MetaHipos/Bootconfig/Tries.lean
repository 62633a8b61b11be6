/-
  The tries of an update, by the outcomes of its calls.

  * `Outcomes.tried`: the blocks that an update tries, and `Outcomes.attempted`:
    what it leaves in them;
  * `wp_try`: one try;
  * `Walk`: the tries so far, while the blocks are visited.
-/
import MetaHipos.Bootconfig.InitOutcomes
import MetaHipos.Bootconfig.Request
import MetaHipos.Bootconfig.Update

namespace MetaHipos

open LittleEndian Process

/-! ## What the outcomes do -/

instance (l : Page.Left) : Decidable (l = .kept) :=
  match l with
  | .kept => isTrue rfl
  | .spoiled _ => isFalse nofun
  | .complete => isFalse nofun

instance (l : Page.Left) : Decidable (l = .complete) :=
  match l with
  | .kept => isFalse nofun
  | .spoiled _ => isFalse nofun
  | .complete => isTrue rfl

/-- A write with this outcome stores its page. -/
def Outcome.Stores (o : Outcome) : Prop := 0 ≤ o.ret ∨ o.left = .complete

/-- An erase or a write with this outcome leaves its block alone. -/
def Outcome.Spares (o : Outcome) : Prop := o.ret < 0 ∧ o.left = .kept

instance (o : Outcome) : Decidable o.Stores := inferInstanceAs (Decidable (_ ∨ _))

instance (o : Outcome) : Decidable o.Spares := inferInstanceAs (Decidable (_ ∧ _))

/-- The elements of a list up to the first one in `p`. -/
def upTo (p : ℕ → Prop) [DecidablePred p] : List ℕ → List ℕ
  | [] => []
  | i :: is => if p i then [i] else i :: upTo p is

namespace Outcomes
variable (D : Outcomes) (F : ℕ → Page)

/-- The block is checked and erased, and there is memory for its page. -/
def Opens (i : ℕ) : Prop :=
  D (.mtdIsBad i) 1 = 0 ∧ 0 ≤ (D (.mtdErase i) 0).ret ∧ D (.malloc (some i)) 0 = true

instance (i : ℕ) : Decidable (D.Opens i) := inferInstanceAs (Decidable (_ ∧ _ ∧ _))

/-- And it is written. -/
def Works (i : ℕ) : Prop := D.Opens i ∧ 0 ≤ (D (.mtdWrite i) 0).ret

instance : DecidablePred D.Works := fun _ => inferInstanceAs (Decidable (_ ∧ _))

/-- The blocks that an update tries: those after the start, in cyclic order and
    without the ones marked `BAD!`, up to the first one that works. -/
def tried : List ℕ :=
  upTo D.Works ((Ring.ring D.info.ebCnt (D.start F)).filter fun i => (D.mem F i).magic ≠ .bad)

/-- What is left in a block that is tried: the new config, the old one, or
    none. -/
def attempted (which : BtLlParttype) (p : BitVec 1) (i : ℕ) : Btblock :=
  if D.Opens i ∧ (D (.mtdWrite i) 0).Stores then updated (D.old F) which p.toNat 0
  else if D (.mtdIsBad i) 1 ≠ 0 ∨ (D (.mtdErase i) 0).Spares then (F i).hdr
  else .zero

end Outcomes

variable {D : Outcomes} {F : ℕ → Page} {J : Judge Op Resp Stop World} {bc : Bootconfig}
  {w w' : World} {log : List Event} {i j k c : ℕ}

/-! ## One try -/

/-- The block was read by `bc_ll_init`, and nothing was done with it since. -/
structure Fresh (i : ℕ) (log : List Event) : Prop where
  isBad : times (.mtdIsBad i) log = 1
  page : times (.malloc (some i)) log = 0
  erase : times (.mtdErase i) log = 0
  write : times (.mtdWrite i) log = 0

theorem ReadUpTo.fresh (h : ReadUpTo k log) (hi : i < k) : Fresh i log where
  isBad := (h.isBad i).trans (if_pos hi)
  page := h.page i
  erase := h.erase i
  write := h.write i

/-- The block a call is made for. -/
def Call.block : Call → Option ℕ
  | .malloc erased => erased
  | .mtdIsBad i => some i
  | .mtdRead i => some i
  | .mtdErase i => some i
  | .mtdWrite i => some i
  | _ => none

theorem Fresh.other {o : Op} {r : Resp o} (h : Fresh j log)
    (ho : (o.toCall (erases log).head?).block ≠ some j) : Fresh j (⟨o, r⟩ :: log) where
  isBad := (times_other fun he => ho (by rw [he]; rfl)).trans h.isBad
  page := (times_other fun he => ho (by rw [he]; rfl)).trans h.page
  erase := (times_other fun he => ho (by rw [he]; rfl)).trans h.erase
  write := (times_other fun he => ho (by rw [he]; rfl)).trans h.write

/-- From `w` to `w'`, all calls were made for the block `i`. -/
structure OnBlock (D : Outcomes) (i : ℕ) (w w' : World) : Prop where
  others : ∀ j ≠ i, w'.flash j = w.flash j
  fresh : ∀ j ≠ i, Fresh j w.log → Fresh j w'.log
  answered : Answered D w'.log → Answered D w.log

theorem OnBlock.refl : OnBlock D i w w := ⟨fun _ _ => rfl, fun _ _ => id, id⟩

theorem OnBlock.after (h : OnBlock D i w w') {o : Op} (r : Resp o)
    (ho : (o.toCall (erases w'.log).head?).block = none ∨
      (o.toCall (erases w'.log).head?).block = some i) : OnBlock D i w (w'.after o r) := by
  have hother : ∀ j ≠ i, (o.toCall (erases w'.log).head?).block ≠ some j := by
    intro j hj he
    rcases ho with ho | ho <;> rw [ho] at he <;> cases he
    exact hj rfl
  refine ⟨fun j hj => ?_, fun j hj hf => (h.fresh j hj hf).other (hother j hj),
    fun ha => h.answered ha.tail⟩
  have htarget : o.target ≠ some j := fun ht =>
    hother j hj (by cases o <;> first | exact ht | cases ht)
  exact (after_flash_of_ne w' o r htarget).trans (h.others j hj)

/-- What a try with the result `err` leaves behind. -/
structure Tried (D : Outcomes) (F : ℕ → Page) (which : BtLlParttype) (p : BitVec 1) (i : ℕ)
    (minIoSize : ℕ) (err : ℤ) (w' : World) : Prop where
  works : err = 0 ↔ D.Works i
  room : D.Opens i → Btblock.size ≤ minIoSize
  block : Shows (w'.flash i).hdr (D.attempted F which p i)

section
variable {which : BtLlParttype} {p : BitVec 1}

/-- What an erase leaves that succeeds or does not spare the block. -/
theorem erase_hdr (w : World) (i : ℕ) {e : Outcome} (h : ¬ e.Spares) :
    ((w.after (.mtdErase i) e).flash i).hdr.magic ≠ .boot := by
  rw [after_flash, flashAfter, Function.update_self]
  split_ifs with hneg
  · rcases e with ⟨_, _ | pg | _⟩
    exacts [absurd ⟨hneg, rfl⟩ h, pg.2, Page.hdr_erased_magic]
  · exact Page.hdr_erased_magic

theorem erase_spares (w : World) (i : ℕ) {e : Outcome} (h : e.Spares) :
    (w.after (.mtdErase i) e).flash i = w.flash i := by
  rw [after_flash, flashAfter, Function.update_self, if_pos h.1, h.2]
  rfl

/-- `_do_write_bootblock`, after the block was checked. -/
theorem wp_write_outcomes {Q : ℤ → World → Prop} {w₀ : World} {now : BitVec 32}
    (hi : i < bc.info.ebCnt) (hb : bc.blocks i = updated (D.old F) which p.toNat now)
    (h₂ : OnBlock D i w₀ w) (hfresh : times (.mtdErase i) w.log = 0 ∧
      times (.malloc (some i)) w.log = 0 ∧ times (.mtdWrite i) w.log = 0)
    (hF : Answered D w₀.log → w.flash i = F i) (hbad : Answered D w.log → D (.mtdIsBad i) 1 = 0)
    (hinv : ∀ w, J.inv w) (hfault : ∀ w', (Answered D w'.log →
      Answered D w₀.log ∧ bc.info.minIoSize < Btblock.size ∧ D.Opens i) → J.stop .fault w')
    (hQ : ∀ err w', OnBlock D i w₀ w' →
      (Answered D w'.log → Tried D F which p i bc.info.minIoSize err w') → Q err w') :
    wp mtd J (doWriteBootblock bc i) Q w := by
  obtain ⟨herase, hpage, hwrite⟩ := hfresh
  rw [wp_doWriteBootblock hi]
  intro e _
  have h₃ : OnBlock D i w₀ (w.after (.mtdErase i) e) := h₂.after (o := .mtdErase i) e (Or.inr rfl)
  have he : Answered D (w.after (.mtdErase i) e).log → e = D (.mtdErase i) 0 := fun ha =>
    ha.erase herase
  refine ⟨hinv _, fun hneg => ?_, fun hpos m _ => ⟨hinv _, fun hm => ?_, fun hm =>
    ⟨fun hsmall => hfault _ fun ha => ?_, fun hsize o _ => ⟨hinv _, ?_⟩⟩⟩⟩
  · -- the erase fails
    refine hQ _ _ h₃ fun ha => ?_
    have hopens : ¬ D.Opens i := fun h => by
      have := h.2.1
      rw [← he ha] at this
      omega
    refine ⟨iff_of_false one_ne_zero fun h => hopens h.1, fun h => absurd h hopens, ?_⟩
    rw [Outcomes.attempted, if_neg fun h => hopens h.1, hbad ha.tail, ← he ha]
    by_cases hsp : e.Spares
    · rw [if_pos (Or.inr hsp), erase_spares w i hsp, hF (h₃.answered ha)]
      exact .refl _
    · rw [if_neg (by simp [hsp])]
      exact .of_not_boot (erase_hdr w i hsp)
  all_goals
    have h₄ : OnBlock D i w₀ ((w.after (.mtdErase i) e).after (.malloc bc.info.minIoSize) m) :=
      h₃.after (o := .malloc _) m (Or.inr rfl)
    have hmem : Answered D ((w.after (.mtdErase i) e).after (.malloc bc.info.minIoSize) m).log →
        m = D (.malloc (some i)) 0 := fun ha =>
      ha.malloc rfl ((times_other (by simp [Op.toCall])).trans hpage)
    have hspares : ¬ e.Spares := fun h => absurd h.1 hpos.not_gt
  · -- there is no memory
    refine hQ _ _ h₄ fun ha => ?_
    have hopens : ¬ D.Opens i := fun h => by
      have := (hmem ha).trans h.2.2
      rw [hm] at this
      cases this
    refine ⟨iff_of_false (by decide) fun h => hopens h.1, fun h => absurd h hopens, ?_⟩
    rw [Outcomes.attempted, if_neg fun h => hopens h.1, hbad ha.tail.tail, ← he ha.tail,
      if_neg (by simp [hspares])]
    exact .of_not_boot (erase_hdr w i hspares)
  · -- the page is too small
    refine ⟨h₄.answered ha, hsmall, hbad ha.tail.tail, ?_, ?_⟩
    · rw [← he ha.tail]
      exact hpos
    · rw [← hmem ha]
      exact hm
  · -- the write
    refine hQ _ _ (h₄.after (o := .mtdWrite i _) o (Or.inr rfl)) fun ha => ?_
    have ho : o = D (.mtdWrite i) 0 := ha.write
      ((times_other (by simp [Op.toCall])).trans
        ((times_other (by simp [Op.toCall])).trans hwrite))
    have hopens : D.Opens i := by
      refine ⟨hbad ha.tail.tail.tail, ?_, ?_⟩
      · rw [← he ha.tail.tail]
        exact hpos
      · rw [← hmem ha.tail]
        exact hm
    refine ⟨?_, fun _ => hsize, ?_⟩
    · rw [Outcomes.Works, ← ho, and_iff_right hopens]
      split_ifs <;> omega
    · have herased : ((w.after (.mtdErase i) e).after (.malloc bc.info.minIoSize) m).flash i =
          .erased := by
        rw [after_flash_calm _ _ rfl, erase_flash_of_ok w i hpos, Function.update_self]
      rw [Outcomes.attempted, hbad ha.tail.tail.tail, ← he ha.tail.tail, ← ho]
      rcases write_flash _ i bc.info.minIoSize (bc.blocks i) o herased with ⟨hn, hhdr⟩ | ⟨hs, hhdr⟩
      · rw [if_neg fun h => hn h.2, if_neg (by simp [hspares])]
        exact .of_not_boot hhdr
      · rw [if_pos ⟨hopens, hs⟩, hhdr, hb]
        exact .updated ..

/-- **A try**: `_update_bootblock` on the block `i`. -/
theorem wp_try {Q : ℤ × Bootconfig → World → Prop} (hi : i < bc.info.ebCnt)
    (hc : c < bc.info.ebCnt) (hfresh : Fresh i w.log)
    (hF : Answered D w.log → w.flash i = F i) (hgood : (bc.blocks i).magic ≠ .bad)
    (hold : bc.blocks c = D.old F)
    (hinv : ∀ w, J.inv w) (hfault : ∀ w', (Answered D w'.log →
      Answered D w.log ∧ bc.info.minIoSize < Btblock.size ∧ D.Opens i) → J.stop .fault w')
    (hQ : ∀ err bc' w', bc'.info = bc.info → bc'.initialised = bc.initialised →
      (∀ j ≠ i, bc'.blocks j = bc.blocks j) → OnBlock D i w w' →
      (Answered D w'.log → Tried D F which p i bc.info.minIoSize err w') → Q (err, bc') w') :
    wp mtd J (updateBootblock bc which p.toNat c i) Q w := by
  rw [wp_updateBootblock hi hc]
  refine ⟨fun hb => absurd hb hgood, fun _ now _ => ⟨hinv _, ?_⟩⟩
  rw [wp_writeErrorcheckBootblock (by simpa using hi)]
  have h₁ : OnBlock D i w (w.after .time now) := OnBlock.refl.after (o := .time) now (Or.inl rfl)
  have hfresh₁ : Fresh i (w.after .time now).log := hfresh.other (by simp [Op.toCall, Call.block])
  have hF₁ : Answered D w.log → (w.after .time now).flash i = F i := hF
  generalize w.after .time now = w₁ at h₁ hfresh₁ hF₁ ⊢
  intro r _
  have h₂ : OnBlock D i w (w₁.after (.mtdIsBad i) r) := h₁.after (o := .mtdIsBad i) r (Or.inr rfl)
  have hbad : Answered D (w₁.after (.mtdIsBad i) r).log → r = D (.mtdIsBad i) 1 := fun ha =>
    ha.isBad hfresh₁.isBad
  refine ⟨hinv _, fun hr => ?_, fun hr => ?_⟩
  · -- the block is bad, or cannot be checked
    refine hQ _ _ _ (by simp) (by simp) (fun j hj => setBlock_noteBad_ne _ _ _ hj) h₂ fun ha => ?_
    have hopens : ¬ D.Opens i := fun h => hr ((hbad ha).trans h.1)
    refine ⟨iff_of_false (fun h0 => hr (badCode_eq_zero.1 h0)) fun h => hopens h.1,
      fun h => absurd h hopens, ?_⟩
    rw [Outcomes.attempted, if_neg fun h => hopens h.1, if_pos (Or.inl (hbad ha ▸ hr))]
    exact (congrArg Page.hdr (hF₁ (h₂.answered ha))) ▸ .refl _
  · subst hr
    have hb : (bc.setBlock i (updated (bc.blocks c) which p.toNat now)).blocks i =
        updated (D.old F) which p.toNat now := by
      rw [← hold]
      simp
    refine wp_write_outcomes (by simpa using hi) hb h₂ ⟨?_, ?_, ?_⟩ hF₁
      (fun ha => (hbad ha).symm) hinv (by simpa using hfault) fun err w' h' htried => ⟨?_, ?_⟩
    · exact (times_other (by simp [Op.toCall])).trans hfresh₁.erase
    · exact (times_other (by simp [Op.toCall])).trans hfresh₁.page
    · exact (times_other (by simp [Op.toCall])).trans hfresh₁.write
    · -- a second check
      intro herr r' _
      refine ⟨hinv _, hQ _ _ _ (by simp) (by simp) (fun j hj => setBlock_noteBad_ne _ _ _ hj)
        (h'.after (o := .mtdIsBad i) r' (Or.inr rfl)) fun ha => ?_⟩
      have htry := htried ha.tail
      exact ⟨herr ▸ htry.works, htry.room, htry.block⟩
    · exact fun _ => hQ _ _ _ (by simp) (by simp)
        (fun j hj => by rw [Bootconfig.setBlock_blocks, Function.update_of_ne hj]) h' htried

/-! ## The walk around the ring -/

theorem upTo_of_pos {P : ℕ → Prop} [DecidablePred P] {is : List ℕ} (h : P i) :
    upTo P (i :: is) = [i] := if_pos h

theorem upTo_of_neg {P : ℕ → Prop} [DecidablePred P] {is : List ℕ} (h : ¬ P i) :
    upTo P (i :: is) = i :: upTo P is := if_neg h

/-- The blocks `done` were tried. -/
structure Done (D : Outcomes) (F : ℕ → Page) (which : BtLlParttype) (p : BitVec 1)
    (done : List ℕ) (w : World) : Prop where
  rest : ∀ i ∉ done, w.flash i = F i
  room : ∀ i ∈ done, D.Opens i → Btblock.size ≤ D.info.minIoSize
  left : ∀ i ∈ done, Shows (w.flash i).hdr (D.attempted F which p i)

theorem Done.snoc {done : List ℕ} {err : ℤ} (h : Done D F which p done w) (hi : i ∉ done)
    (hon : OnBlock D i w w') (ht : Tried D F which p i D.info.minIoSize err w') :
    Done D F which p (done ++ [i]) w' where
  rest j hj := by
    rw [List.mem_append, List.mem_singleton, not_or] at hj
    exact (hon.others j hj.2).trans (h.rest j hj.1)
  room j hj := by
    rcases List.mem_append.1 hj with hj | hj
    · exact h.room j hj
    · exact List.mem_singleton.1 hj ▸ ht.room
  left j hj := by
    rcases List.mem_append.1 hj with hj | hj
    · rw [hon.others j fun he => hi (he ▸ hj)]
      exact h.left j hj
    · exact List.mem_singleton.1 hj ▸ ht.block

/-- The update where the blocks `l` are still to be visited. -/
structure Walk (D : Outcomes) (F : ℕ → Page) (which : BtLlParttype) (p : BitVec 1)
    (bc : Bootconfig) (l : List ℕ) (bc' : Bootconfig) (w : World) : Prop where
  untried : Untried bc l bc'
  fresh : ∀ i ∈ l, Fresh i w.log
  known : Answered D w.log → ∃ done, (∀ i ∈ done, i ∉ l) ∧ Done D F which p done w ∧
    D.tried F = done ++ upTo D.Works (l.filter fun i => (D.mem F i).magic ≠ .bad)

theorem Walk.start (h : Inited D F bc w) :
    Walk D F which p bc (Ring.ring bc.info.ebCnt bc.startIdx) bc.startMem w where
  untried := .ring h.initialised (startIdx_lt h.pos)
  fresh i hi := h.log.fresh (h.info ▸ ((Ring.mem_ring (startIdx_lt h.pos)).1 hi).1)
  known _ := by
    refine ⟨[], by simp, ⟨fun i _ => congrFun h.flash i, by simp, by simp⟩, ?_⟩
    rw [h.info, h.startIdx]
    rfl

variable {bc' bc'' : Bootconfig} {is : List ℕ} {err : ℤ}

/-- A block that is marked is left out. -/
theorem Walk.skip (h : Walk D F which p bc (i :: is) bc' w) (hbad : (D.mem F i).magic = .bad) :
    Walk D F which p bc is bc' w where
  untried := h.untried.skip
  fresh j hj := h.fresh j (List.mem_cons_of_mem _ hj)
  known ha := by
    obtain ⟨done, hnot, hdone, htried⟩ := h.known ha
    refine ⟨done, fun j hj hjis => hnot j hj (List.mem_cons_of_mem _ hjis), hdone, ?_⟩
    rw [htried, List.filter_cons_of_neg (by simp [hbad])]

/-- A block is tried. -/
theorem Walk.attempt (h : Walk D F which p bc (i :: is) bc' w) (hgood : (D.mem F i).magic ≠ .bad)
    (hon : OnBlock D i w w')
    (ht : Answered D w'.log → Tried D F which p i D.info.minIoSize err w')
    (ha : Answered D w'.log) : ∃ done, (∀ j ∈ done, j ∉ is) ∧ Done D F which p done w' ∧
      D.tried F = done ++
        if err = 0 then [] else upTo D.Works (is.filter fun i => (D.mem F i).magic ≠ .bad) := by
  obtain ⟨done, hnot, hdone, htried⟩ := h.known (hon.answered ha)
  have hi : i ∉ done := fun hi => hnot i hi (List.mem_cons_self ..)
  refine ⟨done ++ [i], fun j hj hjis => ?_, hdone.snoc hi hon (ht ha), ?_⟩
  · rcases List.mem_append.1 hj with hj | hj
    · exact hnot j hj (List.mem_cons_of_mem _ hjis)
    · obtain rfl := List.mem_singleton.1 hj
      exact (List.nodup_cons.1 h.untried.nodup).1 hjis
  · rw [htried, List.filter_cons_of_pos (by simp [hgood]), List.append_assoc]
    congr 1
    by_cases herr : err = 0
    · rw [if_pos herr, upTo_of_pos ((ht ha).works.1 herr)]
      rfl
    · rw [if_neg herr, upTo_of_neg fun h => herr ((ht ha).works.2 h)]
      rfl

end

end MetaHipos
