/-
  The library on flash devices of any geometry.

  The number of blocks and the size of a page come from the device.  A model
  of the library stops with `fault` where the source would access a block
  outside of its array or copy a header past the end of a page, so a run is
  safe if it does not end there.

  * `safe_client`: with pages that hold a header, no client gets there, and
    only whole headers are written;
  * `index_length_safe_iff`: smaller pages are not safe, unless there are no
    blocks at all.
-/
import MetaHipos.Bootconfig.Client
import MetaHipos.Bootconfig.Reading

namespace MetaHipos

open LittleEndian Process Newest

/-- `mtd_get_dev_info` reports nothing but `info`; everything else is free. -/
def Reports (info : MtdDevInfo) : (o : Op) → Resp o → Prop
  | .mtdGetDevInfo _, r => 0 ≤ r.1 → r.2 = info
  | _, _ => True

/-- What was erased and written: existing blocks, and pages that start with a
    whole header. -/
structure WholePages (info : MtdDevInfo) (log : List Event) : Prop where
  erases : ∀ i ∈ erases log, i < info.ebCnt
  writes : ∀ x ∈ writes log, x.1 < info.ebCnt ∧ x.2.length = info.minIoSize ∧
    ∃ b : Btblock, b.bytes <+: x.2

section
variable {info : MtdDevInfo} {w : World} {i : ℕ}

theorem wholePages_nil : WholePages info [] := ⟨by simp [erases], by simp [writes]⟩

theorem WholePages.calm (h : WholePages info w.log) {o : Op} (r : Resp o) (ho : o.target = none) :
    WholePages info (w.after o r).log := by
  constructor
  · rw [after_log, erases_other r w.log ho]; exact h.erases
  · rw [after_log, writes_other r w.log ho]; exact h.writes

theorem WholePages.erase (h : WholePages info w.log) (hi : i < info.ebCnt) (r : Outcome) :
    WholePages info (w.after (.mtdErase i) r).log := by
  constructor
  · intro j hj
    rcases List.mem_cons.1 hj with rfl | hj
    · exact hi
    · exact h.erases j hj
  · exact h.writes

theorem WholePages.write (h : WholePages info w.log) (hi : i < info.ebCnt)
    (hio : Btblock.size ≤ info.minIoSize) (b : Btblock) (r : Outcome) :
    WholePages info (w.after (.mtdWrite i (pageOf info.minIoSize b)) r).log := by
  constructor
  · exact h.erases
  · intro x hx
    rcases List.mem_cons.1 hx with rfl | hx
    · refine ⟨hi, ?_, b, List.prefix_append ..⟩
      rw [pageOf, List.length_append, List.length_replicate, Btblock.length_bytes]
      omega
    · exact h.writes x hx

end

/-- The judgement of a safe run: it may exit, but neither fault nor hang. -/
def safeJudge (info : MtdDevInfo) : Judge Op Resp Stop World where
  ok := Reports info
  inv w := WholePages info w.log
  stop e w := (∃ status, e = .exit status) ∧ WholePages info w.log

/-- The memory of a client: not initialised, or of this geometry. -/
structure SafeMem (info : MtdDevInfo) (bc : Bootconfig) (w : World) : Prop where
  pages : WholePages info w.log
  info : bc.initialised = true → bc.info = info ∧ 0 < info.ebCnt

section
variable {info : MtdDevInfo} {bc : Bootconfig} {w : World} {which : BtLlParttype} {p i c : ℕ}
  {tgt : Target}

theorem safeJudge_calm : Calm (safeJudge info) := fun _ _ r ho _ h => h.calm r ho

/-! ## Each operation is safe -/

theorem safe_readBootconfig {Q : ℤ × Bootconfig → World → Prop} (h : WholePages info w.log)
    (hQ : ∀ code bc' w', WholePages info w'.log → bc'.info = bc.info →
      bc'.initialised = bc.initialised → (0 ≤ code → 0 < bc.info.ebCnt) → Q (code, bc') w') :
    wp mtd (safeJudge info) (readBootconfig bc) Q w := by
  refine wp_reading (fun _ _ _ => True) rfl safeJudge_calm h (fun _ _ _ _ _ => trivial)
    (fun _ _ _ _ _ => trivial) (fun _ _ _ _ _ => trivial) fun code bc' w' hw' hread => ?_
  refine hQ code bc' w' hw' hread.info hread.initialised fun hpos => ?_
  rcases hread.code with ⟨-, i, hi, -⟩ | ⟨hneg, -⟩
  · exact Nat.zero_lt_of_lt hi
  · omega

theorem safe_init {Q : Bootconfig → World → Prop} {flag : Bool} {dev : String}
    (h : WholePages info w.log) (hQ : ∀ bc w', SafeMem info bc w' → 0 < info.ebCnt → Q bc w') :
    wp mtd (safeJudge info) (bcLlInit flag dev) Q w := by
  refine wp_bcLlInit safeJudge_calm h (fun _ _ _ _ _ h => ⟨⟨1, rfl⟩, h⟩) fun fd r hr hpos hi => ?_
  obtain rfl : r.2 = info := hr hpos
  refine safe_readBootconfig hi fun code bc' w' hw' hinfo _ hn => ⟨fun _ => ⟨⟨1, rfl⟩, hw'⟩, ?_⟩
  intro hcode
  exact hQ _ _ ⟨hw', fun _ => ⟨hinfo, hn hcode⟩⟩ (hn hcode)

theorem safe_reread {Q : ℤ × Bootconfig → World → Prop} (h : SafeMem info bc w)
    (hinit : bc.initialised = true) (hQ : ∀ code bc' w', SafeMem info bc' w' →
      bc'.initialised = true → Q (code, bc') w') :
    wp mtd (safeJudge info) (bcLlReread tgt bc) Q w := by
  obtain ⟨hinfo, hn⟩ := h.info hinit
  rw [wp_bcLlReread hinit]
  exact safe_readBootconfig h.pages fun code bc' w' hw' hinfo' hini _ =>
    hQ code bc' w' ⟨hw', fun _ => ⟨hinfo'.trans hinfo, hn⟩⟩ (hini.trans hinit)

/-- Where a header fits into a page, a block is written without a fault. -/
theorem safe_doWriteBootblock {Q : ℤ → World → Prop} (hio : Btblock.size ≤ info.minIoSize)
    (h : WholePages info w.log) (hinfo : bc.info = info) (hi : i < info.ebCnt)
    (hQ : ∀ err w', WholePages info w'.log → Q err w') :
    wp mtd (safeJudge info) (doWriteBootblock bc i) Q w := by
  subst hinfo
  rw [wp_doWriteBootblock hi]
  intro e _
  have h1 := h.erase hi e
  refine ⟨h1, fun _ => hQ _ _ h1, fun _ m _ => ?_⟩
  have h2 := h1.calm (o := .malloc bc.info.minIoSize) m rfl
  refine ⟨h2, fun _ => hQ _ _ h2, fun _ => ⟨fun hlt => absurd hlt (by omega), fun _ o _ => ?_⟩⟩
  have h3 := h2.write hi hio (bc.blocks i) o
  exact ⟨h3, hQ _ _ h3⟩

theorem safe_updateBootblock {Q : ℤ × Bootconfig → World → Prop}
    (hio : Btblock.size ≤ info.minIoSize) (h : WholePages info w.log) (hinfo : bc.info = info)
    (hi : i < info.ebCnt) (hc : c < info.ebCnt)
    (hQ : ∀ err bc' w', WholePages info w'.log → bc'.info = info →
      bc'.initialised = bc.initialised → Q (err, bc') w') :
    wp mtd (safeJudge info) (updateBootblock bc which p c i) Q w := by
  have hi' : i < bc.info.ebCnt := hinfo ▸ hi
  rw [wp_updateBootblock hi' (hinfo ▸ hc)]
  refine ⟨fun _ => hQ _ _ _ h hinfo rfl, fun _ now _ => ?_⟩
  have h1 := h.calm (o := .time) now rfl
  refine ⟨h1, ?_⟩
  rw [wp_writeErrorcheckBootblock (by exact hi')]
  intro r _
  have h2 := h1.calm (o := .mtdIsBad i) r rfl
  refine ⟨h2, fun _ => hQ _ _ _ h2 (by simpa using hinfo) (by simp), fun _ => ?_⟩
  refine safe_doWriteBootblock hio h2 hinfo hi fun err w' h3 => ⟨fun _ r' _ => ?_, fun _ => ?_⟩
  · have h4 := h3.calm (o := .mtdIsBad i) r' rfl
    exact ⟨h4, hQ _ _ _ h4 (by simpa using hinfo) (by simp)⟩
  · exact hQ _ _ _ h3 hinfo rfl

theorem safe_setPartition {Q : ℤ × Bootconfig → World → Prop} (hio : Btblock.size ≤ info.minIoSize)
    (h : SafeMem info bc w) (hinit : bc.initialised = true) (hp : p ≤ 1)
    (hQ : ∀ err bc' w', SafeMem info bc' w' → Q (err, bc') w') :
    wp mtd (safeJudge info) (bcLlSetPartition tgt bc which p) Q w := by
  obtain ⟨hinfo, hn⟩ := h.info hinit
  have hstart : bc.startIdx < info.ebCnt := hinfo ▸ startIdx_lt (hinfo.symm ▸ hn)
  refine wp_bcLlSetPartition (fun _ bc' w' => WholePages info w'.log ∧ bc'.info = info ∧
    bc'.initialised = true) hinit hp (by rw [hinfo]) hstart (fun _ _ _ h => by rw [h.2.1]) ?_ ?_ ?_
  · rintro i is bc' w' hi hne ⟨hw', hinfo', hini'⟩
    refine safe_updateBootblock hio hw' hinfo' hi hstart fun err bc'' w'' hw'' hinfo'' hini'' => ?_
    have hini := hini''.trans hini'
    split_ifs
    · exact safe_reread ⟨hw'', fun _ => ⟨hinfo'', hn⟩⟩ hini fun _ bc₃ w₃ h₃ _ => hQ _ _ _ h₃
    · exact ⟨hw'', hinfo'', hini⟩
  · rintro bc' w' ⟨hw', hinfo', -⟩
    exact hQ _ _ _ ⟨hw', fun _ => ⟨hinfo', hn⟩⟩
  · exact ⟨h.pages, startMem_info.trans hinfo, startMem_initialised.trans hinit⟩

theorem safe_setCurrentHealthy {Q : ℤ × Bootconfig → World → Prop}
    (hio : Btblock.size ≤ info.minIoSize) (h : SafeMem info bc w) (hinit : bc.initialised = true)
    (hQ : ∀ err bc' w', SafeMem info bc' w' → Q (err, bc') w') :
    wp mtd (safeJudge info) (setCurrentHealthy which bc) Q w := by
  obtain ⟨rfl, hn⟩ := h.info hinit
  rw [setCurrentHealthy, wp_bind, wp_bcLlGetCurrent hinit]
  cases hcur : currentIdx bc.blocks bc.info.ebCnt with
  | none => exact hQ _ _ _ h
  | some i =>
    have hi := currentIdx_lt hcur
    rw [wp_setHealthyOf hinit hi rfl]
    refine ⟨fun _ m _ => ?_, fun _ => hQ _ _ _ h⟩
    have h1 := h.pages.calm (o := .malloc bc.info.minIoSize) m rfl
    refine ⟨h1, fun _ => hQ _ _ _ ⟨h1, fun _ => ⟨rfl, hn⟩⟩, fun _ =>
      ⟨fun hlt => absurd hlt (by omega), fun _ o _ => ?_⟩⟩
    have h2 := h1.write hi hio ((bc.blocks i).markHealthy which) o
    exact ⟨h2, hQ _ _ _ ⟨h2, fun _ => ⟨rfl, hn⟩⟩⟩

/-! ## All runs -/

/-- **One call** of the library, from any memory of a client. -/
theorem safe_step {Q : ℤ × Bootconfig → World → Prop} (x : LibCall)
    (hio : info.ebCnt = 0 ∨ Btblock.size ≤ info.minIoSize) (h : SafeMem info bc w)
    (hQ : ∀ err bc' w', SafeMem info bc' w' → Q (err, bc') w') :
    wp mtd (safeJudge info) (x.run tgt bc) Q w := by
  have hexit : (safeJudge info).stop (.exit 1) w := ⟨⟨1, rfl⟩, h.pages⟩
  have hio' : bc.initialised = true → Btblock.size ≤ info.minIoSize := by
    intro hinit
    have := (h.info hinit).2
    exact hio.resolve_left (by omega)
  cases x with
  | init dev =>
    rw [LibCall.run, wp_bind]
    exact safe_init h.pages fun bc' w' hm _ => hQ _ _ _ hm
  | reread =>
    cases hinit : bc.initialised with
    | false => rw [LibCall.run, bcLlReread, if_pos hinit]; exact hexit
    | true => exact safe_reread h hinit fun _ _ _ hm _ => hQ _ _ _ hm
  | setPartition y =>
    cases hinit : bc.initialised with
    | false => rw [LibCall.run, bcLlSetPartition, if_pos hinit]; exact hexit
    | true => exact safe_setPartition (hio' hinit) h hinit y.le hQ
  | setHealthy which =>
    cases hinit : bc.initialised with
    | false =>
      rw [LibCall.run, setCurrentHealthy, wp_bind, bcLlGetCurrent, if_pos hinit]; exact hexit
    | true => exact safe_setCurrentHealthy (hio' hinit) h hinit hQ

/-- **All calls.** -/
theorem safe_client (hio : info.ebCnt = 0 ∨ Btblock.size ≤ info.minIoSize) (calls : List LibCall)
    (h : SafeMem info bc w) :
    wp mtd (safeJudge info) (client tgt calls bc) (SafeMem info) w := by
  induction calls generalizing bc w with
  | nil => exact h
  | cons x calls ih =>
    rw [client, wp_bind]
    exact safe_step x hio h fun _ bc' w' hm => ih hm

end

/-- A run of the library operations on a device of the geometry `info`: it
    neither leaves the arrays of the source nor hangs, and whatever was written
    so far at any point of it are pages with a whole header. -/
def SafeRun (tgt : Target) (info : MtdDevInfo) (calls : List LibCall) (flash : ℕ → Page)
    (ω : Oracle Resp) : Prop :=
  let run := client tgt calls (.zeroed false)
  (exec mtd run ⟨flash, []⟩ ω).1 ≠ .stopped .fault ∧
  (exec mtd run ⟨flash, []⟩ ω).1 ≠ .stopped .hang ∧
  ∀ n, WholePages info (cut mtd n run ⟨flash, []⟩ ω).log

/-! ## Pages that are too small -/

/-- A device whose first block holds a config that is not marked as healthy. -/
def firstBlock : ℕ → Page := flashOf [{ dummyBlock with magic := .boot, epoch := 5 }]

theorem versions_firstBlock (j : ℕ) :
    (firstBlock j).hdr.version = if j = 0 then some 5 else none := by
  cases j with
  | zero => decide
  | succ j => exact (by decide : Page.erased.hdr.version = none)

/-- Marking its image as healthy writes past the end of a smaller page. -/
theorem small_page_faults (tgt : Target) {info : MtdDevInfo} (hn : 0 < info.ebCnt)
    (hio : info.minIoSize < Btblock.size) :
    ¬ SafeRun tgt info [.init "/dev/mtd1", .setHealthy .kernel] firstBlock
      fun _ => nominal (fun _ => false) info := by
  rintro ⟨hfault, -⟩
  have hwp : wp mtd ⟨Fine (fun _ => false) info, fun _ => True, fun e _ => e = .fault⟩
      (client tgt [.init "/dev/mtd1", .setHealthy .kernel] (.zeroed false)) (fun _ _ => False)
      ⟨firstBlock, []⟩ := by
    rw [client, wp_bind, LibCall.run, wp_bind]
    refine wp_init_fine (fun _ _ _ _ _ _ => trivial) trivial (fun _ _ h => h) ⟨0, hn, rfl⟩ ?_
    rintro bc w' - rfl hinit hq hS
    have hblk : ∀ j < bc.info.ebCnt, bc.blocks j = (firstBlock j).hdr := by
      intro j hj
      have := hS j hj
      rw [hq.flash] at this
      exact this
    have hcur : currentIdx bc.blocks bc.info.ebCnt = some 0 := by
      refine currentIdx_of_isNewest (v := 5) (.write_first hn ?_ fun j hj h0 => ?_)
      · rw [versions, hblk 0 hn, versions_firstBlock]; rfl
      · rw [versions, hblk j hj, versions_firstBlock, if_neg h0]
    change wp mtd _ (client tgt [.setHealthy .kernel] bc) _ w'
    rw [client, wp_bind, LibCall.run, setCurrentHealthy, wp_bind, wp_bcLlGetCurrent hinit, hcur]
    refine (wp_setHealthyOf hinit hn rfl).2 ⟨fun _ m hm => ⟨trivial, fun h0 => ?_, fun _ =>
      ⟨fun _ => rfl, fun hle => absurd hle (by omega)⟩⟩, fun hbit => ?_⟩
    · have : m = true := hm
      rw [h0] at this; cases this
    · rw [hblk 0 hn] at hbit
      exact absurd (by decide) hbit
  have hend := wp_exec hwp (ω := fun _ => nominal (fun _ => false) info)
    fun _ o => nominal_fine _ _ o
  generalize exec mtd (client tgt [.init "/dev/mtd1", .setHealthy .kernel] (.zeroed false))
    ⟨firstBlock, []⟩ (fun _ => nominal (fun _ => false) info) = x at hfault hend
  obtain ⟨_ | e, w', ω'⟩ := x
  · exact hend
  · exact hfault (congrArg _ hend)

/-- **All runs on a geometry are safe exactly if** a header fits into a page,
    or there are no blocks. -/
theorem index_length_safe_iff (tgt : Target) (info : MtdDevInfo) :
    (∀ calls flash ω, (∀ n o, Reports info o (ω n o)) → SafeRun tgt info calls flash ω) ↔
      info.ebCnt = 0 ∨ Btblock.size ≤ info.minIoSize := by
  constructor
  · intro h
    by_contra hio
    rw [not_or, not_le] at hio
    refine small_page_faults tgt (Nat.pos_of_ne_zero hio.1) hio.2 (h _ _ _ fun _ o => ?_)
    have hfine := nominal_fine (fun _ => false) info o
    cases o with
    | mtdGetDevInfo dev => exact fun _ => hfine.2
    | _ => exact trivial
  · intro hio calls flash ω hω
    have h0 : SafeMem info (.zeroed false) ⟨flash, []⟩ :=
      ⟨wholePages_nil, fun h => by cases h⟩
    have hwp : wp mtd (safeJudge info) (client tgt calls (.zeroed false)) (SafeMem info)
        ⟨flash, []⟩ := safe_client hio calls h0
    have hend := wp_exec hwp hω
    refine ⟨fun h => ?_, fun h => ?_, fun n => wp_cut hwp h0.pages hω n⟩
    · rw [h] at hend
      obtain ⟨⟨_, he⟩, -⟩ := hend
      cases he
    · rw [h] at hend
      obtain ⟨⟨_, he⟩, -⟩ := hend
      cases he

/-- With pages of one byte, as NOR flash has them, a mark is written past the
    end of its page. -/
theorem one_byte_page_faults :
    ¬ SafeRun ⟨4, Or.inl rfl⟩ ⟨2, 1⟩ [.init "/dev/mtd1", .setHealthy .kernel] firstBlock
      fun _ => nominal (fun _ => false) ⟨2, 1⟩ :=
  small_page_faults _ (by decide) (by decide)

end MetaHipos
