/-
  The whole of what `bc_ll_set_partition` does.

  Starting after the current block, it goes around the ring of blocks, passes
  over those marked as bad without a call, and tries one block after the other
  until one could be written.

  * `wp_setPartition_visits`: the blocks it visits and the calls it makes;
  * `setPartition_spec`: the order of the visits, where they end, and the
    header that is written.
-/
import MetaHipos.Bootconfig.Attempts
import MetaHipos.Process.Session

namespace MetaHipos

open LittleEndian Process Newest

/-! ## Visits -/

/-- The blocks other than `c`: `c + 1`, `c + 2`, …, `c - 1` modulo `n`. -/
def othersFrom (n c : ℕ) : List ℕ := (List.range (n - 1)).map fun k => (c + 1 + k) % n

theorem othersFrom_eq {n c : ℕ} (hc : c < n) : othersFrom n c = Ring.ring n c := by
  rw [Ring.ring_eq hc, othersFrom]
  refine List.ext_getElem (by simp; omega) fun k hk _ => ?_
  rw [List.length_map, List.length_range] at hk
  rw [List.getElem_map, List.getElem_range]
  rcases Nat.lt_or_ge k (n - 1 - c) with h | h
  · rw [List.getElem_append_left (by simpa using h), List.getElem_range',
      Nat.mod_eq_of_lt (by omega)]
    omega
  · rw [List.getElem_append_right (by simpa using h), List.getElem_range,
      show c + 1 + k = k - (n - 1 - c) + n by omega, Nat.add_mod_right,
      Nat.mod_eq_of_lt (by omega), List.length_range']

/-- An attempt to update a block, and whether it was written. -/
structure Visit where
  block : ℕ
  ok : Bool
  calls : List Event

/-- The calls of visits, the latest first. -/
def callsOf (visits : List Visit) : List Event := (visits.reverse.map Visit.calls).flatten

theorem callsOf_snoc (visits : List Visit) (v : Visit) :
    callsOf (visits ++ [v]) = v.calls ++ callsOf visits := by
  simp [callsOf]

theorem mem_callsOf {visits : List Visit} {e : Event} :
    e ∈ callsOf visits ↔ ∃ v ∈ visits, e ∈ v.calls := by
  simp [callsOf]

/-- How the visits of a call end, and what it returns then. -/
inductive Ends : ℤ → List Visit → Prop
  | written (visits : List Visit) (v : Visit) :
      (∀ u ∈ visits, u.ok = false) → v.ok = true → Ends 0 (visits ++ [v])
  | gaveUp (visits : List Visit) : (∀ u ∈ visits, u.ok = false) → Ends (-1) visits

section
variable {ret : ℤ} {visits : List Visit} {v : Visit}

/-- A visit that wrote its block is the last one. -/
theorem Ends.last (h : Ends ret visits) (hv : v ∈ visits) (hok : v.ok = true) :
    ret = 0 ∧ ∃ vs, visits = vs ++ [v] := by
  cases h with
  | written vs u hno _ =>
    rcases List.mem_append.1 hv with hv | hv
    · exact absurd hok (by simp [hno v hv])
    · rw [List.mem_singleton.1 hv]
      exact ⟨rfl, vs, rfl⟩
  | gaveUp _ hno => exact absurd hok (by simp [hno v hv])

theorem Ends.eq_nil_of_split {vs vs' : List Visit} (h : Ends ret visits)
    (hsplit : visits = vs ++ v :: vs') (hok : v.ok = true) : vs' = [] := by
  cases h with
  | written us u hno _ =>
    rcases snoc_eq_split hsplit with ⟨-, -, rfl⟩ | ⟨ws, -, rfl⟩
    · rfl
    · exact absurd hok (by simp [hno v (by simp)])
  | gaveUp _ hno => exact absurd hok (by simp [hno v (by simp [hsplit])])

theorem Ends.eq_zero_iff (h : Ends ret visits) : ret = 0 ↔ ∃ v ∈ visits, v.ok = true := by
  constructor
  · rintro rfl
    cases h with
    | written vs v _ hv => exact ⟨v, by simp, hv⟩
  · rintro ⟨v, hv, hok⟩
    exact (h.last hv hok).1

theorem Ends.eq_neg_one_iff (h : Ends ret visits) :
    ret = -1 ↔ ∀ v ∈ visits, v.ok = false := by
  constructor
  · rintro rfl
    cases h with
    | gaveUp _ hno => exact hno
  · intro hno
    cases h with
    | written vs v _ hv => exact absurd hv (by simp [hno v (by simp)])
    | gaveUp => rfl

end

/-- The header made from `old` at the time `now`: the magic, the next epoch, the
    time, the partition `p` and two flags of the image `which`; all else is
    that of `old`. -/
structure NextHeader (old : Btblock) (which : BtLlParttype) (p : ℕ) (now : BitVec 32)
    (b : Btblock) : Prop where
  magic : b.magic = .boot
  epoch : b.epoch.toNat = old.epoch.toNat + 1
  timestamp : b.timestamp = now
  reserved : (b.info which).reserved = (old.info which).reserved
  partition : (b.info which).partition.toNat = p
  nBooted : (b.info which).nBooted = 1
  nHealthy : (b.info which).nHealthy = 1
  other : b.info which.other = old.info which.other

theorem updated_nextHeader {old : Btblock} (which : BtLlParttype) {p : ℕ} (now : BitVec 32)
    (he : old.epoch.toNat < 2 ^ 32 - 1) (hp : p ≤ 1) :
    NextHeader old which p now (updated old which p now) := by
  have hnext := updated_isNext old which hp now
  refine ⟨hnext.magic, by rw [hnext.epoch, toNat_succ he], ?_, ?_, hnext.partition, ?_, ?_,
    hnext.other⟩
  all_goals cases which <;> rfl

/-- The visits `bc_ll_set_partition` makes from the memory `bc` in the world `w`,
    where `ring` are the other blocks in order. -/
structure Visited (bc : Bootconfig) (which : BtLlParttype) (p c : ℕ) (w : World)
    (visits : List Visit) (w' : World) : Prop where
  calls : ∀ v ∈ visits,
    AttemptCalls v.block bc.info.minIoSize (updated (bc.blocks c) which p) v.ok v.calls
  world : w' = w.play (callsOf visits)

/-- The blocks that are not marked as bad. -/
def unmarked (bc : Bootconfig) (l : List ℕ) : List ℕ :=
  l.filter fun i => (bc.blocks i).magic ≠ .bad

section
variable {J : Judge Op Resp Stop World} {bc : Bootconfig} {w w' : World} {which : BtLlParttype}
  {p c i : ℕ} {visits : List Visit} {tgt : Target}

theorem Visited.snoc (h : Visited bc which p c w visits w') {ok : Bool} {evs : List Event}
    (hcalls : AttemptCalls i bc.info.minIoSize (updated (bc.blocks c) which p) ok evs) :
    Visited bc which p c w (visits ++ [⟨i, ok, evs⟩]) (w'.play evs) := by
  constructor
  · intro v hv
    rcases List.mem_append.1 hv with hv | hv
    · exact h.calls v hv
    · rw [List.mem_singleton.1 hv]; exact hcalls
  · rw [callsOf_snoc, play_append, ← h.world]

/-- Blocks that are not visited are left alone. -/
theorem Visited.flash (h : Visited bc which p c w visits w') {j : ℕ}
    (hj : j ∉ visits.map Visit.block) : w'.flash j = w.flash j := by
  rw [h.world]
  refine play_flash_of_ne fun e he => ?_
  obtain ⟨v, hv, hev⟩ := mem_callsOf.1 he
  refine (h.calls v hv).target (fun h => hj ?_) e hev
  rw [h]
  exact List.mem_map_of_mem hv

theorem unmarked_append (l l' : List ℕ) :
    unmarked bc (l ++ l') = unmarked bc l ++ unmarked bc l' := List.filter_append ..

/-- **The visits of `bc_ll_set_partition`**, whatever fails: it gives up after
    all blocks that are not marked, or ends at the first one it could write;
    then it reads all blocks again. -/
theorem wp_setPartition_visits {Q : ℤ × Bootconfig → World → Prop} (hinv : ∀ w, J.inv w)
    (hinit : bc.initialised = true) (hp : p ≤ 1) (hio : Btblock.size ≤ bc.info.minIoSize)
    (hcur : currentIdx bc.blocks bc.info.ebCnt = some c)
    (hnone : ∀ visits bc' w', Visited bc which p c w visits w' → (∀ v ∈ visits, v.ok = false) →
      visits.map Visit.block = unmarked bc (Ring.ring bc.info.ebCnt c) → Q (-1, bc') w')
    (hsome : ∀ visits v after bc' w', Visited bc which p c w (visits ++ [v]) w' →
      (∀ v ∈ visits, v.ok = false) → v.ok = true →
      (visits ++ [v]).map Visit.block <+: unmarked bc (Ring.ring bc.info.ebCnt c) →
      (∀ e ∈ after, e.1.target = none) → Q (0, bc') (w'.play after)) :
    wp mtd J (bcLlSetPartition tgt bc which p) Q w := by
  have hc := currentIdx_lt hcur
  obtain ⟨hidx, hmem⟩ := start_of_current hcur
  have hstart : bc.startIdx < bc.info.ebCnt := hidx ▸ hc
  refine wp_bcLlSetPartition (fun l bc' w' => Untried bc l bc' ∧
    ∃ pre visits, Ring.ring bc.info.ebCnt c = pre ++ l ∧
      visits.map Visit.block = unmarked bc pre ∧ Visited bc which p c w visits w' ∧
      ∀ v ∈ visits, v.ok = false) hinit hp rfl hstart (fun _ _ _ h => by rw [h.1.info])
    ?_ ?_ ?_
  · rintro i is bc' w' hi hne ⟨hmemory, pre, visits, hpre, hmap, hvis, hno⟩
    have hinfo := hmemory.info
    have hblkc : bc'.blocks c = bc.blocks c := by rw [← hidx, hmemory.start, hmem]
    rw [hidx]
    have hi' : i < bc'.info.ebCnt := hinfo.symm ▸ hi
    have hstep : unmarked bc (pre ++ [i]) = if (bc.blocks i).magic = .bad then unmarked bc pre
        else unmarked bc pre ++ [i] := by
      rw [unmarked_append]
      by_cases hm : (bc.blocks i).magic = .bad <;> simp [unmarked, hm]
    refine wp_updateBootblock_calls hinv hi' (hinfo.symm ▸ hc) (hinfo.symm ▸ hio) ?_ ?_
    · -- a marked block is passed over
      intro hm
      rw [hmemory.head] at hm
      refine ⟨hmemory.skip, pre ++ [i], visits, by rw [hpre]; simp, ?_, hvis, hno⟩
      rw [hstep, if_pos hm, hmap]
    · intro hm ok evs err bc'' hcalls _ herr hinfo'' hini'' hothers
      rw [hmemory.head] at hm
      rw [hinfo, hblkc] at hcalls
      have hvis' := hvis.snoc hcalls
      have hmap' : (visits ++ [(⟨i, ok, evs⟩ : Visit)]).map Visit.block =
          unmarked bc (pre ++ [i]) := by
        rw [hstep, if_neg hm, List.map_append, hmap]; rfl
      cases ok with
      | false =>
        have hne0 : err ≠ 0 := fun h => by cases herr.1 h
        simp only [hne0, if_false]
        refine ⟨hmemory.tried hne hinfo'' hini'' hothers, pre ++ [i], _, by rw [hpre]; simp, hmap',
          hvis', fun v hv => ?_⟩
        rcases List.mem_append.1 hv with hv | hv
        · exact hno v hv
        · rw [List.mem_singleton.1 hv]
      | true =>
        simp only [herr.2 rfl, if_true]
        have hpfx : (visits ++ [(⟨i, true, evs⟩ : Visit)]).map Visit.block <+:
            unmarked bc (Ring.ring bc.info.ebCnt c) := by
          rw [hmap', hpre, show pre ++ i :: is = pre ++ [i] ++ is by simp,
            unmarked_append (pre ++ [i])]
          exact List.prefix_append ..
        rw [wp_bcLlReread (hini''.trans hmemory.initialised)]
        -- while it reads, the calls are remembered
        let J' : Judge Op Resp Stop World := ⟨J.ok, fun w'' => ∃ after,
          w'' = (w'.play evs).play after ∧ ∀ e ∈ after, e.1.target = none, J.stop⟩
        refine wp_judge (J := J') ?_ (fun _ _ h => h) (fun _ _ => hinv _) (fun _ _ h => h)
        refine wp_reading (fun _ _ _ => True) rfl ?_ ⟨[], rfl, by simp⟩ (fun _ _ _ _ _ => trivial)
          (fun _ _ _ _ _ => trivial) (fun _ _ _ _ _ => trivial) ?_
        · rintro w'' o r ho _ ⟨after, rfl, hafter⟩
          refine ⟨⟨o, r⟩ :: after, rfl, fun e he => ?_⟩
          rcases List.mem_cons.1 he with rfl | he
          exacts [ho, hafter e he]
        · rintro code bc₃ w₃ ⟨after, rfl, hafter⟩ _
          exact hsome visits _ after bc₃ _ hvis' hno rfl hpfx hafter
  · rintro bc' w' ⟨-, pre, visits, hpre, hmap, hvis, hno⟩
    rw [List.append_nil] at hpre
    exact hnone visits bc' w' hvis hno (hpre ▸ hmap)
  · exact ⟨.ring hinit hstart, [], [], by rw [hidx]; rfl, rfl, ⟨by simp, rfl⟩, by simp⟩

/-- **The full specification of `bc_ll_set_partition`** where there is a current
    config, in the block `c`.

    The other blocks are visited in order, each of them once at most, and those
    marked as bad are left out.  All visits but the last one fail, and the call
    returns `0` if the last one wrote its block; otherwise it returns `-1` after
    it visited all of them.  What is written is made from the block `c`. -/
theorem setPartition_spec (flash : ℕ → Page) (ω : Oracle Resp) (hinit : bc.initialised = true)
    (hio : Btblock.size ≤ bc.info.minIoSize) (hp : p ≤ 1)
    (hcur : currentIdx bc.blocks bc.info.ebCnt = some c)
    (he : (bc.blocks c).epoch.toNat < 2 ^ 32 - 1) :
    ∃ ret bc' w ω' visits after,
      exec mtd (bcLlSetPartition tgt bc which p) ⟨flash, []⟩ ω = (.done (ret, bc'), w, ω') ∧
      -- the calls
      w = World.play ⟨flash, []⟩ (after ++ callsOf visits) ∧ (∀ e ∈ after, e.1.target = none) ∧
      (∀ v ∈ visits, AttemptCalls v.block bc.info.minIoSize
        (updated (bc.blocks c) which p) v.ok v.calls) ∧
      -- their order, and where they end
      visits.map Visit.block <+: unmarked bc (othersFrom bc.info.ebCnt c) ∧
      (visits.map Visit.block).Nodup ∧
      (∀ vs v vs', visits = vs ++ v :: vs' → v.ok = true → vs' = []) ∧
      (ret = 0 ↔ ∃ v ∈ visits, v.ok = true) ∧
      (ret = -1 ↔ ∀ v ∈ visits, v.ok = false) ∧
      (ret = -1 → visits.map Visit.block = unmarked bc (othersFrom bc.info.ebCnt c)) ∧
      -- what is on flash then
      (∀ j, j ∉ visits.map Visit.block → w.flash j = flash j) ∧
      (∀ now, NextHeader (bc.blocks c) which p now (updated (bc.blocks c) which p now)) ∧
      ∀ v ∈ visits, v.ok = true → ∃ now, (w.flash v.block).hdr =
        updated (bc.blocks c) which p now := by
  have hc := currentIdx_lt hcur
  have hnd : (unmarked bc (Ring.ring bc.info.ebCnt c)).Nodup := (Ring.nodup_ring hc).filter _
  have hwp : wp mtd ⟨fun _ _ => True, fun _ => True, fun _ _ => False⟩
      (bcLlSetPartition tgt bc which p) (fun rb w => ∃ visits after,
        Visited bc which p c ⟨flash, []⟩ visits (World.play ⟨flash, []⟩ (callsOf visits)) ∧
        w = World.play ⟨flash, []⟩ (after ++ callsOf visits) ∧ (∀ e ∈ after, e.1.target = none) ∧
        visits.map Visit.block <+: unmarked bc (Ring.ring bc.info.ebCnt c) ∧
        Ends rb.1 visits ∧ (rb.1 = -1 →
          visits.map Visit.block = unmarked bc (Ring.ring bc.info.ebCnt c))) ⟨flash, []⟩ := by
    refine wp_setPartition_visits (fun _ => trivial) hinit hp hio hcur ?_ ?_
    · rintro visits bc' w' hvis hno hmap
      have hw := hvis.world
      exact ⟨visits, [], hw ▸ hvis, hw, by simp, hmap ▸ List.prefix_rfl, .gaveUp visits hno,
        fun _ => hmap⟩
    · rintro visits v after bc' w' hvis hno hv hpfx hafter
      have hw := hvis.world
      refine ⟨visits ++ [v], after, hw ▸ hvis, ?_, hafter, hpfx, .written visits v hno hv,
        fun h => absurd h (by simp)⟩
      rw [play_append, ← hw]
  have hend := wp_exec hwp (ω := ω) fun _ _ => trivial
  generalize exec mtd (bcLlSetPartition tgt bc which p) ⟨flash, []⟩ ω = x at hend ⊢
  obtain ⟨⟨ret, bc'⟩ | e, w, ω'⟩ := x
  · obtain ⟨visits, after, hvis, hw, hafter, hpfx, hends, hmap⟩ := hend
    change w = World.play ⟨flash, []⟩ (after ++ callsOf visits) at hw
    have hflash : ∀ j, w.flash j = (World.play ⟨flash, []⟩ (callsOf visits)).flash j := by
      intro j
      rw [hw, play_append]
      exact play_flash_of_ne fun e he => by simp [hafter e he]
    rw [othersFrom_eq hc]
    refine ⟨ret, bc', w, ω', visits, after, rfl, hw, hafter, hvis.calls, hpfx,
      hpfx.sublist.nodup hnd, fun _ _ _ => hends.eq_nil_of_split, hends.eq_zero_iff,
      hends.eq_neg_one_iff, hmap, fun j hj => (hflash j).trans (hvis.flash hj),
      fun now => updated_nextHeader which now he hp, fun v hv hok => ?_⟩
    obtain ⟨-, vs, rfl⟩ := hends.last hv hok
    have hcalls := hvis.calls v hv
    rw [hok] at hcalls
    rw [callsOf_snoc, play_append] at hflash
    obtain ⟨now, hpage⟩ := hcalls.flash (World.play ⟨flash, []⟩ (callsOf vs))
    refine ⟨now, ?_⟩
    rw [hflash, hpage]
    exact Page.hdr_program_erased (prefix_pageOf ..)
  · exact hend.elim

end

/-- Where nothing fails, the next block is written. -/
theorem setPartition_spec_nominal : ∃ bc' w ω', exec mtd
    (bcLlSetPartition ⟨4, Or.inl rfl⟩ twoMem .kernel 1) ⟨twoBlocks, []⟩ (checkAnswers 0) =
      (.done (0, bc'), w, ω') ∧
    ∃ now, (w.flash 1).hdr = updated (twoMem.blocks 0) .kernel 1 now := by
  obtain ⟨ret, bc', w, ω', visits, after, hrun, -, -, -, hpfx, -, -, hret, -, -, -, -, hhdr⟩ :=
    @setPartition_spec twoMem .kernel 1 0 ⟨4, Or.inl rfl⟩ twoBlocks (checkAnswers 0) rfl
      (by decide) (by decide) (by decide) (by decide)
  obtain ⟨bc₁, w₁, ω₁, hrun₁⟩ : ∃ bc₁ w₁ ω₁, exec mtd (bcLlSetPartition ⟨4, Or.inl rfl⟩ twoMem
      .kernel 1) ⟨twoBlocks, []⟩ (checkAnswers 0) = (.done (0, bc₁), w₁, ω₁) := ⟨_, _, _, rfl⟩
  obtain rfl : ret = 0 := by
    rw [hrun₁] at hrun
    exact congrArg Prod.fst (End.done.inj (congrArg Prod.fst hrun)).symm
  obtain ⟨v, hv, hok⟩ := hret.1 rfl
  have hblock : v.block = 1 := by
    have h := hpfx.subset (List.mem_map_of_mem hv)
    simpa [show unmarked twoMem (othersFrom twoMem.info.ebCnt 0) = [1] by decide] using h
  have hflash := hhdr v hv hok
  rw [hblock] at hflash
  exact ⟨bc', w, ω', hrun, hflash⟩

end MetaHipos
