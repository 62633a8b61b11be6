/-
  Cards that cannot be provisioned any more.

  Once the artifacts are gone nothing is copied, and the size of the image is not
  known.  If a volume is missing then, either there is a volume group, and no boot
  creates volumes, or there is none, and `lvcreate` gets no size for the volumes of
  the root file systems, which stay missing.

  * `Broken`: a volume is missing and the artifacts are gone;
  * `Empty`: what such a boot finds in memory;
  * `Boots.broken`, `Broken.boot_missing`: a broken card stays broken.
-/
import MetaHipos.Initrd.PvsnLoss

namespace MetaHipos.Initrd.Provision

open Process Encrypt

section
variable {K B : Type} {p : Platform K B} {z : Tools B} {s s' s₀ : Card B}
  {rootfsDir lvmdev : String}

/-- The artifacts are gone, but not all volumes are there. -/
def Broken (p : Platform K B) (lvmdev : String) (s : Card B) : Prop :=
  Gone p lvmdev s ∧ ∃ v ∈ names, s.lv v = none

/-- There is nothing to be copied, and no volume of the size that would be
    found. -/
structure Empty (p : Platform K B) (lvmdev : String) (s : Card B) : Prop where
  gone : GoneRo p lvmdev s
  rootfs : s.lv "rootfs_a" = none
  mountedOn : s.mountedOn "/tmp/mnt" = none ∧ s.mountedOn "/tmp/provisioning" = none
  tmpfs : s.tmpfs "/tmp/mnt" = Files.none ∧ s.tmpfs "/tmp/provisioning" = Files.none

/-- An idle command has an answer. -/
theorem wpCut_ask {J : Judge ProvCmd (fun _ => Resp B) ℕ (Card B)} {c : ProvCmd}
    {Q : Result → Card B → Prop} (hc : Idle c) (hs : J.inv s)
    (h : ∀ r, J.ok c r → Q ((card p z).reply c r s) s) :
    wpCut (card p z) J anyResp (Proc.ask c) Q s := by
  refine ⟨fun r _ => ?_, fun r hr => ?_⟩
  · rwa [next_idle hc]
  · show Q _ ((card p z).next c r s)
    rw [next_idle hc]
    exact h r hr

/-- The commands up to the volumes, when nothing was copied. -/
def CreatesNothing (lvmdev : String) (c : ProvCmd) : Prop :=
  Idle c ∨ c = .mount true (.part lvmdev) "/tmp/mnt" ∨ c = .cpAll "/tmp/mnt" "/tmp/provisioning" ∨
    c = .umount "/tmp/mnt" ∨ c = .pvcreate lvmdev ∨ c = .vgcreate lvmdev ∨
    ∃ v ∈ volumes "", c = .lvcreate lvmdev v.1 v.2

theorem Empty.next {c : ProvCmd} {r : Resp B} (h : Empty p lvmdev s)
    (hc : CreatesNothing lvmdev c) : Empty p lvmdev ((card p z).next c r s) := by
  rcases hc with hc | rfl | rfl | rfl | rfl | rfl | ⟨v, hv, rfl⟩
  · rwa [next_idle hc]
  · -- there is no file system to be mounted
    have hno : s.possible p z (.mount true (.part lvmdev) "/tmp/mnt") = false := by
      show ((s.part lvmdev).bind p.read).isSome = false
      rw [show (s.part lvmdev).bind p.read = none from h.gone.1.artifacts]
      rfl
    rwa [next_eq, hno, Bool.and_false, if_neg Bool.false_ne_true]
  · have hfiles : s.files p "/tmp/mnt" = some Files.none := by
      rw [Card.files, h.mountedOn.1]
      exact congrArg some h.tmpfs.1
    rw [next_eq]
    split_ifs
    · rw [Card.success]
      simp only [hfiles, Card.put, h.mountedOn.2]
      refine ⟨⟨⟨h.gone.1.artifacts, h.gone.1.lv⟩, h.gone.2⟩, h.rootfs, h.mountedOn, ?_, ?_⟩
      · have hne : "/tmp/mnt" ≠ "/tmp/provisioning" := by decide
        show Function.update s.tmpfs "/tmp/provisioning" (Files.none.onto
          (s.tmpfs "/tmp/provisioning")) "/tmp/mnt" = _
        rw [Function.update_of_ne hne]
        exact h.tmpfs.1
      · show Function.update s.tmpfs "/tmp/provisioning" _ "/tmp/provisioning" = _
        rw [Function.update_self, h.tmpfs.2]
        rfl
    · rw [Card.failure, Card.spoil, h.mountedOn.2]
      exact h
  · have hsame : (card p z).next (.umount "/tmp/mnt") r s = s ∨
        (card p z).next (.umount "/tmp/mnt") r s = s.remount "/tmp/mnt" none := by
      rw [next_eq]
      split_ifs
      exacts [.inr rfl, .inl rfl]
    have hnone : s.remount "/tmp/mnt" none = s := by
      rw [Card.remount, ← h.mountedOn.1, Function.update_eq_self]
    rw [hnone, or_self] at hsame
    rwa [hsame]
  · obtain ⟨hvg, hlv, hmount⟩ := pvcreate_same lvmdev (p := p) (z := z) (r := r) (s := s)
    have htmpfs : ((card p z).next (.pvcreate lvmdev) r s).tmpfs = s.tmpfs := by
      rw [next_eq]
      split_ifs
      · rfl
      · rw [Card.failure]
        split_ifs <;> rfl
    exact ⟨h.gone.pvcreate, by rw [hlv]; exact h.rootfs, by rw [hmount]; exact h.mountedOn,
      by rw [htmpfs]; exact h.tmpfs⟩
  · have hgone := h.gone.next (z := z) (r := r) (c := .vgcreate lvmdev) (.inr (.inr (.inl rfl)))
    rw [next_eq] at hgone ⊢
    split_ifs at hgone ⊢
    · exact ⟨hgone, h.rootfs, h.mountedOn, h.tmpfs⟩
    · exact h
  · have hgone := h.gone.next (z := z) (r := r) (c := .lvcreate lvmdev v.1 v.2)
      (.inr (.inr (.inr ⟨_, _, rfl⟩)))
    have hsize : ∀ v ∈ volumes "", v.1 = "rootfs_a" → v.2 = "B" := by decide
    rw [next_eq] at hgone ⊢
    split_ifs at hgone ⊢ with hok
    · refine ⟨hgone, ?_, h.mountedOn, h.tmpfs⟩
      have hne : "rootfs_a" ≠ v.1 := by
        intro he
        rw [Card.possible, hsize v hv he.symm, Bool.and_eq_true, Bool.and_eq_true] at hok
        exact absurd hok.2.2 (by decide)
      exact (Function.update_of_ne hne ..).trans h.rootfs
    · exact h

theorem only_copyArtifacts_nothing {dev : String} (hdev : dev ++ "p4" = lvmdev) :
    (copyArtifacts dev).Only (CreatesNothing lvmdev) := by
  rw [copyArtifacts_cmds]
  exact only_runAll (by simp [copyCmds, CreatesNothing, hdev])

theorem only_lvcreates :
    (runAll ((volumes "").map fun v => .lvcreate lvmdev v.1 v.2)).Only (CreatesNothing lvmdev) := by
  refine only_runAll fun c hc => ?_
  obtain ⟨v, hv, rfl⟩ := List.mem_map.1 hc
  exact .inr (.inr (.inr (.inr (.inr (.inr ⟨v, hv, rfl⟩)))))

/-- A card with a missing volume, in a boot. -/
def Missing (p : Platform K B) (lvmdev : String) (s : Card B) : Prop :=
  GoneRo p lvmdev s ∧ ∃ v ∈ names, s.lv v = none

theorem Empty.missing (h : Empty p lvmdev s) : Missing p lvmdev s :=
  ⟨h.gone, "rootfs_a", by decide, h.rootfs⟩

theorem Missing.loss (h : Missing p lvmdev s) (hloss : Loss s s') : Broken p lvmdev s' := by
  obtain ⟨v, hv, hnone⟩ := h.2
  exact ⟨h.1.loss hloss, v, hv, ((Keeps.refl h.1.2).loss hloss).lv_none hnone⟩

theorem Missing.next {c : ProvCmd} {r : Resp B} (h : Missing p lvmdev s) (hc : Harmless lvmdev c) :
    Missing p lvmdev ((card p z).next c r s) := by
  obtain ⟨v, hv, hnone⟩ := h.2
  exact ⟨h.1.next (.inl hc), v, hv, ((Keeps.refl h.1.2).next hc).lv_none hnone⟩

/-- Wherever a boot of a broken card is cut, the next one finds it broken. -/
def brokenJudge (p : Platform K B) (lvmdev : String) :
    Judge ProvCmd (fun _ => Resp B) ℕ (Card B) :=
  bootJudge (fun s => Off s ∧ Broken p lvmdev s) (Missing p lvmdev)

theorem Missing.inv (h : Missing p lvmdev s) : (brokenJudge p lvmdev).inv s :=
  fun _ hloss => ⟨hloss.off, h.loss hloss⟩

theorem wpCut_missing {q : Script Unit} (hq : q.Only (Harmless lvmdev))
    (h : Missing p lvmdev s) :
    wpCut (card p z) (brokenJudge p lvmdev) anyResp q (fun _ => Missing p lvmdev) s :=
  wpCut_only hq (fun _ _ _ hc h => h.next hc) (fun _ h => h.inv) (fun _ _ h => h) h

theorem wpCut_empty {q : Script Unit} (hq : q.Only (CreatesNothing lvmdev))
    (h : Empty p lvmdev s) :
    wpCut (card p z) (brokenJudge p lvmdev) anyResp q (fun _ => Empty p lvmdev) s :=
  wpCut_only hq (fun _ _ _ hc h => h.next hc) (fun _ h => h.missing.inv)
    (fun _ _ h => h.missing) h

/-- The size of the image is not known. -/
theorem Empty.tail {r : Resp B} (h : Empty p lvmdev s) :
    (card p z).reply (.tail (artifact fileRootfsGz)) r s = ⟨false, ""⟩ := by
  have hfile : s.file p (artifact fileRootfsGz) = none := by
    rw [Card.file, Card.files, artifact, h.mountedOn.2, h.tmpfs.2]
    rfl
  simp [card, Card.possible, hfile]

/-- `prepare_sdcard` without artifacts does not create all volumes. -/
theorem wpCut_prepareSdcard {dev : String} (hdev : dev ++ "p4" = lvmdev)
    (h : Empty p lvmdev s) :
    wpCut (card p z) (brokenJudge p lvmdev) anyResp (prepareSdcard dev lvmdev)
      (fun _ => Missing p lvmdev) s := by
  have hpv : CreatesNothing lvmdev (.pvcreate lvmdev) := .inr (.inr (.inr (.inr (.inl rfl))))
  have hvg : CreatesNothing lvmdev (.vgcreate lvmdev) :=
    .inr (.inr (.inr (.inr (.inr (.inl rfl)))))
  rw [prepareSdcard, createLvm_eq, createVolumes]
  simp only [wpCut_bind]
  refine wpCut_mono (wpCut_empty (only_copyArtifacts_nothing hdev) h) fun _ s h => ?_
  refine wpCut_mono (wpCut_empty (only_run (.inl trivial)) h) fun _ s h => ?_
  refine wpCut_mono (wpCut_empty (only_run (.inl trivial)) h) fun _ s h => ?_
  refine wpCut_mono (wpCut_empty (only_run hpv) h) fun _ s h => ?_
  refine wpCut_mono (wpCut_empty (only_run hvg) h) fun _ s h => ?_
  refine wpCut_ask trivial h.missing.inv fun r _ => ?_
  rw [h.tail]
  refine wpCut_mono (wpCut_empty only_lvcreates h) fun _ s h => ?_
  refine wpCut_mono (wpCut_empty (only_run (.inl trivial)) h) fun _ s h => ?_
  refine wpCut_mono (wpCut_empty (only_run (.inl trivial)) h) fun _ s h => ?_
  exact wpCut_missing (only_fillVolumes hdev) h.missing

/-- **A boot of a broken card** leaves it broken. -/
theorem wpCut_broken (hdev : devOf lvmdev ++ "p4" = lvmdev) (hoff : Off s)
    (hbroken : Broken p lvmdev s) :
    wpCut (card p z) (brokenJudge p lvmdev) anyResp (hiposprovisioningRun rootfsDir lvmdev)
      (fun _ => Missing p lvmdev) s := by
  have hmissing : Missing p lvmdev s := ⟨⟨hbroken.1, hoff.ro⟩, hbroken.2⟩
  have hsame : wpCut (card p z) (brokenJudge p lvmdev) anyResp prepareMounts
      (fun _ t => t = s) s := by
    refine wpCut_only (calls_prepareMounts trivial fun _ => trivial).only
      (fun o r t hc ht => (next_idle hc).trans ht) (fun t ht => ?_) (fun _ t ht => ?_) rfl
    · rw [ht]
      exact hmissing.inv
    · rw [ht]
      exact hmissing
  rw [hiposprovisioningRun_eq, wpCut_bind]
  refine wpCut_mono hsame fun _ t ht => ?_
  subst ht
  rw [wpCut_bind]
  refine wpCut_ask trivial hmissing.inv fun r hr => ?_
  rw [wpCut_bind]
  rcases hbroken.1.lv with ⟨hvg, hlv⟩ | hvg
  · -- no volume group: the card is prepared, without artifacts
    have hreply : (card p z).reply (.vgs lvmdev) r t = ⟨false, ""⟩ := by
      simp [card, Card.possible, hvg]
    have hempty : Empty p lvmdev t := ⟨⟨hbroken.1, hoff.ro⟩, hlv _,
      ⟨hoff.mountedOn _, hoff.mountedOn _⟩, hoff.tmpfs _, hoff.tmpfs _⟩
    rw [hreply]
    refine wpCut_mono (wpCut_prepareSdcard hdev hempty) fun _ t h => ?_
    exact wpCut_missing only_mountAll h
  · have hreply : (card p z).reply (.vgs lvmdev) r t = ⟨true, ""⟩ := by
      simp [card, Card.possible, Card.output, hvg, show r.ok = true from hr]
    rw [hreply]
    exact wpCut_missing only_mountAll hmissing

/-- A broken card stays broken, … -/
theorem Boots.broken (h : Boots p z rootfsDir lvmdev s₀ s) (hdev : devOf lvmdev ++ "p4" = lvmdev)
    (hoff : Off s₀) (hbroken : Broken p lvmdev s₀) : Off s ∧ Broken p lvmdev s := by
  refine Outages.invariant h (fun s => Off s ∧ Broken p lvmdev s) ⟨hoff, hbroken⟩ ?_
    fun s hs => wpCut_broken hdev hs.1 hs.2
  rintro s s' ⟨hoff, hs⟩ hloss
  exact ⟨hloss.off, Missing.loss ⟨⟨hs.1, hoff.ro⟩, hs.2⟩ hloss⟩

/-- … and so does a boot that is not cut. -/
theorem Broken.boot_missing (hdev : devOf lvmdev ++ "p4" = lvmdev) (hoff : Off s)
    (hbroken : Broken p lvmdev s) {ω : Oracle fun _ : ProvCmd => Resp B}
    (hω : ∀ n c, (ω n c).ok = true) :
    Missing p lvmdev (exec (card p z) (hiposprovisioningRun rootfsDir lvmdev) s ω).2.1 := by
  have hwp : wpCut (card p z) (brokenJudge p lvmdev) anyResp
      (hiposprovisioningRun rootfsDir lvmdev) (fun _ => Missing p lvmdev) s :=
    wpCut_broken hdev hoff hbroken
  have hend := wp_exec (wp_of_wpCut hwp) hω
  cases hrun : (exec (card p z) (hiposprovisioningRun rootfsDir lvmdev) s ω).1 with
  | done a =>
    rw [hrun] at hend
    exact hend
  | stopped e =>
    rw [hrun] at hend
    exact hend

end

end MetaHipos.Initrd.Provision
