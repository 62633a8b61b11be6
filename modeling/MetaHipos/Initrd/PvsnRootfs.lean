/-
  The root file system of a provisioning boot is signed.

  The commands of the script are not checked, but for `vgs` and `openssl`, and
  the verity mapping is opened after the root hash is accepted.  So whatever
  fails, nothing but this mapping of `pvsn_rootfs` is mounted as the root file
  system, and only its passwords are replaced.

  * `Calm`, `Calm.next`: what the other commands leave alone;
  * `Verified`: what holds throughout;
  * `pvsnRootfs_verified`: the main result.
-/
import MetaHipos.Initrd.PvsnLoss

namespace MetaHipos.Initrd.Provision

open Process Encrypt

section
variable {K B : Type} {p : Platform K B} {z : Tools B} {s t : Card B} {r : Resp B}
  {rootfsDir : String} {c : ProvCmd}

/-! ## Commands that do not mount the root file system -/

/-- The root file system and the mappings are as they were. -/
structure Calm (rootfsDir : String) (s t : Card B) : Prop where
  mountedOn : t.mountedOn rootfsDir = s.mountedOn rootfsDir
  verity : t.verity = s.verity
  bound : t.bound = s.bound
  accepted : s.accepted ⊆ t.accepted

theorem Calm.refl : Calm rootfsDir s s := ⟨rfl, rfl, rfl, List.Subset.refl _⟩

theorem Calm.trans {u : Card B} (h : Calm rootfsDir s t) (h' : Calm rootfsDir t u) :
    Calm rootfsDir s u :=
  ⟨h'.mountedOn.trans h.mountedOn, h'.verity.trans h.verity, h'.bound.trans h.bound,
    List.Subset.trans h.accepted h'.accepted⟩

theorem calm_write (d : Dev) (b : ℕ → B) : Calm rootfsDir s (s.write d b) := by
  cases d <;> exact ⟨rfl, rfl, rfl, List.Subset.refl _⟩

theorem calm_put (dir : String) (f : Files) : Calm rootfsDir s (s.put p dir f) := by
  rw [Card.put]
  split
  · split
    exacts [calm_write _ _, .refl]
  · exact .refl
  · exact ⟨rfl, rfl, rfl, List.Subset.refl _⟩

theorem calm_spoil (dir : String) (b : ℕ → B) : Calm rootfsDir s (s.spoil dir b) := by
  rw [Card.spoil]
  split
  exacts [calm_write _ _, .refl]

theorem calm_remount {dir : String} {m : Option (Dev × Bool)} (h : rootfsDir ≠ dir) :
    Calm rootfsDir s (s.remount dir m) :=
  ⟨Function.update_of_ne h .., rfl, rfl, List.Subset.refl _⟩

/-- A command that does not mount the root file system. -/
def Elsewhere (rootfsDir : String) : ProvCmd → Prop
  | .mount _ _ dir => rootfsDir ≠ dir
  | .umount dir => rootfsDir ≠ dir
  | .mountMove dir dir' => rootfsDir ≠ dir ∧ rootfsDir ≠ dir'
  | .veritysetupOpen .. => False
  | .mountBind .. => False
  | _ => True

theorem calm_success (hc : Elsewhere rootfsDir c) : Calm rootfsDir s (s.success p z r c) := by
  cases c with
  | mount ro d dir => exact calm_remount hc
  | umount dir => exact calm_remount hc
  | cpAll src dst =>
    rw [Card.success]
    split
    exacts [calm_put dst _, .refl]
  | cp file file' =>
    rw [Card.success]
    split
    exacts [calm_put _ _, .refl]
  | pvcreate d => exact ⟨rfl, rfl, rfl, List.Subset.refl _⟩
  | vgcreate d => exact ⟨rfl, rfl, rfl, List.Subset.refl _⟩
  | lvcreate d name size => exact ⟨rfl, rfl, rfl, List.Subset.refl _⟩
  | mkfsExt4 d =>
    rw [Card.success]
    split
    exacts [calm_write d _, .refl]
  | zcat file d =>
    rw [Card.success]
    split
    exacts [calm_write d _, .refl]
  | opensslVerify pubkey signature file =>
    rw [Card.success]
    split
    · exact ⟨rfl, rfl, rfl, List.subset_cons_self _ _⟩
    · exact .refl
  | veritysetupOpen file d label hashDevice => exact hc.elim
  | sed file =>
    rw [Card.success]
    split
    exacts [calm_put _ _, .refl]
  | mountBind file file' => exact hc.elim
  | mountMove dir dir' => exact (calm_remount hc.1).trans (calm_remount hc.2)
  | _ => exact .refl

theorem calm_failure : Calm rootfsDir s (s.failure p r c) := by
  cases c with
  | cpAll src dst => exact calm_spoil dst _
  | cp file file' => exact calm_spoil _ _
  | pvcreate d =>
    rw [Card.failure]
    split_ifs
    · exact ⟨rfl, rfl, rfl, List.Subset.refl _⟩
    · exact .refl
  | mkfsExt4 d => exact calm_write d _
  | zcat file d => exact calm_write d _
  | sed file => exact calm_spoil _ _
  | _ => exact .refl

/-- **What the other commands leave alone**, whether they succeed or not. -/
theorem Calm.next (hc : Elsewhere rootfsDir c) : Calm rootfsDir s ((card p z).next c r s) := by
  rw [next_eq]
  split_ifs
  exacts [calm_success hc, calm_failure]

/-! ## The invariant -/

/-- The label of the verity mapping. -/
def verityLabel : String := "verity-hydralvm-rootfs_a"

def roothashFile : FilePath := verityFile "rootfs_a" ".roothash"

/-- Nothing is mounted as the root file system, and nothing is mapped. -/
structure Unmounted (rootfsDir : String) (s : Card B) : Prop where
  rootfs : s.mountedOn rootfsDir = none
  verity : ∀ label, s.verity label = none
  bound : s.bound = []

/-- The mapping shows `pvsn_rootfs` as far as it matches a root hash that was
    accepted. -/
def Accepted (s : Card B) (m : Verity) : Prop :=
  m.data = .lv pvsnRootfs ∧
    ∃ signature, ⟨roothashPubkey, signature, m.file, m.rootHash⟩ ∈ s.accepted

/-- **What is mounted as the root file system is verified**, and only the
    passwords in it are replaced. -/
structure Verified (rootfsDir : String) (s : Card B) : Prop where
  rootfs : s.mountedOn rootfsDir = none ∨
    s.mountedOn rootfsDir = some (.verity verityLabel, true) ∧
      ∃ m, s.verity verityLabel = some m ∧ Accepted s m
  verity : ∀ label m, s.verity label = some m → Accepted s m
  bound : ∀ b ∈ s.bound, b = (⟨"/tmp", "etc_shadow"⟩, ⟨rootfsDir, "etc/shadow"⟩)

theorem Unmounted.verified (h : Unmounted rootfsDir s) : Verified rootfsDir s where
  rootfs := .inl h.rootfs
  verity label m hm := by
    rw [h.verity] at hm
    cases hm
  bound b hb := by
    rw [h.bound] at hb
    cases hb

theorem Unmounted.calm (h : Unmounted rootfsDir s) (ht : Calm rootfsDir s t) :
    Unmounted rootfsDir t :=
  ⟨ht.mountedOn.trans h.rootfs, fun l => by rw [ht.verity, h.verity], ht.bound.trans h.bound⟩

theorem Accepted.mono {m : Verity} (h : Accepted s m) (hsub : s.accepted ⊆ t.accepted) :
    Accepted t m := by
  obtain ⟨hdata, signature, hmem⟩ := h
  exact ⟨hdata, signature, hsub hmem⟩

theorem Verified.calm (h : Verified rootfsDir s) (ht : Calm rootfsDir s t) :
    Verified rootfsDir t where
  rootfs := by
    rw [ht.mountedOn, ht.verity]
    exact h.rootfs.imp_right fun ⟨hmnt, m, hm, hacc⟩ => ⟨hmnt, m, hm, hacc.mono ht.accepted⟩
  verity label m hm := by
    rw [ht.verity] at hm
    exact (h.verity label m hm).mono ht.accepted
  bound b hb := by
    rw [ht.bound] at hb
    exact h.bound b hb

/-! ## The script -/

/-- The directories that the script mounts on. -/
def mountDirs : List String :=
  ["/tmp/mnt", "/tmp/boot", mntKeystore, mntUserdata, mntProvisioning, mntDatastore]

/-- Whatever fails: the root file system is verified throughout, and nothing is
    mounted where the script stops. -/
def verifiedJudge (rootfsDir : String) : Judge ProvCmd (fun _ => Resp B) ℕ (Card B) where
  ok := anyResp
  inv := Verified rootfsDir
  stop _ := Unmounted rootfsDir

theorem wp_unmounted {α : Type} {q : Proc ProvCmd (fun _ => Result) ℕ α}
    (hq : q.Calls (Elsewhere rootfsDir)) (h : Unmounted rootfsDir s) :
    wp (card p z) (verifiedJudge rootfsDir) q (fun _ => Unmounted rootfsDir) s :=
  wp_judge (wp_calls (verifiedJudge rootfsDir) hq (fun _ _ _ hc h => h.calm (.next hc)) h)
    (fun _ _ h => h) (fun _ h => h.verified) fun _ _ h => h

theorem wp_verified {q : Script Unit} (hq : q.Calls (Elsewhere rootfsDir))
    (h : Verified rootfsDir s) :
    wp (card p z) (verifiedJudge rootfsDir) q (fun _ => Verified rootfsDir) s :=
  wp_calls (verifiedJudge rootfsDir) hq (fun _ _ _ hc h => h.calm (.next hc)) h

/-- `mount_volumes` up to the bind mount, … -/
def mountSources (rootfsDir : String) : Script Unit := do
  run (.mount false (.lv pvsnUserdata) mntUserdata)
  run (.mount false (.lv pvsnProvisioning) mntProvisioning)
  run (.mount false (.lv pvsnDatastore) mntDatastore)
  run (.cp ⟨rootfsDir, "etc/shadow"⟩ ⟨"/tmp", "etc_shadow"⟩)
  run (.sed ⟨"/tmp", "etc_shadow"⟩)

/-- … and after it. -/
def moveMounts (rootfsDir : String) : Script Unit := do
  run (.mountMove mntUserdata (rootfsDir ++ mntUserdata))
  run (.mountMove mntKeystore (rootfsDir ++ mntKeystore))
  run (.mountMove mntDatastore (rootfsDir ++ mntDatastore))
  run (.mountMove mntProvisioning (rootfsDir ++ mntProvisioning))

theorem mountVolumes_eq : mountVolumes rootfsDir = (do
    mountSources rootfsDir
    run (.mountBind ⟨"/tmp", "etc_shadow"⟩ ⟨rootfsDir, "etc/shadow"⟩)
    moveMounts rootfsDir) := rfl

theorem mountSources_cmds : mountSources rootfsDir = runAll ((mountCmds rootfsDir).take 5) := rfl

theorem moveMounts_cmds : moveMounts rootfsDir = runAll ((mountCmds rootfsDir).drop 6) := rfl

section
variable {dev lvmdev : String} (hroot : rootfsDir ∉ mountDirs)

include hroot

/-- The directories of the script are not that of the root file system. -/
theorem ne_of_mountDir {dir : String} (h : dir ∈ mountDirs) : rootfsDir ≠ dir := fun he =>
  hroot (he ▸ h)

theorem elsewhere_copyCmds : ∀ c ∈ copyCmds dev, Elsewhere rootfsDir c := by
  have hmnt : rootfsDir ≠ "/tmp/mnt" := ne_of_mountDir hroot (by decide)
  simp [copyCmds, Elsewhere, hmnt]

theorem elsewhere_fillCmds : ∀ c ∈ fillCmds dev, Elsewhere rootfsDir c := by
  have hboot : rootfsDir ≠ "/tmp/boot" := ne_of_mountDir hroot (by decide)
  have hkeystore : rootfsDir ≠ mntKeystore := ne_of_mountDir hroot (by decide)
  simp [fillCmds, fitimageCmds, Elsewhere, hboot, hkeystore]

theorem calls_prepareUnless {found : Bool} :
    (prepareUnless dev lvmdev found).Calls (Elsewhere rootfsDir) := by
  refine .ite trivial (Proc.Calls.bind ?_ fun _ => Proc.Calls.bind ?_ fun _ => ?_)
  · rw [copyArtifacts_cmds]
    exact calls_runAll (elsewhere_copyCmds hroot)
  · rw [createLvm_eq]
    refine (calls_run trivial).bind fun _ => (calls_run trivial).bind fun _ =>
      (calls_run trivial).bind fun _ => (calls_run trivial).bind fun _ =>
      (Proc.Calls.ask trivial).bind fun bytes => Proc.Calls.bind ?_ fun _ =>
      (calls_run trivial).bind fun _ => calls_run trivial
    refine calls_runAll fun c hc => ?_
    obtain ⟨v, -, rfl⟩ := List.mem_map.1 hc
    trivial
  · rw [fillVolumes_cmds]
    exact calls_runAll (elsewhere_fillCmds hroot)

theorem calls_mountSources : (mountSources rootfsDir).Calls (Elsewhere rootfsDir) := by
  have hne : ∀ dir ∈ mountDirs, rootfsDir ≠ dir := fun _ => ne_of_mountDir hroot
  rw [mountSources_cmds]
  refine calls_runAll ?_
  simp [mountCmds, Elsewhere, hne mntUserdata (by decide), hne mntProvisioning (by decide),
    hne mntDatastore (by decide)]

theorem calls_moveMounts : (moveMounts rootfsDir).Calls (Elsewhere rootfsDir) := by
  have hmove : ∀ dir ∈ mountDirs, dir ≠ "" →
      Elsewhere rootfsDir (.mountMove dir (rootfsDir ++ dir)) := fun dir hdir hne =>
    ⟨ne_of_mountDir hroot hdir, fun he => hne (String.append_eq_left_iff.1 he.symm)⟩
  rw [moveMounts_cmds]
  refine calls_runAll ?_
  simp only [mountCmds, List.drop_succ_cons, List.drop_zero, List.forall_mem_cons,
    List.not_mem_nil, false_imp_iff, implies_true, and_true]
  exact ⟨hmove _ (by decide) (by decide), hmove _ (by decide) (by decide),
    hmove _ (by decide) (by decide), hmove _ (by decide) (by decide)⟩

end

/-- The root hash is accepted. -/
def RoothashAccepted (p : Platform K B) (s : Card B) : Prop :=
  ∃ signature content, s.file p roothashFile = some content ∧
    ⟨roothashPubkey, signature, roothashFile, content⟩ ∈ s.accepted

/-- `openssl` accepts the root hash, or the script stops. -/
theorem next_opensslVerify {signature : FilePath} :
    ((card p z).reply (.opensslVerify roothashPubkey signature roothashFile) r s).ok = true →
      RoothashAccepted p
        ((card p z).next (.opensslVerify roothashPubkey signature roothashFile) r s) := by
  intro hok
  have hboth : (r.ok && s.possible p z (.opensslVerify roothashPubkey signature roothashFile)) =
      true := by
    by_contra hno
    rw [show (card p z).reply (.opensslVerify roothashPubkey signature roothashFile) r s =
      ⟨false, ""⟩ from if_neg hno] at hok
    cases hok
  have hpossible := (Bool.and_eq_true _ _ ▸ hboth).2
  rw [Card.possible, Bool.and_eq_true, Option.isSome_iff_exists, Option.isSome_iff_exists]
    at hpossible
  obtain ⟨⟨sig, hsig⟩, content, hcontent⟩ := hpossible
  rw [next_eq, if_pos hboth, Card.success, hsig, hcontent]
  exact ⟨sig, content, hcontent, List.mem_cons_self⟩

/-- The mapping, if it is opened, belongs to the accepted root hash. -/
theorem next_veritysetupOpen {hashDevice : FilePath} (h : Unmounted rootfsDir s)
    (hacc : RoothashAccepted p s) : Verified rootfsDir ((card p z).next
      (.veritysetupOpen roothashFile (.lv pvsnRootfs) verityLabel hashDevice) r s) := by
  obtain ⟨signature, content, hcontent, hmem⟩ := hacc
  rw [next_eq]
  split_ifs
  · rw [Card.success, hcontent]
    refine ⟨.inl h.rootfs, fun label m hm => ?_, h.verified.bound⟩
    replace hm : Function.update s.verity verityLabel
        (some ⟨.lv pvsnRootfs, roothashFile, content, hashDevice⟩) label = some m := hm
    by_cases hl : label = verityLabel
    · rw [hl, Function.update_self] at hm
      cases hm
      exact ⟨rfl, signature, hmem⟩
    · rw [Function.update_of_ne hl, h.verity] at hm
      cases hm
  · exact h.verified

/-- The root file system can only be mounted from a mapping. -/
theorem next_mountVerity (h : Verified rootfsDir s) :
    Verified rootfsDir ((card p z).next (.mount true (.verity verityLabel) rootfsDir) r s) := by
  rw [next_eq]
  split_ifs with hok
  · have hmapped : (s.content (.verity verityLabel)).isSome := by
      have hread := (Bool.and_eq_true _ _ ▸ hok).2
      exact Option.isSome_of_isSome_bind hread
    cases hm : s.verity verityLabel with
    | none =>
      rw [Card.content, hm] at hmapped
      cases hmapped
    | some m =>
      refine ⟨.inr ⟨Function.update_self .., m, hm, h.verity _ _ hm⟩, h.verity, h.bound⟩
  · exact h

theorem verifyMountRootfs_eq : verifyMountRootfs pvsnRootfs "rootfs_a" rootfsDir = (do
    let valid ← Proc.ask
      (.opensslVerify roothashPubkey (verityFile "rootfs_a" ".roothash.signature") roothashFile)
    if valid.ok = false then fail
    else do
      run (.veritysetupOpen roothashFile (.lv pvsnRootfs) verityLabel
        (verityFile "rootfs_a" ".hashdevice"))
      run (.mount true (.verity verityLabel) rootfsDir)) := rfl

/-- The root hash is accepted before the mapping is opened. -/
theorem wp_verifyMountRootfs (h : Unmounted rootfsDir s) :
    wp (card p z) (verifiedJudge rootfsDir) (verifyMountRootfs pvsnRootfs "rootfs_a" rootfsDir)
      (fun _ => Verified rootfsDir) s := by
  rw [verifyMountRootfs_eq]
  refine (wp_bind ..).2 fun r _ => ?_
  have hcalm := h.calm (.next (p := p) (z := z) (r := r) (c := .opensslVerify roothashPubkey
    (verityFile "rootfs_a" ".roothash.signature") roothashFile) trivial)
  refine ⟨hcalm.verified, ?_⟩
  cases hok : ((card p z).reply (.opensslVerify roothashPubkey
      (verityFile "rootfs_a" ".roothash.signature") roothashFile) r s).ok with
  | false => exact (wp_ite ..).2 ⟨fun _ => hcalm, fun hne => absurd hok hne⟩
  | true =>
    refine (wp_ite ..).2 ⟨fun hno => ?_, fun _ r' _ => ?_⟩
    · exact absurd (hno.symm.trans hok) Bool.false_ne_true
    have hopen : Verified rootfsDir ((card p z).next (.veritysetupOpen roothashFile
        (.lv pvsnRootfs) verityLabel (verityFile "rootfs_a" ".hashdevice")) r' _) :=
      next_veritysetupOpen hcalm (next_opensslVerify hok)
    exact ⟨hopen, fun r'' _ => ⟨next_mountVerity hopen, next_mountVerity hopen⟩⟩

/-- The bind mount of the passwords. -/
theorem next_mountBind (h : Verified rootfsDir s) : Verified rootfsDir
    ((card p z).next (.mountBind ⟨"/tmp", "etc_shadow"⟩ ⟨rootfsDir, "etc/shadow"⟩) r s) := by
  rw [next_eq]
  split_ifs
  · refine ⟨h.rootfs, h.verity, fun b hb => ?_⟩
    rcases List.mem_cons.1 hb with rfl | hb
    exacts [rfl, h.bound b hb]
  · exact h

/-- The script keeps the invariant. -/
theorem wp_hiposprovisioningRun {root : String} (hroot : rootfsDir ∉ mountDirs)
    (h : Unmounted rootfsDir s) :
    wp (card p z) (verifiedJudge rootfsDir) (hiposprovisioningRun rootfsDir root)
      (fun _ => Verified rootfsDir) s := by
  rw [hiposprovisioningRun_eq, wp_bind]
  refine wp_mono (wp_unmounted (calls_prepareMounts trivial fun _ => trivial) h) fun _ s h => ?_
  rw [wp_bind]
  refine wp_mono (wp_unmounted (.ask trivial) h) fun found s h => ?_
  rw [wp_bind]
  refine wp_mono (wp_unmounted (calls_prepareUnless hroot) h) fun _ s h => ?_
  rw [mountAll, wp_bind]
  refine wp_mono (wp_unmounted (calls_run (ne_of_mountDir hroot (by decide))) h) fun _ s h => ?_
  rw [wp_bind]
  refine wp_mono (wp_verifyMountRootfs h) fun _ s h => ?_
  rw [mountVolumes_eq, wp_bind]
  refine wp_mono (wp_verified (calls_mountSources hroot) h) fun _ s h => ?_
  rw [wp_bind]
  refine wp_mono (Q := fun _ => Verified rootfsDir) (fun r _ => ?_) fun _ s h => ?_
  · exact ⟨next_mountBind h, next_mountBind h⟩
  · exact wp_verified (calls_moveMounts hroot) h

/-- **Whatever fails, only a verified root file system is mounted**: throughout
    the script, what is on `rootfsDir` is the verity mapping of `pvsn_rootfs`,
    read-only, with a root hash that was accepted, and only its passwords are
    replaced.  Where the script stops nothing is mounted there. -/
theorem pvsnRootfs_verified {root : String} (hroot : rootfsDir ∉ mountDirs) (hoff : Off s)
    (ω : Oracle fun _ : ProvCmd => Resp B) :
    (∀ n, Verified rootfsDir (cut (card p z) n (hiposprovisioningRun rootfsDir root) s ω)) ∧
    Verified rootfsDir (exec (card p z) (hiposprovisioningRun rootfsDir root) s ω).2.1 ∧
    ∀ e s' ω', exec (card p z) (hiposprovisioningRun rootfsDir root) s ω = (.stopped e, s', ω') →
      s'.mountedOn rootfsDir = none := by
  have hs : Unmounted rootfsDir s := ⟨hoff.mountedOn _, hoff.verity, hoff.bound⟩
  have hwp : wp (card p z) (verifiedJudge rootfsDir) (hiposprovisioningRun rootfsDir root)
      (fun _ => Verified rootfsDir) s := wp_hiposprovisioningRun hroot hs
  have hend := wp_exec hwp (ω := ω) fun _ _ => trivial
  refine ⟨fun n => wp_cut hwp hs.verified (fun _ _ => trivial) n, ?_, fun e s' ω' he => ?_⟩
  · cases hrun : (exec (card p z) (hiposprovisioningRun rootfsDir root) s ω).1 with
    | done a =>
      rw [hrun] at hend
      exact hend
    | stopped e =>
      rw [hrun] at hend
      exact Unmounted.verified hend
  · rw [he] at hend
    exact Unmounted.rootfs hend

end

/-- Every command succeeds that can. -/
def allWell : Oracle fun _ : ProvCmd => Resp (Option Files × Bool) :=
  fun _ _ => ⟨true, disk Files.none, false⟩

set_option maxRecDepth 10000 in
/-- A card on which everything goes well: its root file system is mounted. -/
theorem pvsnRootfs_verified_mounted :
    let run := exec (card smallPlatform smallTools) (hiposprovisioningRun "/rootfs" smallRoot)
      smallCard allWell
    run.2.1.mountedOn "/rootfs" = some (.verity verityLabel, true) ∧
      ∃ m, run.2.1.verity verityLabel = some m ∧ Accepted run.2.1 m := by
  intro run
  have hmounted : run.2.1.mountedOn "/rootfs" = some (.verity verityLabel, true) := by decide
  have hverified : Verified "/rootfs" run.2.1 :=
    (pvsnRootfs_verified (by decide) smallCard_off allWell).2.1
  rcases hverified.rootfs with hnone | ⟨-, h⟩
  · rw [hmounted] at hnone
    cases hnone
  · exact ⟨hmounted, h⟩

end MetaHipos.Initrd.Provision
