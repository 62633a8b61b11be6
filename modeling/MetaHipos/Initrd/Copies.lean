/-
  Complete copies of the source volumes.

  A pattern fixes which commands of a run fail.  Where the commands that a copy
  depends on succeed, the copy is complete, whatever the other commands do and
  whatever the volume held before.

  * `patternJudge`: the runs of a pattern;
  * `Populates`, `Clones`, `CreatesKey`: the commands a step depends on;
  * `wp_encryptAndPopulate`, `wp_encryptAndClone`, `wp_createKey`: the steps;
  * `wp_hiposencryptCopy`: all of them.
-/
import MetaHipos.Initrd.Untouched

namespace MetaHipos.Initrd.Encrypt

open Process

section
variable {K B : Type} {p : Platform K B} {s : Host K B} {P : Issued → Outcome}

/-! ## Patterns of failures -/

/-- The runs whose commands succeed or fail as in `P`. -/
def patternJudge (K B : Type) (P : Issued → Outcome) :
    Judge Issued (fun _ => Resp K B) ℕ (Host K B) where
  ok c r := r.outcome = P c
  inv _ := True
  stop _ _ := False

/-- A response that leaves nothing behind where the command fails. -/
def quietResp (p : Platform K B) (P : Issued → Outcome) (k : K) (c : Issued) : Resp K B where
  outcome := P c
  key := k
  blob := none
  keyFile := none
  content := p.blank

/-- The command of a step is not made to fail. -/
def Succeeds (P : Issued → Outcome) (step : String) (cmd : EncryptCmd) : Prop :=
  (P ⟨step, cmd⟩).ok = true

/-- A command that is issued succeeds or fails. -/
theorem wp_issue {J : Judge Issued (fun _ => Resp K B) ℕ (Host K B)} {β : Type} {step : String}
    {cmd : EncryptCmd} {k : Result → Script β} {Q : β → Host K B → Prop} (hinv : ∀ s, J.inv s)
    (hok : ∀ r, J.ok ⟨step, cmd⟩ r → (r.outcome.ok && s.possible p cmd) = true →
      wp (host p) J (k ⟨true, Host.output p cmd⟩) Q (s.success p r cmd))
    (hfail : ∀ r, J.ok ⟨step, cmd⟩ r → (r.outcome.ok && s.possible p cmd) = false →
      wp (host p) J (k ⟨false, ""⟩) Q (s.failure p r cmd)) :
    wp (host p) J (run step cmd >>= k) Q s :=
  wp_command _ (fun _ => rfl) (fun _ => rfl) hinv hok hfail

theorem wp_run {β : Type} {step : String} {cmd : EncryptCmd} {k : Result → Script β}
    {Q : β → Host K B → Prop}
    (h : ∀ r : Resp K B, r.outcome = P ⟨step, cmd⟩ → ∀ x, wp (host p) (patternJudge K B P) (k x) Q
      ((host p).next ⟨step, cmd⟩ r s)) :
    wp (host p) (patternJudge K B P) (run step cmd >>= k) Q s :=
  fun r hr => ⟨trivial, h r hr _⟩

/-- A command that succeeds. -/
theorem wp_run_ok {β : Type} {step : String} {cmd : EncryptCmd} {k : Result → Script β}
    {Q : β → Host K B → Prop} (hP : Succeeds P step cmd) (hs : s.possible p cmd = true)
    (h : ∀ r, wp (host p) (patternJudge K B P) (k ⟨true, Host.output p cmd⟩) Q
      (s.success p r cmd)) :
    wp (host p) (patternJudge K B P) (run step cmd >>= k) Q s := by
  refine wp_issue (fun _ => trivial) (fun r _ _ => h r) fun r hr hbad => ?_
  have hok : r.outcome.ok = true := by
    rw [show r.outcome = P ⟨step, cmd⟩ from hr]
    exact hP
  rw [hok, hs] at hbad
  cases hbad

/-- `mkdir -p "$dir" && mount "$dev" "$dir"` -/
theorem wp_mkdirMount_ok {step dev dir : String} {ro : Bool} {Q : Unit → Host K B → Prop}
    (hmkdir : Succeeds P step (.mkdir dir)) (hmount : Succeeds P step (.mount ro dev dir))
    (hdev : ((s.content p dev).bind p.read).isSome) (h : Q () (s.mount dir dev)) :
    wp (host p) (patternJudge K B P) (mkdirMount step ro dev dir) Q s :=
  wp_run_ok hmkdir rfl fun _ => wp_run_ok hmount hdev fun _ => h

theorem wp_mkdirMount {step dev dir : String} {ro : Bool} {Q : Unit → Host K B → Prop}
    (hfail : Q () s) (hok : Q () (s.mount dir dev)) :
    wp (host p) (patternJudge K B P) (mkdirMount step ro dev dir) Q s := by
  refine wp_run fun r _ made => ?_
  have hsame : (host p).next ⟨step, .mkdir dir⟩ r s = s := by
    simp [host, Host.success, Host.failure]
  rw [hsame, wp_ite]
  refine ⟨fun _ => wp_run fun r _ _ => ?_, fun _ => hfail⟩
  simp only [host]
  split_ifs
  exacts [hok, hfail]

/-! ## A device that is encrypted -/

/-- The volume is mapped with the key `k`, and holds `c` decrypted. -/
structure Mapped (p : Platform K B) (label : String) (k : K) (c : ℕ → B) (s : Host K B) : Prop where
  mapping : s.mapping (decryptDev label) = some (lv label, k)
  volume : ∃ d, s.volume (lv label) = some d ∧ p.decrypt k d = c

variable {label source : String} {k : K} {c c' : ℕ → B}

theorem Mapped.content (h : Mapped p label k c s) : s.content p (decryptDev label) = some c := by
  obtain ⟨d, hd, rfl⟩ := h.volume
  simp only [Host.content, h.mapping, hd, Option.map_some]

theorem Mapped.write (h : Mapped p label k c s) (c' : ℕ → B) :
    Mapped p label k c' (s.write p (decryptDev label) c') := by
  obtain ⟨d, hd, -⟩ := h.volume
  have hw : s.write p (decryptDev label) c' = s.fill (lv label) (p.encrypt k c') := by
    simp only [Host.write, h.mapping]
  rw [hw]
  exact ⟨h.mapping, _, by rw [fill_volume_self, hd]; rfl, p.decrypt_encrypt k c'⟩

theorem Mapped.mount {dir dev : String} (h : Mapped p label k c s) :
    Mapped p label k c (s.mount dir dev) := ⟨h.mapping, h.volume⟩

theorem Mapped.success_mkfs {r : Resp K B} (h : Mapped p label k c s) :
    s.success p r (.mkfsExt4 (decryptDev label)) = s.write p (decryptDev label) (p.format c) := by
  simp only [Host.success, h.content]

/-- `cp -a` from a mounted source. -/
theorem Mapped.success_cp {src dst : String} {r : Resp K B} {f : Files} (h : Mapped p label k c s)
    (hsrc : s.files p src = some f) (hdst : s.mountedOn dst = some (decryptDev label)) :
    s.success p r (.cp src dst) = s.write p (decryptDev label) (p.write f c) := by
  simp only [Host.success, hsrc, hdst, h.content]

@[simp] theorem write_mountedOn (dev : String) (c : ℕ → B) :
    (s.write p dev c).mountedOn = s.mountedOn := by
  unfold Host.write
  split <;> rfl

/-- `dmsetup create` -/
theorem mapped_remap (hd : s.volume (lv label) = some c) :
    Mapped p label k (p.decrypt k c) (s.remap (decryptDev label) (some (lv label, k))) :=
  ⟨remap_mapping_self, c, hd, rfl⟩

/-- The volume holds a file system with the files `f`, under no key. -/
structure Shows (p : Platform K B) (source : String) (f : Files) (s : Host K B) : Prop where
  mapping : s.mapping (lv source) = none
  volume : ∃ c, s.volume (lv source) = some c ∧ p.read c = some f

variable {f : Files}

theorem Shows.content (h : Shows p source f s) :
    (s.content p (lv source)).bind p.read = some f := by
  obtain ⟨c, hc, hf⟩ := h.volume
  simp only [Host.content, h.mapping, hc, Option.bind_some, hf]

theorem Shows.files {dir : String} (h : Shows p source f s)
    (hdir : s.mountedOn dir = some (lv source)) : s.files p dir = some f := by
  simp only [Host.files, hdir, h.content]

theorem Shows.mount {dir dev : String} (h : Shows p source f s) :
    Shows p source f (s.mount dir dev) := ⟨h.mapping, h.volume⟩

theorem Shows.remap {label : String} {t : Option (String × K)} (h : Shows p source f s) :
    Shows p source f (s.remap (decryptDev label) t) :=
  ⟨by rw [remap_mapping_ne (lv_ne_decryptDev _ _), h.mapping], h.volume⟩

/-- Writing to another volume, through its mapping. -/
theorem Shows.write (h : Shows p source f s) (hm : Mapped p label k c s) (hne : source ≠ label) :
    Shows p source f (s.write p (decryptDev label) c') := by
  have hw : s.write p (decryptDev label) c' = s.fill (lv label) (p.encrypt k c') := by
    simp only [Host.write, hm.mapping]
  rw [hw]
  refine ⟨h.mapping, ?_⟩
  rw [fill_volume_ne (by rwa [Ne, lv_inj])]
  exact h.volume

/-! ## The end of a step -/

/-- What `umount` leaves behind, whether it succeeds or not. -/
theorem next_umount {step : String} {dirs : List String} {r : Resp K B}
    (hr : r.outcome = P ⟨step, .umount dirs⟩) :
    (host p).next ⟨step, .umount dirs⟩ r s =
      s.umount (dirs.filter (P ⟨step, .umount dirs⟩).part) := by
  simp only [host, Host.possible, Bool.and_true, Host.success, Host.failure, hr]
  cases P ⟨step, .umount dirs⟩ with
  | success => simp [Outcome.ok, Outcome.part]
  | failure part => simp [Outcome.ok, Outcome.part]

theorem umount_mountedOn {dirs : List String} {part : String → Bool} {dir : String}
    (hdir : dir ∈ dirs) : (s.umount (dirs.filter part)).mountedOn dir =
      if part dir then none else s.mountedOn dir := by
  simp [Host.umount, hdir]

theorem Succeeds.part {step dir : String} {cmd : EncryptCmd} (h : Succeeds P step cmd) :
    (P ⟨step, cmd⟩).part dir = true := by
  rw [Succeeds] at h
  cases hout : P ⟨step, cmd⟩ with
  | success => rfl
  | failure part => rw [hout] at h; cases h

/-- The mapping may be removed, and is where the command succeeds. -/
theorem wp_release {Q : Unit → Host K B → Prop}
    (h : ∀ t, t = none ∨ t = s.mapping (decryptDev label) →
      (Succeeds P label (.dmsetupRemove (decryptLabel label)) → t = none) →
      Q () (s.remap (decryptDev label) t)) :
    wp (host p) (patternJudge K B P) (do
      let _ ← run label .sleep
      let _ ← run label (.dmsetupRemove (decryptLabel label))
      pure ()) Q s := by
  refine wp_run fun r _ _ => ?_
  have hsame : (host p).next ⟨label, .sleep⟩ r s = s := by simp [host, Host.success, Host.failure]
  rw [hsame]
  refine wp_run fun r hr _ => ?_
  simp only [host, Host.possible, Bool.and_true, hr]
  split_ifs with hok
  · exact h none (Or.inl rfl) fun _ => rfl
  · have hkept := h (s.mapping (decryptDev label)) (Or.inr rfl) fun hP => absurd hP hok
    rwa [Host.remap, Function.update_eq_self] at hkept

/-! ## The steps -/

/-- The table of the mapping that decrypts a volume. -/
def decryptTable (p : Platform K B) (label : String) : CryptTable :=
  cryptTable (p.getsz (lv label)).repr (lv label)

/-- The volume can be decrypted. -/
structure Maps (p : Platform K B) (P : Issued → Outcome) (label : String) : Prop where
  getsz : Succeeds P label (.blockdevGetsz (lv label))
  create : Succeeds P label (.dmsetupCreate (decryptLabel label) (decryptTable p label))

/-- What `encrypt_and_populate` depends on, but for the mount of the source. -/
structure Populates (p : Platform K B) (P : Issued → Outcome) (label source : String) : Prop where
  maps : Maps p P label
  mkfs : Succeeds P label (.mkfsExt4 (decryptDev label))
  mkdir : Succeeds P label (.mkdir (tmpDir label))
  mount : Succeeds P label (.mount false (decryptDev label) (tmpDir label))
  cp : Succeeds P label (.cp (tmpDir source) (tmpDir label))

/-- The source is mounted by the step of `label`. -/
structure MountsSource (P : Issued → Outcome) (label source : String) : Prop where
  mkdir : Succeeds P label (.mkdir (tmpDir source))
  mount : Succeeds P label (.mount true (lv source) (tmpDir source))

/-- What `encrypt_and_clone` depends on. -/
structure Clones (p : Platform K B) (P : Issued → Outcome) (label source : String) : Prop where
  maps : Maps p P label
  dd : Succeeds P label (.dd (lv source) (decryptDev label))

/-- A volume that is to be encrypted with the key `k`. -/
structure Target (label : String) (k : K) (s : Host K B) : Prop where
  keyring : s.keyring = some k
  free : s.mapping (decryptDev label) = none
  plain : s.mapping (lv label) = none
  volume : (s.volume (lv label)).isSome

theorem wp_dmsetupCreate_ok {Q : Unit → Host K B → Prop} (hP : Maps p P label)
    (h : Target label k s) (hQ : ∀ c, Mapped p label k c (s.remap (decryptDev label)
      (some (lv label, k))) → Q () (s.remap (decryptDev label) (some (lv label, k)))) :
    wp (host p) (patternJudge K B P) (dmsetupCreate label (decryptLabel label) (lv label)) Q s := by
  obtain ⟨d, hd⟩ := Option.isSome_iff_exists.1 h.volume
  have hgetsz : s.possible p (.blockdevGetsz (lv label)) = true := by
    simp [Host.possible, Host.content, h.plain, hd]
  have hcreate :
      s.possible p (.dmsetupCreate (decryptLabel label) (decryptTable p label)) = true := by
    have hfree : s.mapping (mapper (decryptLabel label)) = none := h.free
    simp [Host.possible, decryptTable, cryptTable, Nat.repr_ne_empty, hd, hfree, h.keyring]
  refine wp_run_ok hP.getsz hgetsz fun _ => wp_run_ok hP.create hcreate fun r => ?_
  have hs : s.success p r (.dmsetupCreate (decryptLabel label) (decryptTable p label)) =
      s.remap (decryptDev label) (some (lv label, k)) := by
    simp [Host.success, h.keyring, decryptTable, cryptTable, decryptDev]
  have hmapped := hQ _ (mapped_remap hd)
  rwa [← hs] at hmapped

/-- The volume holds an encrypted file system with the files `f`. -/
def Holds (p : Platform K B) (label : String) (k : K) (f : Files) (s : Host K B) : Prop :=
  ∃ c, s.volume (lv label) = some c ∧ p.read (p.decrypt k c) = some f

/-- The mounts are gone if `umount` succeeds, and the mapping if
    `dmsetup remove` does. -/
structure Released (P : Issued → Outcome) (label source : String) (s : Host K B) : Prop where
  target : Succeeds P label (.umount (stepDirs label source)) → s.mountedOn (tmpDir label) = none
  source : s.mountedOn (tmpDir source) =
    if (P ⟨label, .umount (stepDirs label source)⟩).part (tmpDir source) then none
    else some (lv source)
  mapping : Succeeds P label (.dmsetupRemove (decryptLabel label)) →
    s.mapping (decryptDev label) = none

/-- The source is mounted on its directory, by this step or an earlier one. -/
theorem wp_mountSource {Q : Unit → Host K B → Prop}
    (hsource : MountsSource P label source ∨ s.mountedOn (tmpDir source) = some (lv source))
    (hshows : Shows p source f s)
    (hQ : ∀ s', (s' = s ∨ s' = s.mount (tmpDir source) (lv source)) →
      s'.mountedOn (tmpDir source) = some (lv source) → Q () s') :
    wp (host p) (patternJudge K B P) (mkdirMount label true (lv source) (tmpDir source)) Q s := by
  rcases hsource with hP | hmounted
  · refine wp_mkdirMount_ok hP.mkdir hP.mount ?_ (hQ _ (Or.inr rfl) mount_mountedOn_self)
    rw [hshows.content, Option.isSome_some]
  · exact wp_mkdirMount (hQ _ (Or.inl rfl) hmounted) (hQ _ (Or.inr rfl) mount_mountedOn_self)

theorem wp_encryptAndPopulate (hP : Populates p P label source)
    (hsource : MountsSource P label source ∨ s.mountedOn (tmpDir source) = some (lv source))
    (htarget : Target label k s) (hshows : Shows p source f s) (hne : source ≠ label) :
    wp (host p) (patternJudge K B P) (encryptAndPopulate label source)
      (fun _ s' => Holds p label k (f.onto p.fresh) s' ∧ Released P label source s') s := by
  have hdirs : tmpDir source ≠ tmpDir label := by rwa [Ne, tmpDir_inj]
  rw [encryptAndPopulate_eq, wp_bind]
  refine wp_dmsetupCreate_ok hP.maps htarget fun c hm₁ => ?_
  have hs₁ : Shows p source f (s.remap (decryptDev label) (some (lv label, k))) := hshows.remap
  generalize hs : s.remap (decryptDev label) (some (lv label, k)) = s₁ at hm₁ hs₁
  have hmounted₁ : s₁.mountedOn = s.mountedOn := by rw [← hs]; rfl
  -- a new file system
  refine wp_run_ok hP.mkfs (by rw [Host.possible, hm₁.content]; rfl) fun r => ?_
  rw [hm₁.success_mkfs, wp_bind]
  have hm₂ := hm₁.write (p.format c)
  refine wp_mkdirMount_ok hP.mkdir hP.mount ?_ ?_
  · rw [hm₂.content, Option.bind_some, p.read_format, Option.isSome_some]
  rw [wp_bind]
  -- both are mounted
  refine wp_mountSource (f := f) ?_ (hs₁.write hm₁ hne).mount fun s₄ hs₄ hsrc => ?_
  · rw [mount_mountedOn_ne hdirs, write_mountedOn, hmounted₁]
    exact hsource
  have hm₄ : Mapped p label k (p.format c) s₄ := by
    rcases hs₄ with rfl | rfl
    exacts [hm₂.mount, hm₂.mount.mount]
  have hs₄' : Shows p source f s₄ := by
    rcases hs₄ with rfl | rfl
    exacts [(hs₁.write hm₁ hne).mount, (hs₁.write hm₁ hne).mount.mount]
  have hdst : s₄.mountedOn (tmpDir label) = some (decryptDev label) := by
    rcases hs₄ with rfl | rfl
    · exact mount_mountedOn_self
    · rw [mount_mountedOn_ne hdirs.symm, mount_mountedOn_self]
  -- the files are copied
  have hfiles := hs₄'.files hsrc
  refine wp_run_ok hP.cp (by rw [Host.possible, hfiles]; rfl) fun r => ?_
  rw [hm₄.success_cp hfiles hdst]
  have hm₅ := hm₄.write (p.write f (p.format c))
  refine wp_run fun r hr _ => ?_
  rw [next_umount hr]
  refine wp_release fun t _ ht => ⟨?_, ?_, ?_, fun hok => ?_⟩
  · obtain ⟨d, hd, hdec⟩ := hm₅.volume
    exact ⟨d, hd, by rw [hdec, p.read_write _ _ _ (p.read_format c)]⟩
  · intro hok
    exact (umount_mountedOn (by simp [stepDirs])).trans (if_pos hok.part)
  · have hmem : tmpDir source ∈ stepDirs label source := by simp [stepDirs]
    exact (umount_mountedOn hmem).trans (by rw [write_mountedOn, hsrc])
  · rw [remap_mapping_self, ht hok]

theorem wp_encryptAndClone (hP : Clones p P label source) (htarget : Target label k s)
    (hplain : s.mapping (lv source) = none) (hsource : s.volume (lv source) = some c) :
    wp (host p) (patternJudge K B P) (encryptAndClone label source)
      (fun _ s' => (∃ d, s'.volume (lv label) = some d ∧ p.decrypt k d = c) ∧
        (Succeeds P label (.dmsetupRemove (decryptLabel label)) →
          s'.mapping (decryptDev label) = none)) s := by
  rw [encryptAndClone_eq, wp_bind]
  refine wp_dmsetupCreate_ok hP.maps htarget fun c₀ hm => ?_
  have hcontent : (s.remap (decryptDev label) (some (lv label, k))).content p (lv source) =
      some c := by
    rw [Host.content, remap_mapping_ne (lv_ne_decryptDev _ _), hplain]
    exact hsource
  refine wp_run_ok hP.dd (by rw [Host.possible, hcontent]; rfl) fun r => ?_
  simp only [Host.success, hcontent]
  refine wp_release fun t _ ht => ⟨(hm.write c).volume, fun hok => ?_⟩
  rw [remap_mapping_self, ht hok]

/-! ## The key -/

/-- What the key depends on. -/
structure CreatesKey (P : Issued → Outcome) : Prop where
  mkdir : Succeeds P main (.mkdir mntKeystore)
  mount : Succeeds P main (.mount false keystoreDev mntKeystore)
  create : Succeeds P main (.caamKeygenCreate volumeKey)
  padd : Succeeds P main (.keyctlPadd volumeKey)

/-- `rm` leaves the key in the keyring and the blob in the keystore. -/
theorem next_rm (step file : String) {r : Resp K B} :
    ((host p).next ⟨step, .rm file⟩ r s).blob = s.blob ∧
      ((host p).next ⟨step, .rm file⟩ r s).keyring = s.keyring := by
  simp only [host, Host.success, Host.failure]
  split_ifs <;> exact ⟨rfl, rfl⟩

/-- The new key is in the keystore and in the keyring. -/
theorem wp_createKey (hP : CreatesKey P) (hkeystore : Shows p "keystore" f s) :
    wp (host p) (patternJudge K B P) createKey
      (fun _ s' => ∃ k, s'.blob = some k ∧ s'.keyring = some k ∧
        (Succeeds P main (.umount [mntKeystore]) → s'.mountedOn mntKeystore = none)) s := by
  rw [createKey, wp_bind]
  refine wp_mkdirMount_ok hP.mkdir hP.mount ?_ ?_
  · rw [show keystoreDev = lv "keystore" from rfl, hkeystore.content, Option.isSome_some]
  have hmounted : (s.mount mntKeystore keystoreDev).keystoreMounted = true := by
    simp [Host.keystoreMounted]
  refine wp_run_ok hP.create hmounted fun r => ?_
  refine wp_run_ok hP.padd (by rw [Host.possible]; exact Bool.and_eq_true_iff.2 ⟨hmounted, rfl⟩)
    fun _ => wp_run fun r₁ _ _ => wp_run fun r₂ hr _ => ?_
  obtain ⟨hblob, hkeyring⟩ := next_rm (p := p) (r := r₁) main volumeKey
  rw [next_umount hr]
  refine ⟨r.key, hblob, hkeyring, fun hok => ?_⟩
  exact (umount_mountedOn (List.mem_singleton_self _)).trans (if_pos hok.part)

end

end MetaHipos.Initrd.Encrypt
