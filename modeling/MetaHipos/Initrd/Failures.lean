/-
  What follows if a command of a step fails.

  No failure stops `hiposencrypt_run`; it changes what the later commands act
  on.  Here a failed command leaves blank devices and no key, and the volumes
  are blank at the start.

  * `quietJudge`: these runs;
  * `Short`: a volume without the files of its source;
  * `wp_populate_short`: a volume that is not populated remains short;
  * `wp_clone_blank`: one that is not cloned remains blank;
  * `wp_createKey_quiet`: without one of its commands there is no key.
-/
import MetaHipos.Initrd.FirstBoot

namespace MetaHipos.Initrd.Encrypt

open Process

section
variable {K B : Type} {p : Platform K B} {P : Issued → Outcome} {k : K} {s s' s₀ : Host K B}

/-! ## Quiet failures -/

/-- The run of the pattern `P` with the key `k` and quiet failures. -/
def quietJudge (p : Platform K B) (P : Issued → Outcome) (k : K) :
    Judge Issued (fun _ => Resp K B) ℕ (Host K B) where
  ok c r := r = quietResp p P k c
  inv _ := True
  stop _ _ := False

/-- A command succeeds if it is not made to fail, and can. -/
theorem wp_quiet {β : Type} {step : String} {cmd : EncryptCmd} {script : Result → Script β}
    {Q : β → Host K B → Prop}
    (hok : Succeeds P step cmd → s.possible p cmd = true →
      wp (host p) (quietJudge p P k) (script ⟨true, Host.output p cmd⟩) Q
        (s.success p (quietResp p P k ⟨step, cmd⟩) cmd))
    (hfail : ¬ (Succeeds P step cmd ∧ s.possible p cmd = true) →
      wp (host p) (quietJudge p P k) (script ⟨false, ""⟩) Q
        (s.failure p (quietResp p P k ⟨step, cmd⟩) cmd)) :
    wp (host p) (quietJudge p P k) (run step cmd >>= script) Q s := by
  refine wp_issue (fun _ => trivial) ?_ ?_
  · rintro r rfl hgood
    obtain ⟨hP, hpos⟩ := Bool.and_eq_true_iff.1 hgood
    exact hok hP hpos
  · rintro r rfl hbad
    exact hfail fun hgood => absurd (hbad.symm.trans (Bool.and_eq_true_iff.2 hgood)) (by decide)

/-- A directory is mounted on only if the commands succeed and the device shows a
    file system. -/
theorem wp_mkdirMount_quiet {step dev dir : String} {ro : Bool} {Q : Unit → Host K B → Prop}
    (hfail : Q () s)
    (hok : Succeeds P step (.mkdir dir) → Succeeds P step (.mount ro dev dir) →
      ((s.content p dev).bind p.read).isSome → Q () (s.mount dir dev)) :
    wp (host p) (quietJudge p P k) (mkdirMount step ro dev dir) Q s := by
  refine wp_quiet (fun hmkdir _ => ?_) fun _ => hfail
  exact wp_quiet (fun hmount hdev => hok hmkdir hmount hdev) fun _ => hfail

/-- The volume is mapped only if both commands succeed. -/
theorem wp_dmsetupCreate_quiet {label : String} {Q : Unit → Host K B → Prop} (hfail : Q () s)
    (hok : Maps p P label → ∀ k', s.keyring = some k' →
      Q () (s.remap (decryptDev label) (some (lv label, k')))) :
    wp (host p) (quietJudge p P k) (dmsetupCreate label (decryptLabel label) (lv label)) Q s := by
  refine wp_quiet (fun hgetsz _ => ?_) fun _ => ?_
  · refine wp_quiet (fun hcreate hpos => ?_) fun _ => hfail
    simp only [Host.possible, Bool.and_eq_true] at hpos
    obtain ⟨k', hk'⟩ : ∃ k', s.keyring = some k' := Option.isSome_iff_exists.1 hpos.2
    have hmaps := hok ⟨hgetsz, hcreate⟩ k' hk'
    have hs : ∀ r, s.success p r (.dmsetupCreate (decryptLabel label) (decryptTable p label)) =
        s.remap (decryptDev label) (some (lv label, k')) := fun r => by
      simp [Host.success, hk', decryptTable, cryptTable, decryptDev]
    rw [← hs] at hmaps
    exact hmaps
  · -- without the size the table cannot be read
    refine wp_quiet (fun _ hpos => ?_) fun _ => hfail
    simp [Host.possible, cryptTable] at hpos

/-! ## Volumes without their files -/

/-- Decrypted, the volume shows no file system, or a new one. -/
structure Short (p : Platform K B) (label : String) (k : K) (s : Host K B) : Prop where
  own : ∀ t ∈ s.mapping (decryptDev label), t = (lv label, k)
  volume : ∃ c, s.volume (lv label) = some c ∧
    (p.read (p.decrypt k c) = none ∨ p.read (p.decrypt k c) = some p.fresh)

variable {label source : String} {c : ℕ → B} {f : Files}

/-- Writing a new file system, or a blank device. -/
theorem Short.write (h : Short p label k s) (hc : p.read c = none ∨ p.read c = some p.fresh) :
    Short p label k (s.write p (decryptDev label) c) := by
  obtain ⟨d, hd, hread⟩ := h.volume
  unfold Host.write
  cases hm : s.mapping (decryptDev label) with
  | none =>
    refine ⟨h.own, d, ?_, hread⟩
    rw [fill_volume_ne (lv_ne_decryptDev _ _), hd]
  | some t =>
    obtain rfl := h.own t hm
    refine ⟨h.own, p.encrypt k c, by rw [fill_volume_self, hd]; rfl, ?_⟩
    rwa [p.decrypt_encrypt]

/-- Encrypting other volumes. -/
theorem Short.frame {L D : String → Prop} (h : Short p label k s) (hw : Within L D s s')
    (hl : ¬ L label) : Short p label k s' where
  own := by
    have hne : ∀ v, L v → decryptDev label ≠ decryptDev v := fun v hv he => by
      rw [decryptDev_inj.1 he] at hl
      exact hl hv
    rw [hw.mapping _ hne]
    exact h.own
  volume := by
    rw [hw.volume label hl]
    exact h.volume

theorem Short.mount {dir dev : String} (h : Short p label k s) :
    Short p label k (s.mount dir dev) := ⟨h.own, h.volume⟩

theorem Short.umount {dirs : List String} (h : Short p label k s) :
    Short p label k (s.umount dirs) := ⟨h.own, h.volume⟩

theorem Short.remap {t : Option (String × K)} (h : Short p label k s)
    (ht : ∀ x ∈ t, x = (lv label, k)) : Short p label k (s.remap (decryptDev label) t) :=
  ⟨by rwa [remap_mapping_self], h.volume⟩

/-- What the device of a short volume shows. -/
theorem Short.content (h : Short p label k s) (hnone : s.volume (decryptDev label) = none)
    (hc : s.content p (decryptDev label) = some c) :
    p.read c = none ∨ p.read c = some p.fresh := by
  obtain ⟨d, hd, hread⟩ := h.volume
  unfold Host.content at hc
  cases hm : s.mapping (decryptDev label) with
  | none =>
    rw [hm] at hc
    simp only [hnone] at hc
    cases hc
  | some t =>
    obtain rfl := h.own t hm
    simp only [hm, hd, Option.map_some, Option.some.injEq] at hc
    rwa [← hc]

/-- After `mkfs`: a file system is shown only if the commands so far succeed. -/
structure Formatted (p : Platform K B) (P : Issued → Outcome) (label : String) (k : K)
    (s : Host K B) : Prop where
  short : Short p label k s
  plain : s.volume (decryptDev label) = none
  shown : ((s.content p (decryptDev label)).bind p.read).isSome →
    Maps p P label ∧ Succeeds P label (.mkfsExt4 (decryptDev label))

@[simp] theorem write_tmpfs (dev : String) (c : ℕ → B) :
    (s.write p dev c).tmpfs = s.tmpfs := by
  unfold Host.write
  split <;> rfl

theorem write_none {dev dev' : String} (h : s.volume dev' = none) :
    (s.write p dev c).volume dev' = none := by
  have hfill : ∀ d c, (s.fill d c).volume dev' = none := fun d c => by
    rw [← Option.isNone_iff_eq_none, ← Option.not_isSome, fill_present, h]
    rfl
  unfold Host.write
  split <;> exact hfill ..

/-- What is written is read back, if anything is. -/
theorem Short.write_content {d : ℕ → B} (h : Short p label k s)
    (hplain : s.volume (decryptDev label) = none)
    (hd : (s.write p (decryptDev label) c).content p (decryptDev label) = some d) : d = c := by
  obtain ⟨d₀, hd₀, -⟩ := h.volume
  unfold Host.write at hd
  cases hm : s.mapping (decryptDev label) with
  | none =>
    have hmap : (s.fill (decryptDev label) c).mapping (decryptDev label) = none := hm
    simp [hm, Host.content, hmap, hplain] at hd
  | some t =>
    obtain rfl := h.own t hm
    have hmap :
        (s.fill (lv label) (p.encrypt k c)).mapping (decryptDev label) = some (lv label, k) := hm
    simpa [hm, Host.content, hmap, hd₀, eq_comm] using hd

/-- A blank volume gets a new file system, or none. -/
theorem wp_format_quiet {rest : Script Unit} {Q : Unit → Host K B → Prop}
    (hkey : s.keyring = some k) (hfree : s.mapping (decryptDev label) = none)
    (hplain : s.volume (decryptDev label) = none) (hvol : s.volume (lv label) = some c)
    (hblank : p.read (p.decrypt k c) = none)
    (hrest : ∀ s', Formatted p P label k s' → s'.mountedOn = s.mountedOn → s'.tmpfs = s.tmpfs →
      wp (host p) (quietJudge p P k) rest Q s') :
    wp (host p) (quietJudge p P k) (do
      dmsetupCreate label (decryptLabel label) (lv label)
      let _ ← run label (.mkfsExt4 (decryptDev label))
      rest) Q s := by
  -- `mkfs` on the volume, mapped or not
  have hmkfs : ∀ s₁ : Host K B, Short p label k s₁ → s₁.volume (decryptDev label) = none →
      s₁.mountedOn = s.mountedOn → s₁.tmpfs = s.tmpfs →
      ((s₁.content p (decryptDev label)).isSome → Maps p P label) →
      wp (host p) (quietJudge p P k) (run label (.mkfsExt4 (decryptDev label)) >>= fun _ => rest)
        Q s₁ := by
    intro s₁ hshort hnone hmnt htmp hmaps
    refine wp_quiet (fun hok hpos => ?_) fun _ => ?_
    · obtain ⟨d, hd⟩ := Option.isSome_iff_exists.1 hpos
      have hs : ∀ r, s₁.success p r (.mkfsExt4 (decryptDev label)) =
          s₁.write p (decryptDev label) (p.format d) := fun r => by simp only [Host.success, hd]
      rw [hs]
      refine hrest _ ⟨hshort.write (Or.inr (p.read_format d)), write_none hnone,
        fun _ => ⟨hmaps hpos, hok⟩⟩ (by rw [write_mountedOn, hmnt]) (by rw [write_tmpfs, htmp])
    · refine hrest _ ⟨hshort.write (Or.inl p.read_blank), write_none hnone, fun hshown => ?_⟩
        (by rw [Host.failure, write_mountedOn, hmnt]) (by rw [Host.failure, write_tmpfs, htmp])
      obtain ⟨f, hf⟩ := Option.isSome_iff_exists.1 hshown
      obtain ⟨d, hd, hread⟩ := Option.bind_eq_some_iff.1 hf
      rw [hshort.write_content hnone hd] at hread
      exact absurd hread (by rw [quietResp, p.read_blank]; simp)
  rw [wp_bind]
  refine wp_dmsetupCreate_quiet ?_ fun hmaps k' hk' => ?_
  · refine hmkfs s ⟨fun t ht => ?_, c, hvol, Or.inl hblank⟩ hplain rfl rfl fun hcontent => ?_
    · rw [hfree] at ht
      cases ht
    · simp [Host.content, hfree, hplain] at hcontent
  · obtain rfl : k' = k := Option.some.inj (hk'.symm.trans hkey)
    refine hmkfs _ ⟨fun t ht => ?_, c, hvol, Or.inl hblank⟩ hplain rfl rfl fun _ => hmaps
    rw [remap_mapping_self] at ht
    exact (Option.some.inj ht).symm

/-- What holds before `cp`: the target is mounted only if the commands so far
    succeed, and then it is empty. -/
structure BeforeCp (p : Platform K B) (P : Issued → Outcome) (label source : String) (k : K)
    (s : Host K B) : Prop where
  short : Short p label k s
  target : s.mountedOn (tmpDir label) = none ∨
    s.mountedOn (tmpDir label) = some (decryptDev label) ∧
    (Succeeds P label (.cp (tmpDir source) (tmpDir label)) → Populates p P label source) ∧
    ∃ c, s.content p (decryptDev label) = some c ∧ p.read c = some p.fresh

theorem onto_none (f : Files) : Files.none.onto f = f := by
  funext path
  simp [Files.onto, Files.none]

/-- `cp` fills the target only if nothing fails. -/
theorem wp_cp_short {rest : Script Unit} {Q : Unit → Host K B → Prop}
    (h : BeforeCp p P label source k s)
    (hfails : ¬ Populates p P label source ∨ s.files p (tmpDir source) = some Files.none)
    (hrest : ∀ s', Short p label k s' → wp (host p) (quietJudge p P k) rest Q s') :
    wp (host p) (quietJudge p P k) (do
      let _ ← run label (.cp (tmpDir source) (tmpDir label))
      rest) Q s := by
  refine wp_quiet (fun hok hpos => hrest _ ?_) fun _ => hrest _ ?_
  · obtain ⟨f, hf⟩ := Option.isSome_iff_exists.1 hpos
    rcases h.target with hnone | ⟨hmounted, hpop, c, hc, hread⟩
    · simp only [Host.success, hf, hnone]
      exact ⟨h.short.own, h.short.volume⟩
    · simp only [Host.success, hf, hmounted, hc]
      have hempty := hfails.resolve_left fun hn => hn (hpop hok)
      obtain rfl : Files.none = f := Option.some.inj (hempty.symm.trans hf)
      exact h.short.write (Or.inr (by rw [p.read_write _ _ _ hread, onto_none]))
  · rcases h.target with hnone | ⟨hmounted, -⟩
    · simp only [Host.failure, hnone]
      exact h.short
    · simp only [Host.failure, hmounted]
      exact h.short.write (Or.inl p.read_blank)

/-- Quiet failures are failures. -/
theorem wp_quiet_of_pattern {β : Type} {script : Script β} {Q : β → Host K B → Prop}
    (h : wp (host p) (patternJudge K B P) script Q s) :
    wp (host p) (quietJudge p P k) script Q s :=
  wp_judge h (fun _ _ hr => by rw [show _ = quietResp .. from hr]; rfl) (fun _ h => h)
    fun _ _ h => h

/-- **A volume remains without its files** if a command it depends on fails. -/
theorem wp_populate_short (htarget : Target label k s)
    (hvol : s.volume (lv label) = some c) (hblank : p.read (p.decrypt k c) = none)
    (hplain : s.volume (decryptDev label) = none) (hdst : s.mountedOn (tmpDir label) = none)
    (htmp : s.tmpfs (tmpDir source) = Files.none) (hne : source ≠ label)
    (hfails : ¬ Populates p P label source ∨
      ¬ MountsSource P label source ∧ s.mountedOn (tmpDir source) = none) :
    wp (host p) (quietJudge p P k) (encryptAndPopulate label source)
      (fun _ s' => Short p label k s') s := by
  have hdirs : tmpDir source ≠ tmpDir label := by rwa [Ne, tmpDir_inj]
  rw [encryptAndPopulate_eq]
  refine wp_format_quiet htarget.keyring htarget.free hplain hvol hblank fun s₂ hF hmnt₂ htmp₂ => ?_
  -- the target
  rw [wp_bind]
  suffices hrest : ∀ s₃, BeforeCp p P label source k s₃ →
      s₃.mountedOn (tmpDir source) = s.mountedOn (tmpDir source) → s₃.tmpfs = s.tmpfs → _ from
    wp_mkdirMount_quiet (hrest s₂ ⟨hF.short, Or.inl (by rw [hmnt₂, hdst])⟩ (by rw [hmnt₂]) htmp₂)
      fun hmkdir hmount hshown => by
        obtain ⟨hmaps, hmkfs⟩ := hF.shown hshown
        obtain ⟨f, hf⟩ := Option.isSome_iff_exists.1 hshown
        obtain ⟨d, hd, hread⟩ := Option.bind_eq_some_iff.1 hf
        refine hrest _ ⟨hF.short.mount, Or.inr ⟨mount_mountedOn_self,
          fun hcp => ⟨hmaps, hmkfs, hmkdir, hmount, hcp⟩, d, hd, ?_⟩⟩
          (by rw [mount_mountedOn_ne hdirs, hmnt₂]) htmp₂
        exact (hF.short.content hF.plain hd).resolve_left (by rw [hread]; simp)
  intro s₃ h₃ hsrc₃ htmp₃
  -- the rest of the step, after the source
  have htail : ∀ s₄, BeforeCp p P label source k s₄ →
      (¬ Populates p P label source ∨ s₄.files p (tmpDir source) = some Files.none) →
      wp (host p) (quietJudge p P k) (do
        let _ ← run label (.cp (tmpDir source) (tmpDir label))
        let _ ← run label (.umount (stepDirs label source))
        let _ ← run label .sleep
        let _ ← run label (.dmsetupRemove (decryptLabel label))
        pure ()) (fun _ s' => Short p label k s') s₄ := fun s₄ h₄ hfails₄ =>
    wp_cp_short h₄ hfails₄ fun s₅ h₅ => wp_quiet_of_pattern (wp_run fun r hr _ => by
      rw [next_umount hr]
      exact wp_release fun t ht _ => h₅.umount.remap fun x hx => by
        rcases ht with rfl | rfl
        · cases hx
        · exact h₅.own x hx)
  rw [wp_bind]
  refine wp_mkdirMount_quiet (htail s₃ h₃ (hfails.imp id fun h => ?_)) fun hmkdir hmount _ =>
    htail _ ⟨h₃.short.mount, ?_⟩ (Or.inl (hfails.resolve_right fun h => h.1 ⟨hmkdir, hmount⟩))
  · rw [Host.files, hsrc₃, h.2]
    simp only [htmp₃, htmp]
  · rw [mount_mountedOn_ne hdirs.symm]
    exact h₃.target

/-- A blank volume remains blank if a command of its step fails, or there is no key. -/
theorem wp_clone_blank (hvol : s.volume (lv label) = some (p.encrypt k p.blank))
    (hfree : s.mapping (decryptDev label) = none) (hkey : s.keyring = none ∨ s.keyring = some k)
    (hfails : ¬ (Clones p P label source ∧ s.keyring = some k)) :
    wp (host p) (quietJudge p P k) (encryptAndClone label source)
      (fun _ s' => s'.volume (lv label) = some (p.encrypt k p.blank)) s := by
  -- the end of the step
  have hend : ∀ s₁ : Host K B, s₁.volume (lv label) = some (p.encrypt k p.blank) →
      wp (host p) (quietJudge p P k) (do
        let _ ← run label .sleep
        let _ ← run label (.dmsetupRemove (decryptLabel label))
        pure ()) (fun _ s' => s'.volume (lv label) = some (p.encrypt k p.blank)) s₁ :=
    fun s₁ h₁ => wp_quiet_of_pattern (wp_release fun _ _ _ => h₁)
  have hunmapped : ∀ d, (s.write p (decryptDev label) d).volume (lv label) =
      some (p.encrypt k p.blank) := fun d => by
    simp only [Host.write, hfree]
    rw [fill_volume_ne (lv_ne_decryptDev _ _), hvol]
  rw [encryptAndClone_eq, wp_bind]
  refine wp_dmsetupCreate_quiet ?_ fun hmaps k' hk' => ?_
  · refine wp_quiet (fun _ _ => hend _ ?_) fun _ => hend _ (hunmapped _)
    simp only [Host.success]
    split
    exacts [hunmapped _, hvol]
  · obtain rfl : k' = k := by
      rcases hkey with hkey | hkey
      · rw [hkey] at hk'
        cases hk'
      · exact Option.some.inj (hk'.symm.trans hkey)
    refine wp_quiet (fun hdd _ => absurd ⟨⟨hmaps, hdd⟩, hk'⟩ hfails) fun _ => hend _ ?_
    simp only [Host.failure, Host.write, remap_mapping_self]
    rw [fill_volume_self, show (s.remap _ _).volume _ = _ from hvol]
    rfl

/-- What `createKey` may do: there is no key in the keyring, or all commands
    succeeded. -/
structure Keyed (P : Issued → Outcome) (k : K) (s : Host K B) : Prop where
  blob : s.blob = none ∨ s.blob = some k
  keyring : s.keyring = none ∨ s.keyring = some k ∧ CreatesKey P

theorem wp_createKey_quiet (hblob : s.blob = none) (hkeyFile : s.keyFile = none)
    (hkeyring : s.keyring = none) (hmounted : s.mountedOn mntKeystore = none) :
    wp (host p) (quietJudge p P k) createKey (fun _ s' => Keyed P k s') s := by
  -- the last two commands
  have hend : ∀ s₁ : Host K B, Keyed P k s₁ → wp (host p) (quietJudge p P k) (do
      let _ ← run main (.rm volumeKey)
      let _ ← run main (.umount [mntKeystore])
      pure ()) (fun _ s' => Keyed P k s') s₁ := fun s₁ h₁ =>
    wp_quiet_of_pattern (wp_run fun r _ _ => wp_run fun r' hr' _ => by
      obtain ⟨hb, hk⟩ := next_rm (p := p) (s := s₁) (r := r) main volumeKey
      rw [next_umount hr']
      exact ⟨hb.symm ▸ h₁.blob, hk.symm ▸ h₁.keyring⟩)
  -- the key, created or not
  have hcreate : ∀ s₁ : Host K B, s₁.blob = none → s₁.keyFile = none → s₁.keyring = none →
      (s₁.keystoreMounted = true → Succeeds P main (.mkdir mntKeystore) ∧
        Succeeds P main (.mount false keystoreDev mntKeystore)) →
      wp (host p) (quietJudge p P k) (do
        let _ ← run main (.caamKeygenCreate volumeKey)
        let _ ← run main (.keyctlPadd volumeKey)
        let _ ← run main (.rm volumeKey)
        let _ ← run main (.umount [mntKeystore])
        pure ()) (fun _ s' => Keyed P k s') s₁ := by
    intro s₁ hb hf hk hmnt
    refine wp_quiet (fun hgen hpos => ?_) fun _ => ?_
    · obtain ⟨hmkdir, hmount⟩ := hmnt hpos
      refine wp_quiet (fun hpadd _ => hend _ ?_) fun _ => hend _ ?_
      · exact ⟨Or.inr rfl, Or.inr ⟨rfl, hmkdir, hmount, hgen, hpadd⟩⟩
      · exact ⟨Or.inr rfl, Or.inl hk⟩
    · have hfail : ∀ c,
          (s₁.failure p (quietResp p P k c) (.caamKeygenCreate volumeKey)).blob = none ∧
          (s₁.failure p (quietResp p P k c) (.caamKeygenCreate volumeKey)).keyFile = none ∧
          (s₁.failure p (quietResp p P k c) (.caamKeygenCreate volumeKey)).keyring = none := by
        intro c
        simp only [Host.failure]
        split_ifs
        exacts [⟨rfl, rfl, hk⟩, ⟨hb, hf, hk⟩]
      obtain ⟨hb', hf', hk'⟩ := hfail ⟨main, .caamKeygenCreate volumeKey⟩
      refine wp_quiet (fun _ hpos => ?_) fun _ => hend _ ⟨Or.inl hb', Or.inl hk'⟩
      simp [Host.possible, hf'] at hpos
  rw [createKey, wp_bind]
  refine wp_mkdirMount_quiet (hcreate s hblob hkeyFile hkeyring fun h => ?_)
    fun hmkdir hmount _ => hcreate _ hblob hkeyFile hkeyring fun _ => ⟨hmkdir, hmount⟩
  simp [Host.keystoreMounted, hmounted] at h

end

end MetaHipos.Initrd.Encrypt
