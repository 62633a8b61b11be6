/-
  What the encryption of a volume leaves alone.

  Commands that fail change what later ones act on.  Whatever fails, the
  commands of `encrypt_and_populate` and `encrypt_and_clone` only write to the
  volume they encrypt.

  * `Local L D`: the commands that encrypt volumes in `L`, and mount on
    directories of `L` and `D`;
  * `Within L D`, `Within.next`: what they keep, whatever is responded;
  * `calls_encryptAndPopulate`, `calls_encryptAndClone`: the steps are local.
-/
import MetaHipos.Initrd.Hiposencrypt

namespace MetaHipos.Initrd.Encrypt

open Process

/-! ## Paths -/

/-- The device of a volume. -/
def lv (name : String) : String := "/dev/" ++ lvmLabel ++ "/" ++ name

/-- The label of the mapping that decrypts a volume. -/
def decryptLabel (name : String) : String := "decrypted-" ++ lvmLabel ++ "-" ++ name

/-- The device that decrypts a volume. -/
def decryptDev (name : String) : String := mapper (decryptLabel name)

/-- The directory a volume is mounted on. -/
def tmpDir (name : String) : String := "/tmp/" ++ name

@[simp] theorem lv_inj {a b : String} : lv a = lv b ↔ a = b := String.append_right_inj _

@[simp] theorem tmpDir_inj {a b : String} : tmpDir a = tmpDir b ↔ a = b := String.append_right_inj _

@[simp] theorem decryptDev_inj {a b : String} : decryptDev a = decryptDev b ↔ a = b := by
  simp [decryptDev, mapper, decryptLabel, String.append_right_inj]

@[simp] theorem lv_ne_decryptDev (a b : String) : lv a ≠ decryptDev b := by
  intro h
  have hlist := congrArg String.toList h
  simp [lv, decryptDev, mapper, lvmLabel] at hlist

/-! ## Writing -/

section
variable {K B : Type} {p : Platform K B} {s s₀ : Host K B} {L D : String → Prop}

@[simp] theorem mount_mountedOn_self {dir dev : String} :
    (s.mount dir dev).mountedOn dir = some dev := Function.update_self ..

@[simp] theorem mount_mountedOn_ne {dir dir' dev : String} (h : dir' ≠ dir) :
    (s.mount dir dev).mountedOn dir' = s.mountedOn dir' := Function.update_of_ne h ..

@[simp] theorem remap_mapping_self {dev : String} {t : Option (String × K)} :
    (s.remap dev t).mapping dev = t := Function.update_self ..

@[simp] theorem remap_mapping_ne {dev dev' : String} {t : Option (String × K)} (h : dev' ≠ dev) :
    (s.remap dev t).mapping dev' = s.mapping dev' := Function.update_of_ne h ..

@[simp] theorem fill_volume_ne {dev dev' : String} {c : ℕ → B} (h : dev' ≠ dev) :
    (s.fill dev c).volume dev' = s.volume dev' := Function.update_of_ne h ..

@[simp] theorem fill_volume_self {dev : String} {c : ℕ → B} :
    (s.fill dev c).volume dev = (s.volume dev).map fun _ => c := Function.update_self ..

theorem fill_present (dev dev' : String) (c : ℕ → B) :
    ((s.fill dev c).volume dev').isSome = (s.volume dev').isSome := by
  by_cases h : dev' = dev
  · subst h
    simp
  · rw [fill_volume_ne h]

/-- What the commands that encrypt the volumes in `L` keep. -/
structure Within (L D : String → Prop) (s₀ s : Host K B) : Prop where
  volume : ∀ v, ¬ L v → s.volume (lv v) = s₀.volume (lv v)
  present : ∀ dev, (s.volume dev).isSome = (s₀.volume dev).isSome
  own : ∀ v, L v → ∀ t ∈ s.mapping (decryptDev v), t.1 = lv v
  mapping : ∀ dev, (∀ v, L v → dev ≠ decryptDev v) → s.mapping dev = s₀.mapping dev
  target : ∀ v, L v → ∀ dev ∈ s.mountedOn (tmpDir v), dev = decryptDev v
  mounted : ∀ v, ¬ L v → ¬ D v → s.mountedOn (tmpDir v) = s₀.mountedOn (tmpDir v)
  tmpfs : ∀ v, ¬ L v → s.tmpfs (tmpDir v) = s₀.tmpfs (tmpDir v)

/-- Nothing is mapped or mounted on the way yet. -/
structure Idle (L : String → Prop) (s : Host K B) : Prop where
  mapping : ∀ v, L v → s.mapping (decryptDev v) = none
  mountedOn : ∀ v, L v → s.mountedOn (tmpDir v) = none

theorem Within.start (h : Idle L s) : Within L D s s where
  volume _ _ := rfl
  present _ := rfl
  own v hv t ht := by rw [h.mapping v hv] at ht; cases ht
  mapping _ _ := rfl
  target v hv dev hdev := by rw [h.mountedOn v hv] at hdev; cases hdev
  mounted _ _ _ := rfl
  tmpfs _ _ := rfl

theorem Within.fill {v : String} {c : ℕ → B} (h : Within L D s₀ s) (hv : L v) :
    Within L D s₀ (s.fill (lv v) c) where
  volume w hw := by
    rw [fill_volume_ne (by rw [Ne, lv_inj]; rintro rfl; exact hw hv)]
    exact h.volume w hw
  present w := by rw [fill_present, h.present]
  own := h.own
  mapping := h.mapping
  target := h.target
  mounted := h.mounted
  tmpfs := h.tmpfs

/-- Writing to the device that decrypts a volume writes to the volume. -/
theorem Within.write {v : String} {c : ℕ → B} (h : Within L D s₀ s) (hv : L v) :
    Within L D s₀ (s.write p (decryptDev v) c) := by
  unfold Host.write
  cases hm : s.mapping (decryptDev v) with
  | none =>
    refine ⟨fun w hw => ?_, fun w => ?_, h.own, h.mapping, h.target, h.mounted, h.tmpfs⟩
    · rw [fill_volume_ne (lv_ne_decryptDev w v)]
      exact h.volume w hw
    · rw [fill_present, h.present]
  | some t =>
    obtain ⟨lower, k⟩ := t
    obtain rfl : lower = lv v := h.own v hv _ hm
    exact h.fill hv

theorem Within.umount {dirs : List String} (h : Within L D s₀ s)
    (hdirs : ∀ dir ∈ dirs, ∃ d, (D d ∨ L d) ∧ dir = tmpDir d) : Within L D s₀ (s.umount dirs) where
  volume := h.volume
  present := h.present
  own := h.own
  mapping := h.mapping
  target v hv dev hdev := by
    simp only [Host.umount] at hdev
    split_ifs at hdev
    · cases hdev
    · exact h.target v hv dev hdev
  mounted v hL hD := by
    simp only [Host.umount]
    split_ifs with hmem
    · obtain ⟨d, hd, heq⟩ := hdirs _ hmem
      rw [tmpDir_inj] at heq
      subst heq
      exact absurd hd (not_or_intro hD hL)
    · exact h.mounted v hL hD
  tmpfs := h.tmpfs

/-- One step after others. -/
theorem Within.cons {s' : Host K B} {done dirs : List String} {label source : String}
    (h : Within (· ∈ done) (· ∈ dirs) s₀ s) (h' : Within (· = label) (· = source) s s')
    (hsource : source ∉ done) : Within (· ∈ label :: done) (· ∈ source :: dirs) s₀ s' where
  volume v hv := by
    obtain ⟨hvl, hvd⟩ := not_or.1 (mt List.mem_cons.2 hv)
    rw [h'.volume v hvl, h.volume v hvd]
  present dev := by rw [h'.present, h.present]
  own v hv t ht := by
    by_cases hvl : v = label
    · exact h'.own v hvl t ht
    · rw [h'.mapping _ fun w hw => by rwa [hw, Ne, decryptDev_inj]] at ht
      exact h.own v ((List.mem_cons.1 hv).resolve_left hvl) t ht
  mapping dev hdev := by
    rw [h'.mapping dev fun v hv => hdev v (List.mem_cons.2 (Or.inl hv)),
      h.mapping dev fun v hv => hdev v (List.mem_cons_of_mem _ hv)]
  target v hv dev hdev := by
    by_cases hvl : v = label
    · exact h'.target v hvl dev hdev
    · have hvd := (List.mem_cons.1 hv).resolve_left hvl
      rw [h'.mounted v hvl (by rintro rfl; exact hsource hvd)] at hdev
      exact h.target v hvd dev hdev
  mounted v hv hd := by
    obtain ⟨hvl, hvd⟩ := not_or.1 (mt List.mem_cons.2 hv)
    obtain ⟨hvs, hvds⟩ := not_or.1 (mt List.mem_cons.2 hd)
    rw [h'.mounted v hvl hvs, h.mounted v hvd hvds]
  tmpfs v hv := by
    obtain ⟨hvl, hvd⟩ := not_or.1 (mt List.mem_cons.2 hv)
    rw [h'.tmpfs v hvl, h.tmpfs v hvd]

/-! ## Local commands -/

/-- The commands that encrypt the volumes in `L`, and mount on directories of `L`
    and `D`. -/
def Local (L D : String → Prop) : EncryptCmd → Prop
  | .mount _ dev dir => (∃ d, D d ∧ ¬ L d ∧ dir = tmpDir d) ∨
    ∃ v, L v ∧ dir = tmpDir v ∧ dev = decryptDev v
  | .umount dirs => ∀ dir ∈ dirs, ∃ d, (D d ∨ L d) ∧ dir = tmpDir d
  | .dmsetupCreate label table => ∃ v, L v ∧ label = decryptLabel v ∧ table.device = lv v
  | .dmsetupRemove label => ∃ v, L v ∧ label = decryptLabel v
  | .mkfsExt4 dev => ∃ v, L v ∧ dev = decryptDev v
  | .cp _ dst => ∃ v, L v ∧ dst = tmpDir v
  | .dd _ dst => ∃ v, L v ∧ dst = decryptDev v
  | .lvremove _ _ => False
  | _ => True

theorem Within.mount {dev dir : String} {ro : Bool} (h : Within L D s₀ s)
    (hc : Local L D (.mount ro dev dir)) : Within L D s₀ (s.mount dir dev) where
  volume := h.volume
  present := h.present
  own := h.own
  mapping := h.mapping
  target v hv dev' hdev' := by
    rcases hc with ⟨d, hD, hL, rfl⟩ | ⟨w, hw, rfl, rfl⟩
    · have hne : tmpDir v ≠ tmpDir d := by rw [Ne, tmpDir_inj]; rintro rfl; exact hL hv
      rw [mount_mountedOn_ne hne] at hdev'
      exact h.target v hv dev' hdev'
    · by_cases hvw : v = w
      · subst hvw
        rw [mount_mountedOn_self] at hdev'
        exact (Option.some.inj hdev').symm
      · rw [mount_mountedOn_ne (by rwa [Ne, tmpDir_inj])] at hdev'
        exact h.target v hv dev' hdev'
  mounted v hL hD := by
    rw [mount_mountedOn_ne, h.mounted v hL hD]
    rintro rfl
    rcases hc with ⟨d, hD', -, heq⟩ | ⟨w, hw, heq, -⟩
    · exact hD (tmpDir_inj.1 heq ▸ hD')
    · exact hL (tmpDir_inj.1 heq ▸ hw)
  tmpfs := h.tmpfs

/-- A mapping of a volume in `L` comes or goes. -/
theorem Within.remap {v : String} {t : Option (String × K)} (h : Within L D s₀ s) (hv : L v)
    (ht : ∀ x ∈ t, x.1 = lv v) : Within L D s₀ (s.remap (decryptDev v) t) where
  volume := h.volume
  present := h.present
  own w hw x hx := by
    by_cases hwv : w = v
    · subst hwv
      rw [remap_mapping_self] at hx
      exact ht x hx
    · rw [remap_mapping_ne (by rwa [Ne, decryptDev_inj])] at hx
      exact h.own w hw x hx
  mapping dev hdev := by rw [remap_mapping_ne (hdev v hv), h.mapping dev hdev]
  target := h.target
  mounted := h.mounted
  tmpfs := h.tmpfs

/-- Files copied to the directory of a volume in `L`. -/
theorem Within.cp {v : String} {f : Files} (h : Within L D s₀ s) (hv : L v) :
    Within L D s₀ { s with tmpfs := Function.update s.tmpfs (tmpDir v) f } where
  volume := h.volume
  present := h.present
  own := h.own
  mapping := h.mapping
  target := h.target
  mounted := h.mounted
  tmpfs w hw := by
    rw [← h.tmpfs w hw]
    exact Function.update_of_ne (by rw [Ne, tmpDir_inj]; rintro rfl; exact hw hv) ..

theorem Within.keys {b f k : Option K} (h : Within L D s₀ s) :
    Within L D s₀ { s with blob := b, keyFile := f, keyring := k } :=
  ⟨h.volume, h.present, h.own, h.mapping, h.target, h.mounted, h.tmpfs⟩

/-- A local command that succeeds. -/
theorem Within.success {r : Resp K B} {c : EncryptCmd} (h : Within L D s₀ s) (hc : Local L D c) :
    Within L D s₀ (s.success p r c) := by
  cases c with
  | mount ro dev dir => exact h.mount hc
  | umount dirs => exact h.umount hc
  | caamKeygenCreate key => exact h.keys
  | keyctlPadd file => exact h.keys
  | rm file =>
    simp only [Host.success]
    split_ifs
    exacts [h.keys, h]
  | dmsetupCreate label table =>
    obtain ⟨v, hv, rfl, hdev⟩ := hc
    refine h.remap hv fun x hx => ?_
    obtain ⟨k, -, rfl⟩ := Option.map_eq_some_iff.1 hx
    exact hdev
  | dmsetupRemove label =>
    obtain ⟨v, hv, rfl⟩ := hc
    exact h.remap hv fun x hx => by cases hx
  | mkfsExt4 dev =>
    obtain ⟨v, hv, rfl⟩ := hc
    simp only [Host.success]
    split
    exacts [h.write hv, h]
  | cp src dst =>
    obtain ⟨v, hv, rfl⟩ := hc
    simp only [Host.success]
    split
    · rename_i f dev hf hdev
      obtain rfl := h.target v hv dev hdev
      split
      exacts [h.write hv, h]
    · exact h.cp hv
    · exact h
  | dd src dst =>
    obtain ⟨v, hv, rfl⟩ := hc
    simp only [Host.success]
    split
    exacts [h.write hv, h]
  | lvremove devices lvs => exact hc.elim
  | _ => exact h

/-- A local command that fails. -/
theorem Within.failure {r : Resp K B} {c : EncryptCmd} (h : Within L D s₀ s) (hc : Local L D c) :
    Within L D s₀ (s.failure p r c) := by
  cases c with
  | umount dirs => exact h.umount fun dir hdir => hc dir (List.mem_of_mem_filter hdir)
  | caamKeygenCreate key =>
    simp only [Host.failure]
    split_ifs
    exacts [h.keys, h]
  | mkfsExt4 dev =>
    obtain ⟨v, hv, rfl⟩ := hc
    exact h.write hv
  | cp src dst =>
    obtain ⟨v, hv, rfl⟩ := hc
    simp only [Host.failure]
    split
    · rename_i dev hdev
      obtain rfl := h.target v hv dev hdev
      exact h.write hv
    · exact h
  | dd src dst =>
    obtain ⟨v, hv, rfl⟩ := hc
    exact h.write hv
  | lvremove devices lvs => exact hc.elim
  | _ => exact h

/-- **What is left alone**, whatever is responded. -/
theorem Within.next {c : Issued} {r : Resp K B} (hc : Local L D c.cmd) (h : Within L D s₀ s) :
    Within L D s₀ ((host p).next c r s) := by
  simp only [host]
  split_ifs
  exacts [h.success hc, h.failure hc]

/-! ## Keys -/

/-- The commands that do not touch the key. -/
def Keyless : EncryptCmd → Prop
  | .caamKeygenCreate _ => False
  | .keyctlPadd _ => False
  | .rm _ => False
  | _ => True

structure SameKeys (s₀ s : Host K B) : Prop where
  blob : s.blob = s₀.blob
  keyFile : s.keyFile = s₀.keyFile
  keyring : s.keyring = s₀.keyring

theorem SameKeys.refl : SameKeys s s := ⟨rfl, rfl, rfl⟩

theorem SameKeys.trans {s₁ : Host K B} (h : SameKeys s₀ s₁) (h' : SameKeys s₁ s) : SameKeys s₀ s :=
  ⟨h'.blob.trans h.blob, h'.keyFile.trans h.keyFile, h'.keyring.trans h.keyring⟩

theorem SameKeys.write (dev : String) (c : ℕ → B) : SameKeys s (s.write p dev c) := by
  unfold Host.write
  split <;> exact ⟨rfl, rfl, rfl⟩

theorem SameKeys.success {r : Resp K B} {c : EncryptCmd} (hc : Keyless c) :
    SameKeys s (s.success p r c) := by
  cases c with
  | caamKeygenCreate key => exact hc.elim
  | keyctlPadd file => exact hc.elim
  | rm file => exact hc.elim
  | mkfsExt4 dev =>
    simp only [Host.success]
    split
    exacts [.write .., .refl]
  | cp src dst =>
    simp only [Host.success]
    split
    · split
      exacts [.write .., .refl]
    · exact ⟨rfl, rfl, rfl⟩
    · exact .refl
  | dd src dst =>
    simp only [Host.success]
    split
    exacts [.write .., .refl]
  | _ => exact ⟨rfl, rfl, rfl⟩

theorem SameKeys.failure {r : Resp K B} {c : EncryptCmd} (hc : Keyless c) :
    SameKeys s (s.failure p r c) := by
  cases c with
  | caamKeygenCreate key => exact hc.elim
  | mkfsExt4 dev => exact .write ..
  | cp src dst =>
    simp only [Host.failure]
    split
    exacts [.write .., .refl]
  | dd src dst => exact .write ..
  | _ => exact ⟨rfl, rfl, rfl⟩

theorem SameKeys.next {c : Issued} {r : Resp K B} (hc : Keyless c.cmd) (h : SameKeys s₀ s) :
    SameKeys s₀ ((host p).next c r s) := by
  simp only [host]
  split_ifs
  exacts [h.trans (.success hc), h.trans (.failure hc)]

end

/-! ## The steps -/

section
variable {P : Issued → Prop} {L D : String → Prop} {step label source : String}

theorem calls_mkdirMount {ro : Bool} {dev dir : String} (hmkdir : P ⟨step, .mkdir dir⟩)
    (hmount : P ⟨step, .mount ro dev dir⟩) : (mkdirMount step ro dev dir).Calls P :=
  .bind (.ask hmkdir) fun _ => .ite (.bind (.ask hmount) fun _ => trivial) trivial

theorem calls_dmsetupCreate {dev : String} (hgetsz : P ⟨step, .blockdevGetsz dev⟩)
    (hcreate : ∀ table, table.device = dev → P ⟨step, .dmsetupCreate label table⟩) :
    (dmsetupCreate step label dev).Calls P :=
  .bind (.ask hgetsz) fun _ => .bind (.ask (hcreate _ rfl)) fun _ => trivial

/-- What the script unmounts at the end of a step. -/
def stepDirs (label source : String) : List String := [tmpDir label, tmpDir source]

theorem encryptAndPopulate_eq : encryptAndPopulate label source = (do
    dmsetupCreate label (decryptLabel label) (lv label)
    let _ ← run label (.mkfsExt4 (decryptDev label))
    mkdirMount label false (decryptDev label) (tmpDir label)
    mkdirMount label true (lv source) (tmpDir source)
    let _ ← run label (.cp (tmpDir source) (tmpDir label))
    let _ ← run label (.umount (stepDirs label source))
    let _ ← run label .sleep
    let _ ← run label (.dmsetupRemove (decryptLabel label))
    pure ()) := rfl

theorem encryptAndClone_eq : encryptAndClone label source = (do
    dmsetupCreate label (decryptLabel label) (lv label)
    let _ ← run label (.dd (lv source) (decryptDev label))
    let _ ← run label .sleep
    let _ ← run label (.dmsetupRemove (decryptLabel label))
    pure ()) := rfl

/-- The commands of a step that encrypts a volume in `L` from a source in `D`. -/
def StepCmd (L D : String → Prop) (c : Issued) : Prop := Local L D c.cmd ∧ Keyless c.cmd

theorem calls_encryptAndPopulate (hL : L label) (hD : D source) (hsource : ¬ L source) :
    (encryptAndPopulate label source).Calls (StepCmd L D) := by
  refine .bind (calls_dmsetupCreate ⟨trivial, trivial⟩ fun table ht =>
    ⟨⟨label, hL, rfl, ht⟩, trivial⟩) fun _ => ?_
  refine .bind (.ask ⟨⟨label, hL, rfl⟩, trivial⟩) fun _ => ?_
  refine .bind (calls_mkdirMount ⟨trivial, trivial⟩ ⟨Or.inr ⟨label, hL, rfl, rfl⟩, trivial⟩)
    fun _ => ?_
  refine .bind (calls_mkdirMount ⟨trivial, trivial⟩ ⟨Or.inl ⟨source, hD, hsource, rfl⟩, trivial⟩)
    fun _ => ?_
  refine .bind (.ask ⟨⟨label, hL, rfl⟩, trivial⟩) fun _ => ?_
  refine .bind (.ask ⟨fun dir hdir => ?_, trivial⟩) fun _ => ?_
  · rcases List.mem_pair.1 hdir with rfl | rfl
    exacts [⟨label, Or.inr hL, rfl⟩, ⟨source, Or.inl hD, rfl⟩]
  refine .bind (.ask ⟨trivial, trivial⟩) fun _ => ?_
  exact .bind (.ask ⟨⟨label, hL, rfl⟩, trivial⟩) fun _ => trivial

theorem calls_encryptAndClone (hL : L label) :
    (encryptAndClone label source).Calls (StepCmd L D) := by
  refine .bind (calls_dmsetupCreate ⟨trivial, trivial⟩ fun table ht =>
    ⟨⟨label, hL, rfl, ht⟩, trivial⟩) fun _ => ?_
  refine .bind (.ask ⟨⟨label, hL, rfl⟩, trivial⟩) fun _ => ?_
  refine .bind (.ask ⟨trivial, trivial⟩) fun _ => ?_
  exact .bind (.ask ⟨⟨label, hL, rfl⟩, trivial⟩) fun _ => trivial

theorem calls_createKey (hD : D "keystore") (hL : ¬ L "keystore") :
    createKey.Calls fun c => Local L D c.cmd := by
  refine .bind (calls_mkdirMount trivial (Or.inl ⟨"keystore", hD, hL, rfl⟩)) fun _ => ?_
  refine .bind (.ask trivial) fun _ => .bind (.ask trivial) fun _ => ?_
  refine .bind (.ask trivial) fun _ => ?_
  refine .bind (.ask fun dir hdir => ?_) fun _ => trivial
  rw [List.mem_singleton.1 hdir]
  exact ⟨"keystore", Or.inl hD, rfl⟩

/-- **The frame rule**: a step keeps the key, and whatever it is not about. -/
theorem wp_frame {K B : Type} {p : Platform K B} {s : Host K B} {script : Script Unit}
    {J : Judge Issued (fun _ => Resp K B) ℕ (Host K B)} {Q : Unit → Host K B → Prop}
    (h : wp (host p) J script Q s) (hcalls : script.Calls (StepCmd L D)) (hidle : Idle L s) :
    wp (host p) J script (fun a s' => Q a s' ∧ Within L D s s' ∧ SameKeys s s') s := by
  have hkeep : ∀ c r s', StepCmd L D c → Within L D s s' ∧ SameKeys s s' →
      Within L D s ((host p).next c r s') ∧ SameKeys s ((host p).next c r s') :=
    fun _ _ _ hc hs => ⟨hs.1.next hc.1, hs.2.next hc.2⟩
  exact wp_and h (wp_calls J hcalls hkeep ⟨.start hidle, .refl⟩) fun _ _ h => h

end

end MetaHipos.Initrd.Encrypt
