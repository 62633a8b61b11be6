/-
  The manifest is well formed: what a configuration refers to is there.

  * `manifest_references`: every reference to a device tree, a ramdisk or a boot
    script names an image, and references to the kernel do exactly if there is one;
  * `manifest_signed`: the signature of a configuration is about the images that
    it refers to, all of them.
-/
import MetaHipos.Fitimage.Sections

namespace MetaHipos.Fitimage

open Dts Process

variable {d : Datastore} {out : Outside}

/-! ## Properties of nodes -/

section
variable {name value p : String} {rest is : Items} {v : Option String}

theorem values_str : (str name value rest).values p.toList =
    if name = p then .strs value.toList [] :: rest.values p.toList else rest.values p.toList := by
  by_cases h : name = p
  · rw [if_pos h, h]
    exact if_pos rfl
  · rw [if_neg h]
    exact if_neg fun h' => h (String.toList_inj.1 h')

theorem values_optStr : (optStr name v rest).values p.toList =
    if truthy v = true ∧ name = p then .strs (fmt v).toList [] :: rest.values p.toList
    else rest.values p.toList := by
  rw [optStr]
  by_cases hv : truthy v = true
  · simp only [hv, if_true, values_str, true_and]
  · simp only [hv, if_false, false_and, Bool.false_eq_true]

theorem values_optSignature {s : String} {more : List String} :
    (optSignature d s more).values p.toList = [] := by
  rw [optSignature]
  split_ifs <;> rfl

theorem nodes_optStr : (optStr name v rest).nodes = rest.nodes := by
  rw [optStr]
  split_ifs <;> rfl

theorem child_optStr {n : Text} : (optStr name v rest).child n = rest.child n := by
  rw [optStr]
  split_ifs <;> rfl

end

/-- The nodes of a list of trees with one node each. -/
theorem nodes_concat {α : Type} {tree : α → Items} {name : α → String} {items : α → Items}
    (h : ∀ x, (tree x).nodes = [((name x).toList, items x)]) (xs : List α) :
    (concat (xs.map tree)).nodes = xs.map fun x => ((name x).toList, items x) := by
  induction xs with
  | nil => rfl
  | cons x xs ih =>
    show (tree x ++ concat (xs.map tree)).nodes = _
    rw [nodes_append, h, ih]
    rfl

theorem values_concat {α : Type} {tree : α → Items} (n : Text) (xs : List α) :
    (concat (xs.map tree)).values n = xs.flatMap fun x => (tree x).values n := by
  induction xs with
  | nil => rfl
  | cons x xs ih =>
    show (tree x ++ concat (xs.map tree)).values n = _
    rw [values_append, ih]
    rfl

theorem nodes_section (s : Section) : (s.tree d).nodes = [(s.name.toList, s.items d)] := rfl

theorem nodes_config (c : Config) : (c.tree d).nodes = [((c.name d).toList, c.items d)] := by
  rw [Config.tree, nodes_optStr]
  rfl

/-! ## References -/

/-- The node `body` of a configuration names the image `r` in its property `p`. -/
def Refers (body : Items) (p : String) (r : Text) : Prop := Value.strs r [] ∈ body.values p.toList

/-- The properties that name images. -/
def refNames : List String := ["kernel", "fdt", "ramdisk", "bootscr"]

/-- The signature of the node `body` is about the image of its property `p`. -/
def Signs (body : Items) (p : String) : Prop :=
  ∃ sig s more, body.child "signature-1".toList = some sig ∧
    Value.strs s more ∈ sig.values "sign-images".toList ∧ p.toList ∈ s :: more

section
variable {dtb ramdiskcount : String} {bootscriptid compatible : Option String} {k : ℕ} {r : Text}

theorem truthy_ite {c : Prop} [Decidable c] {s : String} (hs : s ≠ "") :
    truthy (if c then some s else none) = true ↔ c := by
  split_ifs with h
  · simpa [truthy, h] using hs
  · simpa [truthy] using h

/-- What a configuration of a device tree refers to. -/
theorem refers_conf {p : String} (hp : p ∈ refNames) :
    Refers ((Config.conf dtb ramdiskcount bootscriptid compatible k).items d) p r ↔
      (p = "kernel" ∧ r = "kernel-1".toList) ∨
      (p = "fdt" ∧ r = ("fdt-" ++ dtb).toList) ∨
      (p = "ramdisk" ∧ ramdiskcount ≠ "" ∧ r = ("ramdisk-" ++ ramdiskcount).toList) ∨
      (p = "bootscr" ∧ truthy bootscriptid = true ∧
        r = ("bootscr-" ++ fmt bootscriptid).toList) := by
  have hne : ∀ s : String, "ramdisk-" ++ s ≠ "" ∧ "bootscr-" ++ s ≠ "" := by simp
  simp only [Refers, Config.items, values_str, values_optStr, values_optSignature,
    truthy_ite (hne _).1, truthy_ite (hne _).2]
  simp only [refNames, List.mem_cons, List.not_mem_nil, or_false] at hp
  rcases hp with rfl | rfl | rfl | rfl
  · simp
  · simp
  · by_cases h : ramdiskcount = "" <;> simp [h, fmt]
  · by_cases h : truthy bootscriptid = true <;> simp [h, fmt]

/-- What a configuration of an overlay refers to. -/
theorem refers_overlay {p : String} (hp : p ∈ refNames) :
    Refers ((Config.overlay dtb compatible).items d) p r ↔
      p = "fdt" ∧ r = ("fdt-" ++ dtb).toList := by
  simp only [Refers, Config.items, values_str, values_optStr, values_optSignature]
  simp only [refNames, List.mem_cons, List.not_mem_nil, or_false] at hp
  rcases hp with rfl | rfl | rfl | rfl <;> simp

end

/-- What the signature of a configuration is about. -/
theorem signs_iff {body : Items} {s p : String} {more : List String}
    (hbody : body.child "signature-1".toList =
      (optSignature d s more).child "signature-1".toList) :
    Signs body p ↔ d.getVar "FITIMAGE_SIGN" = some "1" ∧ p ∈ s :: more := by
  have hmem : p.toList ∈ s.toList :: more.map String.toList ↔ p ∈ s :: more := by
    rw [← List.map_cons, List.mem_map]
    constructor
    · rintro ⟨q, hq, hqp⟩
      rwa [← String.toList_inj.1 hqp]
    · exact fun hp => ⟨p, hp, rfl⟩
  rw [Signs, hbody, optSignature]
  split_ifs with hsign
  · have hvalues : ∀ sig, (signature d s more .nil).child "signature-1".toList = some sig →
        sig.values "sign-images".toList = [.strs s.toList (more.map String.toList)] := by
      rintro sig ⟨⟩
      rw [values_str, if_neg (by decide), values_optStr, if_neg (by simp)]
      exact congrArg _ rfl
    constructor
    · rintro ⟨sig, t, ts, hsig, hval, hp⟩
      rw [hvalues sig hsig, List.mem_singleton] at hval
      cases hval
      exact ⟨hsign, hmem.1 hp⟩
    · rintro ⟨-, hp⟩
      refine ⟨_, _, _, rfl, ?_, hmem.2 hp⟩
      rw [hvalues _ rfl]
      exact List.mem_singleton_self _
  · constructor
    · rintro ⟨sig, _, _, hsig, -⟩
      cases hsig
    · exact fun h => absurd h.1 hsign

theorem mem_signImages {dtb ramdiskcount p : String} {bootscriptid : Option String} :
    p ∈ signImages dtb ramdiskcount "" bootscriptid ↔ p = "kernel" ∨ (p = "fdt" ∧ dtb ≠ "") ∨
      (p = "ramdisk" ∧ ramdiskcount ≠ "") ∨ (p = "bootscr" ∧ truthy bootscriptid = true) := by
  simp only [signImages, ne_eq, not_true_eq_false, if_false, List.append_nil, List.mem_append,
    List.mem_ite_nil_right, List.mem_singleton, or_assoc, and_comm]

theorem signs_conf {dtb ramdiskcount p : String} {bootscriptid compatible : Option String} {k : ℕ} :
    Signs ((Config.conf dtb ramdiskcount bootscriptid compatible k).items d) p ↔
      d.getVar "FITIMAGE_SIGN" = some "1" ∧ p ∈ signImages dtb ramdiskcount "" bootscriptid := by
  have himages : signImages dtb ramdiskcount "" bootscriptid =
      "kernel" :: (signImages dtb ramdiskcount "" bootscriptid).tail := rfl
  rw [himages]
  refine signs_iff ?_
  show (optStr _ _ (optStr _ _ (optStr _ _ _))).child _ = _
  rw [child_optStr, child_optStr, child_optStr]

theorem signs_overlay {dtb p : String} {compatible : Option String} :
    Signs ((Config.overlay dtb compatible).items d) p ↔
      d.getVar "FITIMAGE_SIGN" = some "1" ∧ p ∈ ["fdt"] := by
  refine signs_iff ?_
  show (optStr _ _ _).child _ = _
  rw [child_optStr]

/-! ## Sections and configurations of a manifest -/

/-- `FITIMAGE_IMAGES` -/
def fitimageImages (d : Datastore) : List String :=
  pySplit (pyOr (d.getVar "FITIMAGE_IMAGES") "")

/-- The text of the tree `root`, which comes back if its texts are clean. -/
structure IsManifest (text : String) (root images configs : Items) : Prop where
  eq_render : text.toList = Dts.render root
  parse : root.Clean → Dts.parse text.toList = some root
  images : root.child "images".toList = some images
  configs : root.child "configurations".toList = some configs

section
variable {α β : Type} {as : List α}

theorem exists_of_mem_right {R : α → β → Prop} {bs : List β} (h : List.Forall₂ R as bs) {b : β}
    (hb : b ∈ bs) : ∃ a ∈ as, R a b := by
  induction h with
  | nil => cases hb
  | @cons a b' as bs hab _ ih =>
    rcases List.mem_cons.1 hb with rfl | hb
    · exact ⟨a, List.mem_cons_self, hab⟩
    · obtain ⟨a', ha', hR⟩ := ih hb
      exact ⟨a', List.mem_cons_of_mem a ha', hR⟩

theorem exists_of_mem_left {R : α → β → Prop} {bs : List β} (h : List.Forall₂ R as bs) {a : α}
    (ha : a ∈ as) : ∃ b ∈ bs, R a b :=
  exists_of_mem_right h.flip ha

theorem exists_of_mem_flatten {R : α → List β → Prop} {bss : List (List β)}
    (h : List.Forall₂ R as bss) {b : β} (hb : b ∈ bss.flatten) :
    ∃ a ∈ as, ∃ bs, R a bs ∧ b ∈ bs := by
  obtain ⟨bs, hbs, hb⟩ := List.mem_flatten.1 hb
  obtain ⟨a, ha, hR⟩ := exists_of_mem_right h hbs
  exact ⟨a, ha, bs, hR, hb⟩

end

/-- The files that `fdtapply` makes have names without blanks. -/
def AppliedWords (d : Datastore) : Prop :=
  ∀ image ∈ fitimageImages d, imgtypeOf d image = "fdtapply" → IsPyWord (appliedPath d image)

section
variable {text : String} {secs : List Section} {cs : List Config}

theorem ManifestOf.isManifest (h : ManifestOf d out text secs cs) :
    IsManifest text (manifestTree d secs cs) (concat (secs.map (Section.tree d)))
      (concat (cs.map (Config.tree d))) where
  eq_render := h.text
  parse hclean := by rw [h.text, parse_render hclean]
  images := rfl
  configs := rfl

theorem ManifestOf.dtb_word (h : ManifestOf d out text secs cs) (hwords : AppliedWords d)
    {path : String} (hpath : .dtb path ∈ secs ∨ .overlay path ∈ secs) : IsPyWord path := by
  obtain ⟨sss, hsss, rfl⟩ := h.images
  have hfiles : ∀ {suffix image files}, FilesOf d out suffix image files → path ∈ files →
      IsPyWord path := by
    rintro suffix image files ⟨default, -, rfl⟩ hmem
    exact isPyWord_of_mem hmem
  rcases hpath with hpath | hpath
  · obtain ⟨image, himage, secs, hmakes, hmem⟩ := exists_of_mem_flatten hsss hpath
    rcases hmakes with ⟨_, _, _, _, rfl⟩ | ⟨_, files, hof, rfl⟩ | ⟨_, files, hof, rfl⟩ |
      ⟨htype, rfl⟩ | ⟨_, _, _, rfl⟩ | ⟨_, _, rfl⟩
    · simp at hmem
    · exact hfiles hof (by simpa using hmem)
    · simp at hmem
    · obtain rfl : path = appliedPath d image := by simpa using hmem
      exact hwords image himage htype
    · simp at hmem
    · simp at hmem
  · obtain ⟨image, himage, secs, hmakes, hmem⟩ := exists_of_mem_flatten hsss hpath
    rcases hmakes with ⟨_, _, _, _, rfl⟩ | ⟨_, files, hof, rfl⟩ | ⟨_, files, hof, rfl⟩ |
      ⟨_, rfl⟩ | ⟨_, _, _, rfl⟩ | ⟨_, _, rfl⟩
    · simp at hmem
    · simp at hmem
    · exact hfiles hof (by simpa using hmem)
    · simp at hmem
    · simp at hmem
    · simp at hmem

theorem ConfigsOf.mem {ramdiskcount : String} {bootscriptid : Option String} {k : ℕ}
    {dtbs : List String} (h : ConfigsOf out ramdiskcount bootscriptid k dtbs cs) {c : Config}
    (hc : c ∈ cs) : ∃ dtb ∈ dtbs, ∃ compatible j,
      c = .conf (ospathSplit dtb).2 ramdiskcount bootscriptid compatible j := by
  induction h with
  | nil => cases hc
  | @cons k dtb compatible dtbs cs _ _ ih =>
    rcases List.mem_cons.1 hc with rfl | hc
    · exact ⟨dtb, List.mem_cons_self, _, _, rfl⟩
    · obtain ⟨dtb', hmem, hconf⟩ := ih hc
      exact ⟨dtb', List.mem_cons_of_mem dtb hmem, hconf⟩

/-- The configurations are those of the device trees and overlays. -/
theorem ManifestOf.config_mem (h : ManifestOf d out text secs cs) (hwords : AppliedWords d)
    {c : Config} (hc : c ∈ cs) :
    (∃ path ramdiskcount bootscriptid compatible k, .dtb path ∈ secs ∧
      c = .conf (ospathSplit path).2 ramdiskcount bootscriptid compatible k ∧
      (ramdiskcount = if secs.any Section.isRamdisk then "1" else "") ∧
      (truthy bootscriptid = true → ∃ path, .bootscript path bootscriptid ∈ secs)) ∨
    ∃ path compatible, .overlay path ∈ secs ∧ c = .overlay (ospathSplit path).2 compatible := by
  obtain ⟨ramdiskcount, bootscriptid, confs, overlays, rfl, hconfs, hoverlays, hram, hboot⟩ :=
    h.configs
  rcases List.mem_append.1 hc with hc | hc
  · obtain ⟨dtb, hdtb, compatible, k, rfl⟩ := hconfs.mem hc
    obtain ⟨path, hpath, hdtb⟩ := List.mem_flatMap.1 hdtb
    obtain ⟨s, hs, hspath⟩ := List.mem_filterMap.1 hpath
    obtain rfl : s = .dtb path := by cases s <;> simp_all [Section.dtbPath]
    rw [pySplit_word (h.dtb_word hwords (.inl hs)), List.mem_singleton] at hdtb
    subst hdtb
    exact .inl ⟨dtb, _, _, _, _, hs, rfl, hram, hboot⟩
  · obtain ⟨dtb, hdtb, compatible, -, rfl⟩ := exists_of_mem_right hoverlays hc
    obtain ⟨path, hpath, hdtb⟩ := List.mem_flatMap.1 hdtb
    obtain ⟨s, hs, hspath⟩ := List.mem_filterMap.1 hpath
    obtain rfl : s = .overlay path := by cases s <;> simp_all [Section.overlayPath]
    rw [pySplit_word (h.dtb_word hwords (.inr hs)), List.mem_singleton] at hdtb
    subst hdtb
    exact .inr ⟨dtb, _, hs, rfl⟩

/-- The images are the sections. -/
theorem mem_names {r : Text} : r ∈ (concat (secs.map (Section.tree d))).names ↔
    ∃ s ∈ secs, s.name.toList = r := by
  rw [Items.names, nodes_concat (nodes_section (d := d)), List.map_map, List.mem_map]
  rfl

/-- Only an image of the type `kernel` is the kernel. -/
theorem kernel_mem_names (h : ManifestOf d out text secs cs) :
    "kernel-1".toList ∈ (concat (secs.map (Section.tree d))).names ↔
      ∃ image ∈ fitimageImages d, imgtypeOf d image = "kernel" := by
  obtain ⟨sss, hsss, rfl⟩ := h.images
  rw [mem_names]
  constructor
  · rintro ⟨s, hs, hname⟩
    obtain ⟨image, himage, secs, hmakes, hmem⟩ := exists_of_mem_flatten hsss hs
    refine ⟨image, himage, ?_⟩
    rcases hmakes with ⟨htype, -⟩ | ⟨_, files, -, rfl⟩ | ⟨_, files, -, rfl⟩ | ⟨_, rfl⟩ |
      ⟨_, _, _, rfl⟩ | ⟨_, _, rfl⟩
    · exact htype
    · obtain ⟨f, -, rfl⟩ := List.mem_map.1 hmem
      simp [Section.name] at hname
    · obtain ⟨f, -, rfl⟩ := List.mem_map.1 hmem
      simp [Section.name] at hname
    · rw [List.mem_singleton.1 hmem] at hname
      simp [Section.name] at hname
    · rw [List.mem_singleton.1 hmem] at hname
      simp [Section.name] at hname
    · rw [List.mem_singleton.1 hmem] at hname
      simp [Section.name] at hname
  · rintro ⟨image, himage, htype⟩
    obtain ⟨secs, hmem, hmakes⟩ := exists_of_mem_left hsss himage
    rcases hmakes with ⟨_, a, b, c, rfl⟩ | ⟨h', -⟩ | ⟨h', -⟩ | ⟨h', -⟩ | ⟨h', -⟩ | ⟨h', -⟩
    · exact ⟨_, List.mem_flatten_of_mem hmem (List.mem_singleton_self _), rfl⟩
    all_goals simp [h'] at htype

/-- The configurations, with their contents. -/
theorem nodes_configs (cs : List Config) : (concat (cs.map (Config.tree d))).nodes =
    cs.map fun c => ((c.name d).toList, c.items d) := nodes_concat nodes_config cs

/-- A default is written for a configuration. -/
theorem values_default (c : Config) : (c.tree d).values "default".toList =
    if truthy (c.default d) = true then [.strs (fmt (c.default d)).toList []] else [] := by
  rw [Config.tree, values_optStr]
  by_cases h : truthy (c.default d) = true
  · rw [if_pos ⟨h, rfl⟩, if_pos h]
    rfl
  · rw [if_neg fun h' => h h'.1, if_neg h]
    rfl

theorem default_eq_none {ramdiskcount : String} {bootscriptid : Option String} {k : ℕ} {dtbs : List String}
    (h : ConfigsOf out ramdiskcount bootscriptid k dtbs cs) (hk : 1 < k) :
    cs.flatMap (fun c => (c.tree d).values "default".toList) = [] := by
  induction h with
  | nil => rfl
  | @cons k dtb compatible dtbs cs _ _ ih =>
    rw [List.flatMap_cons, ih (by omega), values_default, Config.default, if_neg (Nat.ne_of_gt hk)]
    rfl

/-- There is one default at most. -/
theorem ManifestOf.default_of (h : ManifestOf d out text secs cs) :
    (cs.flatMap fun c => (c.tree d).values "default".toList) = [] ∨
    ∃ s : String, (cs.flatMap fun c => (c.tree d).values "default".toList) = [.strs s.toList []] ∧
      (d.getVar "FITIMAGE_DEFAULT_CONFIG" = some s ∨ ∃ c ∈ cs, c.name d = s) := by
  obtain ⟨ramdiskcount, bootscriptid, confs, overlays, rfl, hconfs, hoverlays, -⟩ := h.configs
  have hover : overlays.flatMap (fun c => (c.tree d).values "default".toList) = [] := by
    refine List.flatMap_eq_nil_iff.2 fun c hc => ?_
    obtain ⟨dtb, -, compatible, -, rfl⟩ := exists_of_mem_right hoverlays hc
    rw [values_default]
    rfl
  rw [List.flatMap_append, hover, List.append_nil]
  generalize (secs.filterMap Section.dtbPath).flatMap pySplit = dtbs at hconfs
  cases hconfs with
  | nil => exact .inl rfl
  | @cons _ dtb compatible dtbs cs _ hrest =>
    rw [List.flatMap_cons, default_eq_none hrest (by omega), List.append_nil, values_default]
    split_ifs with ht
    · refine .inr ⟨_, rfl, ?_⟩
      rw [Config.default, if_pos rfl, fmt, Option.getD_some, pyOr]
      by_cases hd : truthy (d.getVar "FITIMAGE_DEFAULT_CONFIG") = true
      · rw [if_pos hd]
        cases hvar : d.getVar "FITIMAGE_DEFAULT_CONFIG" with
        | none => simp [hvar, truthy] at hd
        | some s => exact .inl rfl
      · rw [if_neg hd]
        exact .inr ⟨_, List.mem_append_left _ List.mem_cons_self, rfl⟩
    · exact .inl rfl

end

/-! ## The image of a board -/

/-- The variables of a build for himx0294. -/
def himx0294Vars : List (String × String) :=
  [("FITIMAGE_IMAGES", "kernel fdt ramdisk"), ("FITIMAGE_CONFIG_PREFIX", "conf-"),
    ("FITIMAGE_SIGN", "1"), ("FITIMAGE_SIGN_KEYNAME", "dev"), ("FITIMAGE_HASH_ALGO", "sha256"),
    ("FITIMAGE_ENCRYPT_ALGO", "rsa2048"), ("FITIMAGE_LOADADDRESS", "0x10008000"),
    ("FITIMAGE_ENTRYPOINT", "0x10008000"), ("FITIMAGE_DTB_LOADADDRESS", "0x22000000"),
    ("FITIMAGE_IMAGE_ramdisk", "hipos-initramfs-image"), ("INITRAMFS_FSTYPES", "cpio.gz"),
    ("DEPLOY_DIR_IMAGE", "/deploy"), ("KERNEL_IMAGETYPE", "zImage"), ("MACHINE", "himx0294"),
    ("ARCH", "arm"), ("B", "/build")]

def himx0294 : Datastore where
  getVar v := himx0294Vars.lookup v
  getVarFlag var flag :=
    if var = "FITIMAGE_IMAGE_fdt" ∧ flag = "type" then some "fdt"
    else if var = "FITIMAGE_IMAGE_fdt" ∧ flag = "file" then
      some "/deploy/imx6q-himx0294-imoc.dtb /deploy/imx6q-himx0294-imoc-2.dtb"
    else if var = "FITIMAGE_IMAGE_ramdisk" ∧ flag = "type" then some "ramdisk"
    else none

/-- The tools work; each device tree is compatible with the board. -/
def himx0294Outside : Outside where
  listdir _ := none
  fdtoverlay _ := none
  fdtget _ := some "dh,imx6q-himx0294 fsl,imx6q\n"

theorem ok_of_isOk {ε α : Type} {x : Except ε α} (h : x.isOk = true) : ∃ a, x = .ok a := by
  cases x with
  | error e => cases h
  | ok a => exact ⟨a, rfl⟩

theorem himx0294_writes : ∃ text, writeManifest himx0294 himx0294Outside = .ok text :=
  ok_of_isOk (by decide +kernel)

theorem himx0294_appliedWords : AppliedWords himx0294 := by
  intro image himage htype
  have himages : ∀ image ∈ fitimageImages himx0294, imgtypeOf himx0294 image ≠ "fdtapply" := by
    decide +kernel
  exact absurd htype (himages image himage)

/-! ## Results -/

section
variable {text : String}

/-- **References.**  There is a configuration.  A reference of a configuration to
    a device tree, a ramdisk or a boot script names an image; one to the kernel
    does if and only if there is an image of this type.  There is one default at
    most: the configured one, or a configuration. -/
theorem manifest_references (h : writeManifest d out = .ok text) (hwords : AppliedWords d) :
    ∃ root images configs, IsManifest text root images configs ∧ configs.nodes ≠ [] ∧
      (∀ c ∈ configs.nodes, ∀ p ∈ refNames, ∀ r, Refers c.2 p r → p ≠ "kernel" →
        r ∈ images.names) ∧
      (∀ c ∈ configs.nodes, ∀ r, Refers c.2 "kernel" r →
        (r ∈ images.names ↔ ∃ image ∈ fitimageImages d, imgtypeOf d image = "kernel")) ∧
      (configs.values "default".toList).length ≤ 1 ∧
      ∀ v ∈ configs.values "default".toList, ∃ s : String, v = .strs s.toList [] ∧
        (d.getVar "FITIMAGE_DEFAULT_CONFIG" = some s ∨ s.toList ∈ configs.names) := by
  obtain ⟨secs, cs, hof⟩ := writeManifest_ok h
  refine ⟨_, _, _, hof.isManifest, ?_, ?_, ?_, ?_⟩
  · rw [nodes_configs]
    exact fun hnil => hof.ne_nil (List.map_eq_nil_iff.1 hnil)
  · rw [nodes_configs]
    intro c hc p hp r hr hkernel
    obtain ⟨c, hmem, rfl⟩ := List.mem_map.1 hc
    rw [mem_names]
    rcases hof.config_mem hwords hmem with ⟨path, ramdiskcount, bootscriptid, compatible, k, hpath,
      rfl, hram, hboot⟩ | ⟨path, compatible, hpath, rfl⟩
    · rcases (refers_conf hp).1 hr with ⟨rfl, -⟩ | ⟨-, rfl⟩ | ⟨-, hne, rfl⟩ | ⟨-, ht, rfl⟩
      · exact absurd rfl hkernel
      · exact ⟨_, hpath, rfl⟩
      · have hany : secs.any Section.isRamdisk = true := by
          by_contra hany
          exact hne (hram.trans (if_neg hany))
        obtain ⟨s, hs, hsram⟩ := List.any_eq_true.1 hany
        refine ⟨s, hs, ?_⟩
        obtain ⟨imgFile, imgPath, rfl⟩ : ∃ a b, s = .ramdisk a b := by
          cases s <;> simp_all [Section.isRamdisk]
        rw [hram, if_pos hany, Section.name]
        decide +kernel
      · obtain ⟨path, hpath⟩ := hboot ht
        exact ⟨_, hpath, rfl⟩
    · obtain ⟨-, rfl⟩ := (refers_overlay hp).1 hr
      exact ⟨_, hpath, rfl⟩
  · rw [nodes_configs]
    intro c hc r hr
    obtain ⟨c, hmem, rfl⟩ := List.mem_map.1 hc
    rw [← kernel_mem_names hof]
    rcases hof.config_mem hwords hmem with ⟨path, ramdiskcount, bootscriptid, compatible, k, hpath,
      rfl, hram, hboot⟩ | ⟨path, compatible, hpath, rfl⟩
    · rcases (refers_conf (by decide)).1 hr with ⟨-, rfl⟩ | ⟨h', -⟩ | ⟨h', -⟩ | ⟨h', -⟩
      · exact Iff.rfl
      all_goals exact absurd h' (by decide)
    · exact absurd ((refers_overlay (by decide)).1 hr).1 (by decide)
  · rw [values_concat, Items.names, nodes_configs, List.map_map]
    rcases hof.default_of with hnone | ⟨s, hone, hs⟩
    · rw [hnone]
      exact ⟨Nat.zero_le _, by simp⟩
    · rw [hone]
      refine ⟨Nat.le_refl 1, fun v hv => ⟨s, List.mem_singleton.1 hv, ?_⟩⟩
      refine hs.imp_right ?_
      rintro ⟨c, hc, rfl⟩
      exact List.mem_map.2 ⟨c, hc, rfl⟩

theorem manifest_references_himx0294 : ∃ (text : String) (root images configs : Items),
    IsManifest text root images configs ∧ configs.nodes ≠ [] ∧
      ∀ c ∈ configs.nodes, ∀ p ∈ refNames, ∀ r, Refers c.2 p r → p ≠ "kernel" →
        r ∈ images.names := by
  obtain ⟨text, h⟩ := himx0294_writes
  obtain ⟨root, images, configs, hof, hne, hrefs, -⟩ :=
    manifest_references h himx0294_appliedWords
  exact ⟨text, root, images, configs, hof, hne, hrefs⟩

/-- **Signatures.**  The signature of a configuration is about images that it
    refers to; with `FITIMAGE_SIGN` it is about all of them, except for a device
    tree without a file name. -/
theorem manifest_signed (h : writeManifest d out = .ok text) :
    ∃ root images configs, IsManifest text root images configs ∧
      ∀ c ∈ configs.nodes,
        (∀ p, Signs c.2 p → d.getVar "FITIMAGE_SIGN" = some "1" ∧ ∃ r, Refers c.2 p r) ∧
        (d.getVar "FITIMAGE_SIGN" = some "1" → ∀ p ∈ refNames, ∀ r, Refers c.2 p r →
          r ≠ "fdt-".toList → Signs c.2 p) := by
  obtain ⟨secs, cs, hof⟩ := writeManifest_ok h
  refine ⟨_, _, _, hof.isManifest, ?_⟩
  rw [nodes_configs]
  intro c hc
  obtain ⟨c, -, rfl⟩ := List.mem_map.1 hc
  cases c with
  | conf dtb ramdiskcount bootscriptid compatible k =>
    refine ⟨fun p hp => ?_, fun hsign p hp r hr hne => ?_⟩
    · obtain ⟨hsign, hp⟩ := signs_conf.1 hp
      refine ⟨hsign, ?_⟩
      rcases mem_signImages.1 hp with rfl | ⟨rfl, -⟩ | ⟨rfl, hne⟩ | ⟨rfl, ht⟩
      · exact ⟨_, (refers_conf (by decide)).2 (.inl ⟨rfl, rfl⟩)⟩
      · exact ⟨_, (refers_conf (by decide)).2 (.inr (.inl ⟨rfl, rfl⟩))⟩
      · exact ⟨_, (refers_conf (by decide)).2 (.inr (.inr (.inl ⟨rfl, hne, rfl⟩)))⟩
      · exact ⟨_, (refers_conf (by decide)).2 (.inr (.inr (.inr ⟨rfl, ht, rfl⟩)))⟩
    · refine signs_conf.2 ⟨hsign, mem_signImages.2 ?_⟩
      rcases (refers_conf hp).1 hr with ⟨rfl, -⟩ | ⟨rfl, rfl⟩ | ⟨rfl, hcount, -⟩ | ⟨rfl, ht, -⟩
      · exact .inl rfl
      · refine .inr (.inl ⟨rfl, fun hdtb => hne ?_⟩)
        rw [hdtb, String.append_empty]
      · exact .inr (.inr (.inl ⟨rfl, hcount⟩))
      · exact .inr (.inr (.inr ⟨rfl, ht⟩))
  | overlay dtb compatible =>
    refine ⟨fun p hp => ?_, fun hsign p hp r hr _ => ?_⟩
    · obtain ⟨hsign, hp⟩ := signs_overlay.1 hp
      obtain rfl := List.mem_singleton.1 hp
      exact ⟨hsign, _, (refers_overlay (by decide)).2 ⟨rfl, rfl⟩⟩
    · obtain ⟨rfl, -⟩ := (refers_overlay hp).1 hr
      exact signs_overlay.2 ⟨hsign, List.mem_singleton_self _⟩

theorem manifest_signed_himx0294 : ∃ (text : String) (root images configs : Items),
    IsManifest text root images configs ∧ ∀ c ∈ configs.nodes, ∀ p ∈ refNames, ∀ r,
      Refers c.2 p r → r ≠ "fdt-".toList → Signs c.2 p := by
  obtain ⟨text, h⟩ := himx0294_writes
  obtain ⟨root, images, configs, hof, hsigns⟩ := manifest_signed h
  exact ⟨text, root, images, configs, hof, fun c hc => (hsigns c hc).2 (by decide +kernel)⟩

end

end MetaHipos.Fitimage
