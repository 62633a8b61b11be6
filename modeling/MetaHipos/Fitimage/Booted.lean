/-
  The configuration that a boot asks for is in the manifest.

  U-Boot derives the name of a configuration from the device tree file of the
  board, the build from the device tree files of the image.

  * `boots_configuration`: what every boot asks for is a configuration of the
    manifest, and its device tree is the one of the board.
-/
import MetaHipos.Fitimage.References
import MetaHipos.Uboot.BootedSlot

namespace MetaHipos.Fitimage

open Dts Process Uboot

variable {d : Datastore} {out : Outside}

theorem child_eq_find (n : Text) (is : Items) :
    is.child n = (is.nodes.find? fun x => decide (x.1 = n)).map Prod.snd := by
  induction is with
  | nil => rfl
  | prop m v is ih => exact ih
  | node m cs is _ ih =>
    show (if m = n then some cs else is.child n) = _
    rw [Items.nodes, List.find?_cons, ih]
    by_cases h : m = n <;> simp [h]

/-- The device tree file `n` is one of the image. -/
def Builds (d : Datastore) (out : Outside) (n : String) : Prop :=
  ∃ image ∈ fitimageImages d, imgtypeOf d image = "fdt" ∧ ∃ files,
    FilesOf d out "dtb" image files ∧ ∃ path ∈ files, (ospathSplit path).2 = n

section
variable {text : String} {secs : List Section} {cs : List Config} {n : String}

theorem ConfigsOf.exists_of_mem {ramdiskcount : String} {bootscriptid : Option String} {k : ℕ}
    {dtbs : List String} (h : ConfigsOf out ramdiskcount bootscriptid k dtbs cs) {dtb : String}
    (hdtb : dtb ∈ dtbs) : ∃ c ∈ cs, ∃ compatible j,
      c = .conf (ospathSplit dtb).2 ramdiskcount bootscriptid compatible j := by
  induction h with
  | nil => cases hdtb
  | @cons k dtb' compatible dtbs cs _ _ ih =>
    rcases List.mem_cons.1 hdtb with rfl | hdtb
    · exact ⟨_, List.mem_cons_self, _, _, rfl⟩
    · obtain ⟨c, hc, hconf⟩ := ih hdtb
      exact ⟨c, List.mem_cons_of_mem _ hc, hconf⟩

/-- A built device tree is an image. -/
theorem ManifestOf.mem_of_builds (h : ManifestOf d out text secs cs) (hbuilds : Builds d out n) :
    ∃ path, IsPyWord path ∧ .dtb path ∈ secs ∧ (ospathSplit path).2 = n := by
  obtain ⟨image, himage, htype, files, ⟨default, hdefault, rfl⟩, path, hpath, hn⟩ := hbuilds
  obtain ⟨sss, hsss, rfl⟩ := h.images
  obtain ⟨secs, hmem, hmakes⟩ := exists_of_mem_left hsss himage
  refine ⟨path, isPyWord_of_mem hpath, ?_, hn⟩
  rcases hmakes with ⟨h', -⟩ | ⟨-, files, ⟨default', hdefault', rfl⟩, rfl⟩ | ⟨h', -⟩ | ⟨h', -⟩ |
    ⟨h', -⟩ | ⟨h', -⟩
  · simp [h'] at htype
  · obtain rfl : default = default' := by
      rw [hdefault] at hdefault'
      exact Except.ok.inj hdefault'
    exact List.mem_flatten_of_mem hmem (List.mem_map_of_mem hpath)
  all_goals simp [h'] at htype

/-- The first configuration of the name of a built device tree is about it. -/
theorem ManifestOf.child_of_builds (h : ManifestOf d out text secs cs)
    (hbuilds : Builds d out n) :
    ∃ body, (concat (cs.map (Config.tree d))).child (confPrefix d ++ n).toList = some body ∧
      Refers body "fdt" ("fdt-" ++ n).toList := by
  obtain ⟨path, hword, hpath, rfl⟩ := h.mem_of_builds hbuilds
  obtain ⟨ramdiskcount, bootscriptid, confs, overlays, rfl, hconfs, -⟩ := h.configs
  have hdtb : path ∈ (secs.filterMap Section.dtbPath).flatMap pySplit := by
    refine List.mem_flatMap.2 ⟨path, List.mem_filterMap.2 ⟨_, hpath, rfl⟩, ?_⟩
    rw [pySplit_word hword]
    exact List.mem_singleton_self path
  obtain ⟨c₀, hc₀, compatible, j, rfl⟩ := hconfs.exists_of_mem hdtb
  rw [child_eq_find, nodes_configs, List.map_append, List.find?_append]
  cases hfind : (confs.map fun c => ((c.name d).toList, c.items d)).find? fun x =>
      decide (x.1 = (confPrefix d ++ (ospathSplit path).2).toList) with
  | none =>
    refine absurd ?_ (List.find?_eq_none.1 hfind _ (List.mem_map_of_mem hc₀))
    exact decide_eq_true rfl
  | some x =>
    refine ⟨x.2, rfl, ?_⟩
    obtain ⟨c, hc, rfl⟩ := List.mem_map.1 (List.mem_of_find?_eq_some hfind)
    obtain ⟨dtb, -, compatible, j, rfl⟩ := hconfs.mem hc
    have hname := List.find?_some hfind
    rw [decide_eq_true_iff, String.toList_inj] at hname
    have hfile : (ospathSplit dtb).2 = (ospathSplit path).2 := by
      simpa [Config.name] using hname
    exact (refers_conf (by decide)).2 (.inr (.inl ⟨rfl, by rw [hfile]⟩))

end

/-! ## Boots -/

section
variable {ε : Type} [UbootEnv ε] {board : Board} {n₀ : String} {stored₀ stored : ε}
  {boots : List (Hab × ε)} {text : String}

theorem confOf_eq {n : String} (h : n.length ≤ 26) : confOf n = fitimageConfigPrefix ++ n := by
  have htake : n.toList.take 26 = n.toList :=
    List.take_of_length_le (by rwa [String.length_toList])
  rw [confOf, htake, String.ofList_toList]
  rfl

/-- **The configuration of a boot.**  Over any number of boots, each asks for the
    configuration of the device tree file that its environment names.  If this
    file is built into the image and has a name of at most 26 bytes, that is a
    configuration of the manifest, for this device tree, which is an image. -/
theorem boots_configuration (hload : LoadsDefaults ε board)
    (hn : FdtFile board.defaultFdtFile n₀) (hsmall : Small stored₀)
    (hrun : Reboots (envFlash ε) HabAnswers (boot board) stored₀ boots stored)
    (h : writeManifest d out = .ok text)
    (hbegin : d.getVar "FITIMAGE_CONFIG_PREFIX" = some fitimageConfigPrefix) :
    ∃ root images configs, IsManifest text root images configs ∧
      ∀ x ∈ boots, ∃ fdt n, FdtFile fdt n ∧ envGet x.2 "fdt_file" = some fdt ∧
        (∀ depth limit ω, IssuedOf (bootCalls (autobootSlot limit (bootSlot stored₀))
          (limit && decide (upgradeAvailable stored₀ ≠ 0 ∧ x.1.value = 0)) (confOf n) fdt)
          (runScript (autoboot depth limit x.2) ω)) ∧
        (Builds d out n → n.length ≤ 26 → ∃ body, configs.child (confOf n).toList = some body ∧
          Refers body "fdt" ("fdt-" ++ n).toList ∧ ("fdt-" ++ n).toList ∈ images.names) := by
  obtain ⟨secs, cs, hof⟩ := writeManifest_ok h
  refine ⟨_, _, _, hof.isManifest, fun x hx => ?_⟩
  obtain ⟨hon, fdt, n, hfdt, hvars⟩ := reboots_leave hload hn hsmall hrun x hx
  refine ⟨fdt, n, hfdt, hvars.fdtFile, autoboot_issued hon hfdt hvars, fun hbuilds hlen => ?_⟩
  obtain ⟨body, hchild, hrefers⟩ := hof.child_of_builds hbuilds
  have hpre : confPrefix d = fitimageConfigPrefix := by
    rw [confPrefix, hbegin]
    rfl
  rw [hpre] at hchild
  obtain ⟨path, -, hpath, hfile⟩ := hof.mem_of_builds hbuilds
  rw [confOf_eq hlen]
  exact ⟨body, hchild, hrefers, mem_names.2 ⟨_, hpath, by rw [← hfile]; rfl⟩⟩

end

/-! ## The image of a board -/

theorem himx0294_builds : Builds himx0294 himx0294Outside "imx6q-himx0294-imoc-2.dtb" := by
  obtain ⟨default, hdefault⟩ : ∃ default, getDtbs himx0294 himx0294Outside "dtb" = .ok default :=
    ok_of_isOk (by decide)
  have hfile : imageflag himx0294 "fdt" "file" =
      some "/deploy/imx6q-himx0294-imoc.dtb /deploy/imx6q-himx0294-imoc-2.dtb" := by decide
  refine ⟨"fdt", by decide, by decide,
    pySplit "/deploy/imx6q-himx0294-imoc.dtb /deploy/imx6q-himx0294-imoc-2.dtb",
    ⟨default, hdefault, ?_⟩, "/deploy/imx6q-himx0294-imoc-2.dtb", ?_, ?_⟩
  · rw [hfile, Option.getD_some]
  · decide
  · decide

/-- Slot a of an imoc board asks for a configuration of its image, which is about
    its device tree. -/
theorem boots_configuration_imoc :
    ∃ (text : String) (root images configs : Items), IsManifest text root images configs ∧
      ∃ e : ImocEnv,
        IssuedOf (bootCalls .a false "conf-imx6q-himx0294-imoc-2.dtb" imocBoard.defaultFdtFile)
          (runScript (autoboot 0 false e) allReturn) ∧
        ∃ body, configs.child "conf-imx6q-himx0294-imoc-2.dtb".toList = some body ∧
          Refers body "fdt" "fdt-imx6q-himx0294-imoc-2.dtb".toList ∧
          "fdt-imx6q-himx0294-imoc-2.dtb".toList ∈ images.names := by
  obtain ⟨text, h⟩ := himx0294_writes
  obtain ⟨e, stored, hrun, he⟩ := imocBoard_boots
  obtain ⟨root, images, configs, hof, hboots⟩ := boots_configuration imocBoard_loadsDefaults
    imocBoard_fdtFile ⟨by decide, by decide, by decide⟩ hrun h rfl
  obtain ⟨fdt, n, hfdt, hget, hissued, hconf⟩ := hboots _ (List.mem_singleton_self _)
  -- the device tree is the one of the board
  obtain rfl : fdt = imocBoard.defaultFdtFile := Option.some.inj (hget.symm.trans he)
  have hn : n = "imx6q-himx0294-imoc-2.dtb" := by
    have hlist := congrArg String.toList hfdt.eq
    rw [String.toList_append] at hlist
    have hboot : ("/boot" ++ "/").toList ++ n.toList =
        ("/boot" ++ "/").toList ++ "imx6q-himx0294-imoc-2.dtb".toList :=
      hlist.symm.trans (by decide)
    exact String.toList_inj.1 (List.append_cancel_left hboot)
  subst hn
  exact ⟨text, root, images, configs, hof, e, hissued 0 false allReturn,
    hconf himx0294_builds (by decide)⟩

end MetaHipos.Fitimage
