/-
  What `write_manifest` writes.

  * `Makes`: the sections of an image of `FITIMAGE_IMAGES`, by its type;
  * `Collected`: the invariant of the loop over the images;
  * `ManifestOf`: the text is that of the tree of all sections, and of one
    configuration for each device tree and overlay.
-/
import MetaHipos.Fitimage.Tree
import MetaHipos.Process.Trace

namespace MetaHipos.Fitimage

open Dts Process

variable {d : Datastore} {out : Outside}

/-! ## Words -/

theorem isPySpace_blank : isPySpace ' ' = true := by decide

theorem pySplit_append (s w : String) : pySplit (s ++ (" " ++ w)) = pySplit s ++ pySplit w := by
  have hblank : " ".toList = [' '] := rfl
  rw [pySplit, String.toList_append, String.toList_append, hblank, List.singleton_append,
    Words.words_append_sep isPySpace_blank, List.map_append]
  rfl

/-- A text without blanks. -/
def IsPyWord (w : String) : Prop := Words.IsWord isPySpace w.toList

theorem pySplit_word {w : String} (h : IsPyWord w) : pySplit w = [w] := by
  rw [pySplit, Words.words_of_isWord h, List.map_singleton, String.ofList_toList]

theorem isPyWord_of_mem {s w : String} (h : w ∈ pySplit s) : IsPyWord w := by
  obtain ⟨v, hv, rfl⟩ := List.mem_map.1 h
  rw [IsPyWord, String.toList_ofList]
  exact Words.isWord_of_mem_words hv

/-! ## The sections of an image -/

namespace Section

/-- The path of a device tree. -/
def dtbPath : Section → Option String
  | dtb path => some path
  | _ => none

/-- The path of an overlay. -/
def overlayPath : Section → Option String
  | overlay path => some path
  | _ => none

/-- The image of a ramdisk. -/
def isRamdisk : Section → Bool
  | ramdisk .. => true
  | _ => false

/-- The image of a boot script. -/
def isBootscript : Section → Bool
  | bootscript .. => true
  | _ => false

/-- The file of a boot script. -/
def bootscriptId : Section → Option String
  | bootscript _ imgsource => imgsource
  | _ => none

end Section

/-- The device trees of an image: `[file]`, or those that `get_dtbs` finds. -/
def FilesOf (d : Datastore) (out : Outside) (suffix image : String) (files : List String) : Prop :=
  ∃ default, getDtbs d out suffix = .ok default ∧
    files = pySplit ((imageflag d image "file").getD default)

/-- The file that `fdtapply` makes. -/
def appliedPath (d : Datastore) (image : String) : String :=
  fmt (d.getVar "B") ++ "/" ++ fmt (imageflag d image "name")

/-- The sections of an image. -/
def Makes (d : Datastore) (out : Outside) (image : String) (secs : List Section) : Prop :=
  (imgtypeOf d image = "kernel" ∧ ∃ a b c, secs = [.kernel a b c]) ∨
  (imgtypeOf d image = "fdt" ∧ ∃ files, FilesOf d out "dtb" image files ∧ secs = files.map .dtb) ∨
  (imgtypeOf d image = "fdto" ∧ ∃ files, FilesOf d out "dtbo" image files ∧
    secs = files.map .overlay) ∨
  (imgtypeOf d image = "fdtapply" ∧ secs = [.dtb (appliedPath d image)]) ∨
  (imgtypeOf d image = "ramdisk" ∧ ∃ a b, secs = [.ramdisk a b]) ∨
  (imgtypeOf d image = "bootscript" ∧ ∃ a, secs = [.bootscript a (imageflag d image "file")])

/-! ## The loop over the images -/

/-- One more section. -/
def ImagesState.add (d : Datastore) (st : ImagesState) (s : Section) : ImagesState where
  text := st.text ++ s.emit d
  DTBS := s.dtbPath.elim st.DTBS fun path => st.DTBS ++ (" " ++ path)
  DTBOS := s.overlayPath.elim st.DTBOS fun path => st.DTBOS ++ (" " ++ path)
  ramdiskcount := if s.isRamdisk then "1" else st.ramdiskcount
  bootscriptid := if s.isBootscript then s.bootscriptId else st.bootscriptid

section
variable {st st' : ImagesState} {image : String}

theorem foldl_addDtb (files : List String) :
    files.foldl (addDtb d) st = (files.map Section.dtb).foldl (·.add d) st := by
  induction files generalizing st with
  | nil => rfl
  | cons f files ih => exact ih

theorem foldl_addDtbo (files : List String) :
    files.foldl (addDtbo d) st = (files.map Section.overlay).foldl (·.add d) st := by
  induction files generalizing st with
  | nil => rfl
  | cons f files ih =>
    have hadd : addDtbo d st f = st.add d (.overlay f) := by
      simp only [addDtbo, ImagesState.add, String.append_assoc]
      rfl
    rw [List.foldl_cons, hadd, ih]
    rfl

theorem imageFdt_ok (h : imageFdt d out image st = .ok st') : ∃ files,
    FilesOf d out "dtb" image files ∧ st' = (files.map Section.dtb).foldl (·.add d) st := by
  obtain ⟨default, hdefault, h⟩ := ok_of_bind h
  simp only at h
  split_ifs at h
  cases h
  exact ⟨_, ⟨default, hdefault, rfl⟩, foldl_addDtb _⟩

theorem imageFdto_ok (h : imageFdto d out image st = .ok st') : ∃ files,
    FilesOf d out "dtbo" image files ∧ st' = (files.map Section.overlay).foldl (·.add d) st := by
  obtain ⟨default, hdefault, h⟩ := ok_of_bind h
  simp only at h
  split_ifs at h
  cases h
  exact ⟨_, ⟨default, hdefault, rfl⟩, foldl_addDtbo _⟩

theorem imageFdtapply_ok (h : imageFdtapply d out image st = .ok st') :
    st' = st.add d (.dtb (appliedPath d image)) := by
  rw [imageFdtapply] at h
  simp only at h
  split_ifs at h
  obtain ⟨cmd, -, h⟩ := ok_of_bind h
  cases hrun : out.fdtoverlay cmd with
  | some stderr =>
    rw [hrun] at h
    cases h
  | none =>
    rw [hrun] at h
    cases h
    rfl

theorem imageRamdisk_ok (h : imageRamdisk d image st = .ok st') :
    ∃ a b, st' = st.add d (.ramdisk a b) := by
  rw [imageRamdisk] at h
  split at h
  · cases h
    exact ⟨_, _, rfl⟩
  · cases h

theorem imageBootscript_ok (h : imageBootscript d image st = .ok st') :
    ∃ a, st' = st.add d (.bootscript a (imageflag d image "file")) := by
  rw [imageBootscript] at h
  split_ifs at h
  cases h
  exact ⟨_, rfl⟩

/-- **What an image adds.** -/
theorem addImage_ok (h : addImage d out st image = .ok st') :
    ∃ secs, Makes d out image secs ∧ st' = secs.foldl (·.add d) st := by
  simp only [addImage] at h
  split_ifs at h with h₁ h₂ h₃ h₄ h₅ h₆
  · cases h
    exact ⟨_, .inl ⟨h₁, _, _, _, rfl⟩, rfl⟩
  · obtain ⟨files, hfiles, rfl⟩ := imageFdt_ok h
    exact ⟨_, .inr (.inl ⟨h₂, files, hfiles, rfl⟩), rfl⟩
  · obtain ⟨files, hfiles, rfl⟩ := imageFdto_ok h
    exact ⟨_, .inr (.inr (.inl ⟨h₃, files, hfiles, rfl⟩)), rfl⟩
  · obtain rfl := imageFdtapply_ok h
    exact ⟨_, .inr (.inr (.inr (.inl ⟨h₄, rfl⟩))), rfl⟩
  · obtain ⟨a, b, rfl⟩ := imageRamdisk_ok h
    exact ⟨_, .inr (.inr (.inr (.inr (.inl ⟨h₅, a, b, rfl⟩)))), rfl⟩
  · obtain ⟨a, rfl⟩ := imageBootscript_ok h
    exact ⟨_, .inr (.inr (.inr (.inr (.inr ⟨h₆, a, rfl⟩)))), rfl⟩

/-- The loop over the images. -/
theorem addImages_ok {images : List String} (h : images.foldlM (addImage d out) st = .ok st') :
    ∃ sss, List.Forall₂ (Makes d out) images sss ∧ st' = sss.flatten.foldl (·.add d) st := by
  induction images generalizing st with
  | nil =>
    cases h
    exact ⟨[], .nil, rfl⟩
  | cons image images ih =>
    obtain ⟨st₁, h₁, h⟩ := ok_of_bind h
    obtain ⟨secs, hmakes, rfl⟩ := addImage_ok h₁
    obtain ⟨sss, hall, rfl⟩ := ih h
    exact ⟨secs :: sss, .cons hmakes hall, by rw [List.flatten_cons, List.foldl_append]⟩

/-- The variables of the loop after the sections `secs`. -/
structure Collected (d : Datastore) (text₀ : List String) (secs : List Section)
    (st : ImagesState) : Prop where
  text : st.text = text₀ ++ secs.flatMap (Section.emit d)
  dtbs : pySplit st.DTBS = (secs.filterMap Section.dtbPath).flatMap pySplit
  dtbos : pySplit st.DTBOS = (secs.filterMap Section.overlayPath).flatMap pySplit
  ramdisk : st.ramdiskcount = if secs.any Section.isRamdisk then "1" else ""
  bootscript : truthy st.bootscriptid = true → ∃ path, .bootscript path st.bootscriptid ∈ secs

theorem collected_start (text₀ : List String) : Collected d text₀ [] ⟨text₀, "", "", "", some ""⟩ where
  text := by simp
  dtbs := show pySplit "" = [] by decide
  dtbos := show pySplit "" = [] by decide
  ramdisk := rfl
  bootscript h := absurd h Bool.false_ne_true

theorem Collected.add {text₀ : List String} {secs : List Section} (h : Collected d text₀ secs st)
    (s : Section) : Collected d text₀ (secs ++ [s]) (st.add d s) where
  text := by
    rw [ImagesState.add, h.text, List.flatMap_append, List.flatMap_singleton, List.append_assoc]
  dtbs := by
    rw [ImagesState.add, List.filterMap_append, List.flatMap_append, ← h.dtbs]
    cases hs : s.dtbPath with
    | none => simp [hs]
    | some path => simp [hs, pySplit_append]
  dtbos := by
    rw [ImagesState.add, List.filterMap_append, List.flatMap_append, ← h.dtbos]
    cases hs : s.overlayPath with
    | none => simp [hs]
    | some path => simp [hs, pySplit_append]
  ramdisk := by
    rw [ImagesState.add, h.ramdisk]
    cases hs : s.isRamdisk <;> simp [hs]
  bootscript hb := by
    cases s with
    | bootscript path imgsource => exact ⟨path, by simp [ImagesState.add, Section.isBootscript, Section.bootscriptId]⟩
    | _ =>
      obtain ⟨path, hpath⟩ := h.bootscript hb
      exact ⟨path, List.mem_append_left _ hpath⟩

theorem collected_foldl {text₀ : List String} {secs : List Section}
    (h : Collected d text₀ secs st) (more : List Section) :
    Collected d text₀ (secs ++ more) (more.foldl (·.add d) st) := by
  induction more generalizing secs st with
  | nil => rwa [List.append_nil]
  | cons s more ih =>
    have := ih (h.add s)
    rwa [List.append_assoc, List.singleton_append] at this

/-! ## The loops over the device trees -/

/-- The text of the configurations, and how many there are. -/
structure Configured (d : Datastore) (text₀ : List String) (cs : List Config) (dtbcount : ℕ)
    (st : ConfigsState) : Prop where
  text : st.text = text₀ ++ cs.flatMap (Config.emit d)
  dtbcount : st.dtbcount = dtbcount
  confcount : st.confcount = cs.length

/-- The configurations of device trees, counted from `k`. -/
inductive ConfigsOf (out : Outside) (ramdiskcount : String) (bootscriptid : Option String) :
    ℕ → List String → List Config → Prop
  | nil {k : ℕ} : ConfigsOf out ramdiskcount bootscriptid k [] []
  | cons {k : ℕ} {dtb compatible : String} {dtbs : List String} {cs : List Config}
      (hcompatible : compatibleOf out dtb = .ok (some compatible))
      (h : ConfigsOf out ramdiskcount bootscriptid (k + 1) dtbs cs) :
      ConfigsOf out ramdiskcount bootscriptid k (dtb :: dtbs)
        (.conf (ospathSplit dtb).2 ramdiskcount bootscriptid (some compatible) k :: cs)

/-- The configuration of an overlay. -/
def ConfigOfOverlay (out : Outside) (dtb : String) (c : Config) : Prop :=
  ∃ compatible, compatibleOf out dtb = .ok compatible ∧ c = .overlay (ospathSplit dtb).2 compatible

theorem configured_start (text₀ : List String) : Configured d text₀ [] 1 ⟨text₀, 1, 0⟩ where
  text := (List.append_nil _).symm
  dtbcount := rfl
  confcount := rfl

section
variable {text₀ : List String} {cs : List Config} {k : ℕ} {st st' : ConfigsState}
  {ramdiskcount : String} {bootscriptid : Option String} {dtbs : List String}

theorem addConfigs_ok (h : Configured d text₀ cs k st)
    (hrun : dtbs.foldlM (addConfig d out ramdiskcount bootscriptid) st = .ok st') :
    ∃ more, ConfigsOf out ramdiskcount bootscriptid k dtbs more ∧
      Configured d text₀ (cs ++ more) (k + dtbs.length) st' := by
  induction dtbs generalizing cs k st with
  | nil =>
    cases hrun
    exact ⟨[], .nil, by rwa [List.append_nil]⟩
  | cons dtb dtbs ih =>
    obtain ⟨st₁, h₁, hrun⟩ := ok_of_bind hrun
    obtain ⟨compatible, hcompatible, h₁⟩ := ok_of_bind h₁
    cases compatible with
    | none => cases h₁
    | some compatible =>
      rw [if_neg (by simp)] at h₁
      cases h₁
      have hst : Configured d text₀ (cs ++ [.conf (ospathSplit dtb).2 ramdiskcount bootscriptid
          (some compatible) k]) (k + 1) ⟨st.text ++ fitimageEmitSectionConfig d (ospathSplit dtb).2 1
            ramdiskcount "" bootscriptid (some compatible) st.dtbcount, st.dtbcount + 1,
            st.confcount + 1⟩ := by
        refine ⟨?_, by rw [h.dtbcount], by rw [h.confcount, List.length_append]; rfl⟩
        rw [h.text, List.flatMap_append, List.flatMap_singleton, List.append_assoc, h.dtbcount]
        rfl
      obtain ⟨more, hmore, hconf⟩ := ih hst hrun
      refine ⟨_, .cons hcompatible hmore, ?_⟩
      rw [List.append_assoc, List.singleton_append] at hconf
      rwa [List.length_cons, Nat.add_comm dtbs.length, ← Nat.add_assoc]

theorem addConfigsFdto_ok (h : Configured d text₀ cs k st)
    (hrun : dtbs.foldlM (addConfigFdto d out) st = .ok st') :
    ∃ more, List.Forall₂ (ConfigOfOverlay out) dtbs more ∧
      Configured d text₀ (cs ++ more) k st' := by
  induction dtbs generalizing cs st with
  | nil =>
    cases hrun
    exact ⟨[], .nil, by rwa [List.append_nil]⟩
  | cons dtb dtbs ih =>
    obtain ⟨st₁, h₁, hrun⟩ := ok_of_bind hrun
    obtain ⟨compatible, hcompatible, h₁⟩ := ok_of_bind h₁
    cases h₁
    have hst : Configured d text₀ (cs ++ [.overlay (ospathSplit dtb).2 compatible]) k
        { st with
          text := st.text ++ fitimageEmitSectionConfigFdto d (ospathSplit dtb).2 compatible
          confcount := st.confcount + 1 } := by
      refine ⟨?_, h.dtbcount, by rw [h.confcount, List.length_append]; rfl⟩
      rw [h.text, List.flatMap_append, List.flatMap_singleton, List.append_assoc]
      rfl
    obtain ⟨more, hmore, hconf⟩ := ih hst hrun
    refine ⟨_, .cons ⟨compatible, hcompatible, rfl⟩ hmore, ?_⟩
    rwa [List.append_assoc, List.singleton_append] at hconf

end

end

/-! ## The manifest -/

/-- Nodes, one after the other. -/
def concat (is : List Items) : Items := is.foldr (· ++ ·) .nil

/-- `description` of the image. -/
def description (d : Datastore) : String :=
  "fitImage for " ++ d.expandVar "DISTRO_NAME" ++ "/" ++ d.expandVar "PV" ++ "/" ++
    d.expandVar "MACHINE"

/-- The tree of the sections and configurations. -/
def manifestTree (d : Datastore) (secs : List Section) (cs : List Config) : Items :=
  str "description" (description d) (.prop "#address-cells".toList (.cells ['1'])
    (.node "images".toList (concat (secs.map (Section.tree d)))
      (.node "configurations".toList (concat (cs.map (Config.tree d))) .nil)))

theorem written_flatMap {α : Type} {emit : α → List String} {tree : α → Items}
    (h : ∀ x, written (emit x) = renderItems 2 (tree x)) (xs : List α) :
    written (xs.flatMap emit) = renderItems 2 (concat (xs.map tree)) := by
  induction xs with
  | nil => rfl
  | cons x xs ih =>
    rw [List.flatMap_cons, written_append, h, ih, List.map_cons]
    exact (renderItems_append 2).symm

/-- **The text of a manifest** is the text of its tree. -/
theorem written_manifest (d : Datastore) (secs : List Section) (cs : List Config) :
    written (fitimageEmitFitHeader d ++ fitimageEmitSectionStart "images" ++
      secs.flatMap (Section.emit d) ++ fitimageEmitSectionEnd ++
      fitimageEmitSectionStart "configurations" ++ cs.flatMap (Config.emit d) ++
      fitimageEmitSectionEnd ++ fitimageEmitFitFooter) = Dts.render (manifestTree d secs cs) := by
  have hheader : "/dts-v1/;\n\n/ \x7b\n".toList =
      versionWord ++ ';' :: '\n' :: '\n' :: "/ \x7b\n".toList := by
    decide
  have hcells : ∀ {W T : Text} {rest : Items}, W = renderItems 1 rest ++ T →
      "\t#address-cells = <1>;\n".toList ++ W =
        renderItems 1 (.prop "#address-cells".toList (.cells ['1']) rest) ++ T := by
    intro W T rest h
    have hline : "\t#address-cells = <1>;\n".toList = tabs 1 ++ ("#address-cells".toList ++
        ' ' :: '=' :: ' ' :: (renderValue (.cells ['1']) ++ [';', '\n'])) := by decide
    rw [hline, h]
    simp [renderItems]
  rw [Dts.render, ← List.append_nil (renderItems 0 _)]
  simp only [written_append, fitimageEmitFitHeader, fitimageEmitSectionStart,
    fitimageEmitSectionEnd, fitimageEmitFitFooter, written_cons, written_nil, List.nil_append,
    List.append_assoc, written_flatMap (emit_section d), written_flatMap (emit_config d), hheader,
    List.cons_append]
  refine congrArg (versionWord ++ ';' :: '\n' :: '\n' :: ·) ?_
  refine line_open (by decide) (line_str (by simp [tabs, description]) (hcells ?_))
  refine line_open (by decide) (lines_close (by decide) ?_)
  refine line_open (by decide) (lines_close (by decide) ?_)
  exact line_close (n := 0) (by decide) rfl

/-- What the manifest `text` consists of. -/
structure ManifestOf (d : Datastore) (out : Outside) (text : String) (secs : List Section)
    (cs : List Config) : Prop where
  text : text.toList = Dts.render (manifestTree d secs cs)
  images : ∃ sss, List.Forall₂ (Makes d out) (pySplit (pyOr (d.getVar "FITIMAGE_IMAGES") "")) sss ∧
    secs = sss.flatten
  configs : ∃ ramdiskcount bootscriptid confs overlays, cs = confs ++ overlays ∧
    ConfigsOf out ramdiskcount bootscriptid 1
      ((secs.filterMap Section.dtbPath).flatMap pySplit) confs ∧
    List.Forall₂ (ConfigOfOverlay out) ((secs.filterMap Section.overlayPath).flatMap pySplit)
      overlays ∧
    (ramdiskcount = if secs.any Section.isRamdisk then "1" else "") ∧
    (truthy bootscriptid = true → ∃ path, .bootscript path bootscriptid ∈ secs)
  ne_nil : cs ≠ []

/-- **What `write_manifest` writes.** -/
theorem writeManifest_ok {text : String} (h : writeManifest d out = .ok text) :
    ∃ secs cs, ManifestOf d out text secs cs := by
  obtain ⟨st, hst, h⟩ := ok_of_bind h
  obtain ⟨sss, hsss, rfl⟩ := addImages_ok hst
  obtain ⟨cs₁, hcs₁, h⟩ := ok_of_bind h
  obtain ⟨cs₂, hcs₂, h⟩ := ok_of_bind h
  have hcoll := collected_foldl (d := d) (collected_start (fitimageEmitFitHeader d ++
    fitimageEmitSectionStart "images")) sss.flatten
  rw [List.nil_append] at hcoll
  obtain ⟨confs, hconfs, h₁⟩ := addConfigs_ok (configured_start _) hcs₁
  obtain ⟨overlays, hoverlays, h₂⟩ := addConfigsFdto_ok h₁ hcs₂
  split_ifs at h with hcount
  cases h
  refine ⟨sss.flatten, confs ++ overlays, ?_, ⟨sss, hsss, rfl⟩, ⟨_, _, confs, overlays, rfl, ?_, ?_,
    hcoll.ramdisk, hcoll.bootscript⟩, ?_⟩
  · rw [String.toList_join, ← written_manifest, h₂.text, hcoll.text]
    simp only [List.append_assoc, written]
    rfl
  · rw [← hcoll.dtbs]
    exact hconfs
  · rw [← hcoll.dtbos]
    exact hoverlays
  · intro hnil
    rw [h₂.confcount, List.nil_append, hnil] at hcount
    exact hcount rfl

end MetaHipos.Fitimage
