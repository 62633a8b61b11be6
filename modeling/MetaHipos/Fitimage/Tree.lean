/-
  The tree that the manifest of a FIT image is the text of.

  * `Section.tree`, `Config.tree`: the nodes of an image and of a configuration;
  * `emit_section`, `emit_config`: their texts are what the emitters write.
-/
import MetaHipos.Dts
import MetaHipos.Fitimage.Manifest

namespace MetaHipos.Fitimage

open Dts

/-! ## Properties -/

/-- `name = "value";` -/
def str (name value : String) (rest : Items) : Items :=
  .prop name.toList (.strs value.toList []) rest

/-- `name = <value>;` if there is a value. -/
def optCells (name : String) (value : Option String) (rest : Items) : Items :=
  if truthy value then .prop name.toList (.cells (fmt value).toList) rest else rest

/-- `name = "value";` if there is a value. -/
def optStr (name : String) (value : Option String) (rest : Items) : Items :=
  if truthy value then str name (fmt value) rest else rest

/-- `data = /incbin/( "path/file" );` -/
def data (path file : String) (rest : Items) : Items :=
  .prop "data".toList (.incbin (path.toList ++ '/' :: file.toList)) rest

/-- The node with the hash of an image. -/
def hash (algo : Option String) : Items :=
  .node "hash-1".toList (str "algo" (fmt algo) .nil) .nil

/-! ## Sections -/

/-- A section of `images`; a device tree is given by its path. -/
inductive Section where
  | kernel (imgpath imgsource imgcomp : String)
  | dtb (path : String)
  | overlay (path : String)
  | ramdisk (imgFile imgPath : String)
  | bootscript (imgpath : String) (imgsource : Option String)
deriving DecidableEq, Repr

namespace Section

/-- What is written for a section. -/
def emit (d : Datastore) : Section → List String
  | kernel imgpath imgsource imgcomp => fitimageEmitSectionKernel d imgpath imgsource imgcomp
  | dtb path => fitimageEmitSectionDtb d (ospathSplit path).2 (ospathSplit path).1
  | overlay path => fitimageEmitSectionDtbOverlay d (ospathSplit path).2 (ospathSplit path).1
  | ramdisk imgFile imgPath => fitimageEmitSectionRamdisk d imgFile imgPath
  | bootscript imgpath imgsource => fitimageEmitSectionBootscript d imgpath imgsource

/-- The name of the node. -/
def name : Section → String
  | kernel .. => "kernel-1"
  | dtb path => "fdt-" ++ (ospathSplit path).2
  | overlay path => "fdt-" ++ (ospathSplit path).2
  | ramdisk .. => "ramdisk-1"
  | bootscript _ imgsource => "bootscr-" ++ fmt imgsource

/-- The contents of a device tree. -/
def dtbItems (d : Datastore) (path desc : String) (loadaddr : Option String) : Items :=
  str "description" desc (data (ospathSplit path).1 (ospathSplit path).2
    (str "type" "flat_dt" (str "arch" (fmt (d.getVar "ARCH"))
      (str "compression" "none" (optCells "load" loadaddr
        (hash (d.getVar "FITIMAGE_HASH_ALGO")))))))

/-- The contents of the node. -/
def items (d : Datastore) : Section → Items
  | kernel imgpath imgsource imgcomp =>
    str "description" "Linux kernel" (data imgpath imgsource
      (str "type" "kernel" (str "arch" (fmt (d.getVar "ARCH"))
        (str "os" "linux" (str "compression" imgcomp
          (optCells "load" (d.getVar "FITIMAGE_LOADADDRESS")
            (optCells "entry" (d.getVar "FITIMAGE_ENTRYPOINT")
              (hash (d.getVar "FITIMAGE_HASH_ALGO")))))))))
  | dtb path =>
    dtbItems d path "Flattened Device Tree blob" (d.getVar "FITIMAGE_DTB_LOADADDRESS")
  | overlay path =>
    dtbItems d path "Flattened Device Tree Overlay blob"
      (d.getVar "FITIMAGE_DTB_OVERLAY_LOADADDRESS")
  | ramdisk imgFile imgPath =>
    str "description" imgFile (data imgPath imgFile
      (str "type" "ramdisk" (str "arch" (fmt (d.getVar "ARCH"))
        (str "os" "linux" (str "compression" "none"
          (optCells "load" (d.getVar "FITIMAGE_RD_LOADADDRESS")
            (optCells "entry" (d.getVar "FITIMAGE_RD_ENTRYPOINT")
              (hash (d.getVar "FITIMAGE_HASH_ALGO")))))))))
  | bootscript imgpath imgsource =>
    str "description" "U-boot script" (data imgpath (fmt imgsource)
      (str "type" "script" (str "arch" (fmt (d.getVar "ARCH"))
        (str "os" "linux" (str "compression" "none"
          (hash (d.getVar "FITIMAGE_HASH_ALGO")))))))

/-- The node of an image. -/
def tree (d : Datastore) (s : Section) : Items := .node s.name.toList (s.items d) .nil

end Section

/-! ## Texts -/

/-- The text of what is written. -/
def written (ws : List String) : Text := ws.flatMap String.toList

theorem written_append (ws ws' : List String) : written (ws ++ ws') = written ws ++ written ws' :=
  List.flatMap_append

theorem written_cons (w : String) (ws : List String) : written (w :: ws) = w.toList ++ written ws :=
  List.flatMap_cons

/-! ## Lines

  Each lemma is about the first line of a text: what it is the beginning of, and
  what the rest has to be. -/

section
variable {n : ℕ} {name value L : String} {W T m : Text} {cs rest : Items} {v : Option String}

/-- The line that ends a node. -/
def closing (n : ℕ) : Text := tabs n ++ ['\x7d', ';', '\n']

theorem line_str (hL : L.toList = tabs n ++ (name.toList ++ (" = \"".toList ++
      (value.toList ++ "\";\n".toList)))) (h : W = renderItems n rest ++ T) :
    L.toList ++ W = renderItems n (str name value rest) ++ T := by
  rw [hL, h]
  simp [str, renderItems, renderValue, quoted]

theorem line_data {path file : String} (hL : L.toList = tabs n ++ ("data = /incbin/(\"".toList ++
      (path.toList ++ '/' :: (file.toList ++ "\");\n".toList)))) (h : W = renderItems n rest ++ T) :
    L.toList ++ W = renderItems n (data path file rest) ++ T := by
  have hbegin : "data = /incbin/(\"".toList =
      "data".toList ++ ' ' :: '=' :: ' ' :: (incbinWord ++ ['(', '"']) := by decide
  have hend : "\");\n".toList = ['"', ')', ';', '\n'] := rfl
  rw [hL, h, hbegin, hend]
  simp only [data, renderItems, renderValue, quoted, List.append_assoc, List.cons_append,
    List.nil_append]

theorem line_optCells (hL : L.toList = tabs n ++ (name.toList ++ (" = <".toList ++
      ((fmt v).toList ++ ">;\n".toList)))) (h : W = renderItems n rest ++ T) :
    written (if truthy v then [L] else []) ++ W = renderItems n (optCells name v rest) ++ T := by
  rw [optCells]
  split_ifs
  · rw [written_cons, hL, h]
    simp [renderItems, renderValue, written]
  · rw [h]
    rfl

theorem line_optStr (hL : L.toList = tabs n ++ (name.toList ++ (" = \"".toList ++
      ((fmt v).toList ++ "\";\n".toList)))) (h : W = renderItems n rest ++ T) :
    written (if truthy v then [L] else []) ++ W = renderItems n (optStr name v rest) ++ T := by
  rw [optStr]
  split_ifs
  · rw [written_cons, List.append_assoc]
    exact line_str hL h
  · rw [h]
    rfl

theorem line_iteStr {c : Prop} [Decidable c] {s : String} (hs : s ≠ "")
    (hL : L.toList = tabs n ++ (name.toList ++ (" = \"".toList ++ (s.toList ++ "\";\n".toList))))
    (h : W = renderItems n rest ++ T) :
    written (if c then [L] else []) ++ W =
      renderItems n (optStr name (if c then some s else none) rest) ++ T := by
  have htruthy : truthy (some s) = true := by simpa [truthy] using hs
  split_ifs
  · rw [optStr, if_pos htruthy, written_cons, List.append_assoc]
    exact line_str hL h
  · rw [h]
    rfl

theorem line_open (hL : L.toList = tabs n ++ (m ++ [' ', '\x7b', '\n']))
    (h : W = renderItems (n + 1) cs ++ (closing n ++ (renderItems n rest ++ T))) :
    L.toList ++ W = renderItems n (.node m cs rest) ++ T := by
  rw [hL, h]
  simp [renderItems, closing]

theorem line_close (hL : L.toList = closing n) (h : W = T) :
    L.toList ++ W = renderItems (n + 1) .nil ++ (closing n ++ T) := by
  rw [hL, h]
  rfl

/-- The contents of a node, and the line after them. -/
theorem lines_close (hL : L.toList = closing n) (h : W = T) :
    renderItems (n + 1) cs ++ (L.toList ++ W) = renderItems (n + 1) cs ++ (closing n ++ T) := by
  rw [hL, h]

/-- The last lines of a section. -/
theorem lines_hash {algo : Option String} (hL : L.toList = tabs 4 ++ ("algo".toList ++
      (" = \"".toList ++ ((fmt algo).toList ++ "\";\n".toList)))) (h : W = T) :
    "\t\t\thash-1 \x7b\n".toList ++ (L.toList ++ ("\t\t\t\x7d;\n".toList ++
      ("\t\t\x7d;\n".toList ++ W))) = renderItems 3 (hash algo) ++ (closing 2 ++ T) := by
  refine line_open (by decide) (line_str hL (line_close (by decide) ?_))
  exact line_close (by decide) h

end

theorem written_nil : written [] = [] := rfl

theorem emit_dtb (d : Datastore) (path desc : String) (loadaddr : Option String) :
    written (emitSectionDtb d (ospathSplit path).2 (ospathSplit path).1 loadaddr desc) =
      renderItems 2 (.node ("fdt-" ++ (ospathSplit path).2).toList
        (Section.dtbItems d path desc loadaddr) .nil) := by
  rw [← List.append_nil (renderItems 2 _)]
  simp only [emitSectionDtb, written_append, written_cons, List.append_assoc, written_nil,
    List.nil_append, Section.dtbItems]
  refine line_open (by simp [tabs]) ?_
  refine line_str (by simp [tabs]) (line_data (by simp [tabs]) ?_)
  refine line_str (by decide) (line_str (by simp [tabs]) ?_)
  refine line_str (by decide) (line_optCells (by simp [tabs]) ?_)
  exact lines_hash (by simp [tabs]) rfl

/-- **What is written for a section** is the text of its node. -/
theorem emit_section (d : Datastore) (s : Section) :
    written (s.emit d) = renderItems 2 (s.tree d) := by
  cases s with
  | kernel imgpath imgsource imgcomp =>
    rw [← List.append_nil (renderItems 2 _)]
    simp only [Section.emit, fitimageEmitSectionKernel, written_append, written_cons,
      List.append_assoc, written_nil, List.nil_append]
    refine line_open (by rw [Section.name]; decide) ?_
    refine line_str (by decide) (line_data (by simp [tabs]) ?_)
    refine line_str (by decide) (line_str (by simp [tabs]) ?_)
    refine line_str (by decide) (line_str (by simp [tabs]) ?_)
    refine line_optCells (by simp [tabs]) (line_optCells (by simp [tabs]) ?_)
    exact lines_hash (by simp [tabs]) rfl
  | dtb path => exact emit_dtb d path _ _
  | overlay path => exact emit_dtb d path _ _
  | ramdisk imgFile imgPath =>
    rw [← List.append_nil (renderItems 2 _)]
    simp only [Section.emit, fitimageEmitSectionRamdisk, written_append, written_cons,
      List.append_assoc, written_nil, List.nil_append]
    refine line_open (by rw [Section.name]; decide) ?_
    refine line_str (by simp [tabs]) (line_data (by simp [tabs]) ?_)
    refine line_str (by decide) (line_str (by simp [tabs]) ?_)
    refine line_str (by decide) (line_str (by decide) ?_)
    refine line_optCells (by simp [tabs]) (line_optCells (by simp [tabs]) ?_)
    exact lines_hash (by simp [tabs]) rfl
  | bootscript imgpath imgsource =>
    rw [← List.append_nil (renderItems 2 _)]
    simp only [Section.emit, fitimageEmitSectionBootscript, written_cons, written_nil]
    refine line_open (by simp [Section.name, tabs]) ?_
    refine line_str (by decide) (line_data (by simp [tabs]) ?_)
    refine line_str (by decide) (line_str (by simp [tabs]) ?_)
    refine line_str (by decide) (line_str (by decide) ?_)
    exact lines_hash (by simp [tabs]) rfl

/-! ## Configurations -/

/-- A configuration: of a device tree, or of an overlay. -/
inductive Config where
  | conf (dtb ramdiskcount : String) (bootscriptid compatible : Option String) (dtbcount : ℕ)
  | overlay (dtb : String) (compatible : Option String)
deriving DecidableEq, Repr

/-- `FITIMAGE_CONFIG_PREFIX` -/
def confPrefix (d : Datastore) : String := pyOr (d.getVar "FITIMAGE_CONFIG_PREFIX") ""

/-- The signature of the images `s`, `more`. -/
def signature (d : Datastore) (s : String) (more : List String) (rest : Items) : Items :=
  .node "signature-1".toList
    (str "algo" (fmt (d.getVar "FITIMAGE_HASH_ALGO") ++ "," ++
        pyOr (d.getVar "FITIMAGE_ENCRYPT_ALGO") "")
      (optStr "key-name-hint" (d.getVar "FITIMAGE_SIGN_KEYNAME")
        (.prop "sign-images".toList (.strs s.toList (more.map String.toList))
          (str "signer-name" (fmt (d.getVar "FITIMAGE_SIGNER"))
            (str "signer-version" (fmt (d.getVar "FITIMAGE_SIGNER_VERSION")) .nil))))) rest

/-- The signature, if `FITIMAGE_SIGN` says so. -/
def optSignature (d : Datastore) (s : String) (more : List String) : Items :=
  if d.getVar "FITIMAGE_SIGN" = some "1" then signature d s more .nil else .nil

namespace Config

/-- The lines of a configuration. -/
def emit (d : Datastore) : Config → List String
  | conf dtb ramdiskcount bootscriptid compatible dtbcount =>
    fitimageEmitSectionConfig d dtb 1 ramdiskcount "" bootscriptid compatible dtbcount
  | overlay dtb compatible => fitimageEmitSectionConfigFdto d dtb compatible

/-- The name of a configuration. -/
def name (d : Datastore) : Config → String
  | conf dtb .. => confPrefix d ++ dtb
  | overlay dtb _ => dtb

/-- The contents of a configuration. -/
def items (d : Datastore) : Config → Items
  | conf dtb ramdiskcount bootscriptid compatible dtbcount =>
    str "description" (toString dtbcount ++ " " ++ confDesc dtb ramdiskcount "" bootscriptid)
      (str "kernel" "kernel-1" (str "fdt" ("fdt-" ++ dtb)
        (optStr "ramdisk" (if ramdiskcount ≠ "" then some ("ramdisk-" ++ ramdiskcount) else none)
          (optStr "bootscr" (if truthy bootscriptid then some ("bootscr-" ++ fmt bootscriptid)
              else none)
            (optStr "compatible" compatible
              (optSignature d "kernel" (signImages dtb ramdiskcount "" bootscriptid).tail))))))
  | overlay dtb compatible =>
    str "description" "Device Tree Overlay" (str "fdt" ("fdt-" ++ dtb)
      (optStr "compatible" compatible (optSignature d "fdt" [])))

/-- The default configuration, which is written before the first one. -/
def default (d : Datastore) : Config → Option String
  | conf dtb _ _ _ dtbcount =>
    if dtbcount = 1 then some (pyOr (d.getVar "FITIMAGE_DEFAULT_CONFIG") (confPrefix d ++ dtb))
    else none
  | overlay .. => none

/-- The node of a configuration, after the default if it is written there. -/
def tree (d : Datastore) (c : Config) : Items :=
  optStr "default" (c.default d) (.node (c.name d).toList (c.items d) .nil)

end Config

section
variable {n : ℕ} {W T : Text} {rest : Items}

theorem toList_joinImages (s : String) (more : List String) : (joinImages (s :: more)).toList =
    renderValue (.strs s.toList (more.map String.toList)) := by
  induction more generalizing s with
  | nil => simp [joinImages, renderValue, quoted]
  | cons t more ih =>
    have hsplit : joinImages (s :: t :: more) =
        "\"" ++ s ++ "\"" ++ ", " ++ joinImages (t :: more) := rfl
    rw [hsplit, String.toList_append, ih]
    simp [renderValue, quoted]

theorem lines_signature (d : Datastore) (s : String) (more : List String) (h : W = T) :
    written (fitimageEmitSubsectionSignature d (s :: more)) ++ W =
      renderItems 3 (signature d s more .nil) ++ T := by
  have hstrs : ∀ {W T : Text} {rest : Items}, W = renderItems 4 rest ++ T →
      ("\t\t\t\tsign-images = " ++ joinImages (s :: more) ++ ";\n").toList ++ W =
        renderItems 4 (.prop "sign-images".toList (.strs s.toList (more.map String.toList)) rest) ++
          T := by
    intro W T rest h
    rw [String.toList_append, String.toList_append, toList_joinImages, h]
    simp [renderItems, tabs]
  simp only [fitimageEmitSubsectionSignature, written_append, written_cons, List.append_assoc,
    written_nil, List.nil_append, signature]
  refine line_open (by decide) (line_str (by simp [tabs]) ?_)
  refine line_optStr (by simp [tabs]) (hstrs ?_)
  refine line_str (by simp [tabs]) (line_str (by simp [tabs]) ?_)
  exact line_close (by decide) h

theorem lines_optSignature (d : Datastore) (s : String) (more : List String) (h : W = T) :
    written (if d.getVar "FITIMAGE_SIGN" = some "1" then
      fitimageEmitSubsectionSignature d (s :: more) else []) ++ W =
        renderItems 3 (optSignature d s more) ++ T := by
  rw [optSignature]
  split_ifs
  · exact lines_signature d s more h
  · exact h

end

/-- **What is written for a configuration** is the text of its node, and the
    default. -/
theorem emit_config (d : Datastore) (c : Config) :
    written (c.emit d) = renderItems 2 (c.tree d) := by
  rw [← List.append_nil (renderItems 2 _)]
  cases c with
  | conf dtb ramdiskcount bootscriptid compatible dtbcount =>
    have hne : ∀ s : String, "ramdisk-" ++ s ≠ "" ∧ "bootscr-" ++ s ≠ "" := by simp
    have himages : signImages dtb ramdiskcount "" bootscriptid =
        "kernel" :: (signImages dtb ramdiskcount "" bootscriptid).tail := rfl
    simp only [Config.emit, fitimageEmitSectionConfig, written_append, written_cons,
      List.append_assoc, written_nil, List.nil_append, Config.tree]
    refine line_optStr (v := Config.default d (.conf dtb ramdiskcount bootscriptid compatible
      dtbcount)) (by simp [tabs, Config.default, confPrefix]) ?_
    refine line_open (by simp [Config.name, confPrefix, tabs]) ?_
    refine line_str (by simp [tabs]) ?_
    rw [if_pos Nat.one_ne_zero, written_cons, List.append_assoc]
    refine line_str (by decide) (line_str (by simp [tabs]) ?_)
    refine line_iteStr (hne _).1 (by simp [tabs]) (line_iteStr (hne _).2 (by simp [tabs]) ?_)
    refine line_optStr (by simp [tabs]) ?_
    rw [himages]
    refine lines_optSignature d _ _ ?_
    exact line_close (n := 2) (by decide) rfl
  | overlay dtb compatible =>
    simp only [Config.emit, fitimageEmitSectionConfigFdto, written_append, written_cons,
      List.append_assoc, written_nil, List.nil_append]
    refine line_open (by simp [Config.name, tabs]) ?_
    refine line_str (by decide) (line_str (by simp [tabs]) ?_)
    refine line_optStr (by simp [tabs]) (lines_optSignature d _ _ ?_)
    exact line_close (n := 2) (by decide) rfl

end MetaHipos.Fitimage
