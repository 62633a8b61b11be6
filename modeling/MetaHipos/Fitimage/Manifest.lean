/-
  The source of a FIT image: `fitimage.bbclass`.

  `write_manifest` writes a section for each image of `FITIMAGE_IMAGES` and
  collects the device trees; then it writes a configuration for each of these.
  Each function of the source is a definition of the same name, which returns
  the texts that it hands to `fd.write`.  A fatal error or an exception ends the
  task without a result.
-/
import Mathlib.Data.Nat.Notation
import Mathlib.Data.List.Dedup
import MetaHipos.Words

namespace MetaHipos.Fitimage

/-! ## Python -/

/-- White space of `str.split`. -/
def isPySpace (c : Char) : Bool :=
  c ∈ [' ', '\t', '\n', '\r', '\x0b', '\x0c', '\x1c', '\x1d', '\x1e', '\x1f', '\u0085', '\u00a0',
    '\u1680', '\u2028', '\u2029', '\u202f', '\u205f', '\u3000'] ||
  ('\u2000' ≤ c && c ≤ '\u200a')

/-- `s.split()` -/
def pySplit (s : String) : List String := (Words.words isPySpace s.toList).map String.ofList

/-- `s.endswith( suffix )` -/
def pyEndswith (s suffix : String) : Bool := suffix.toList.isSuffixOf s.toList

/-- An `f` string shows `None` like this. -/
def fmt (s : Option String) : String := s.getD "None"

/-- `if s:` -/
def truthy (s : Option String) : Bool := s.getD "" != ""

/-- `s or default` -/
def pyOr (s : Option String) (default : String) : String :=
  if truthy s then s.getD "" else default

/-- What follows the last `/`. -/
def basenameChars (p : List Char) : List Char := (p.reverse.takeWhile (· ≠ '/')).reverse

/-- `os.path.basename` -/
def ospathBasename (p : String) : String := String.ofList (basenameChars p.toList)

/-- `os.path.split` -/
def ospathSplit (p : String) : String × String :=
  let tail := basenameChars p.toList
  let head := p.toList.take (p.toList.length - tail.length)
  let head :=
    if head.all (· = '/') then head else (head.reverse.dropWhile (· = '/')).reverse
  (String.ofList head, String.ofList tail)

/-! ## BitBake -/

/-- The datastore `d`: variables and their flags. -/
structure Datastore where
  getVar : String → Option String
  getVarFlag : (var flag : String) → Option String

/-- `${name}` in `d.expand`. -/
def Datastore.expandVar (d : Datastore) (name : String) : String :=
  (d.getVar name).getD ("$\x7b" ++ name ++ "\x7d")

/-- What is outside of the task: directories, `fdtoverlay` and `fdtget`. -/
structure Outside where
  listdir : String → Option (List String)
  /-- the text of the error if it fails -/
  fdtoverlay : String → Option String
  fdtget : String → Option String

/-- How a build fails: with `bb.fatal`, or with an exception. -/
inductive Failure where
  | fatal (msg : String)
  | exception
deriving DecidableEq, Repr

/-! ## Emitters -/

variable (d : Datastore)

/-- `fitimage_emit_fit_header` -/
def fitimageEmitFitHeader : List String :=
  ["/dts-v1/;\n\n/ \x7b\n",
    "\tdescription = \"fitImage for " ++ d.expandVar "DISTRO_NAME" ++ "/" ++ d.expandVar "PV" ++
      "/" ++ d.expandVar "MACHINE" ++ "\";\n",
    "\t#address-cells = <1>;\n"]

/-- `fitimage_emit_fit_footer` -/
def fitimageEmitFitFooter : List String := ["\x7d;\n"]

/-- `fitimage_emit_section_start` -/
def fitimageEmitSectionStart (name : String) : List String := ["\t" ++ name ++ " \x7b\n"]

/-- `fitimage_emit_section_end` -/
def fitimageEmitSectionEnd : List String := ["\t\x7d;\n"]

/-- `fitimage_emit_section_kernel` -/
def fitimageEmitSectionKernel (imgpath imgsource imgcomp : String) : List String :=
  let kernelCsum := d.getVar "FITIMAGE_HASH_ALGO"
  let arch := d.getVar "ARCH"
  let loadaddr := d.getVar "FITIMAGE_LOADADDRESS"
  let entryaddr := d.getVar "FITIMAGE_ENTRYPOINT"
  ["\t\tkernel-1 \x7b\n",
    "\t\t\tdescription = \"Linux kernel\";\n",
    "\t\t\tdata = /incbin/(\"" ++ imgpath ++ "/" ++ imgsource ++ "\");\n",
    "\t\t\ttype = \"kernel\";\n",
    "\t\t\tarch = \"" ++ fmt arch ++ "\";\n",
    "\t\t\tos = \"linux\";\n",
    "\t\t\tcompression = \"" ++ imgcomp ++ "\";\n"] ++
  (if truthy loadaddr then ["\t\t\tload = <" ++ fmt loadaddr ++ ">;\n"] else []) ++
  (if truthy entryaddr then ["\t\t\tentry = <" ++ fmt entryaddr ++ ">;\n"] else []) ++
  ["\t\t\thash-1 \x7b\n",
    "\t\t\t\talgo = \"" ++ fmt kernelCsum ++ "\";\n",
    "\t\t\t\x7d;\n",
    "\t\t\x7d;\n"]

/-- `_fitimage_emit_section_dtb` -/
def emitSectionDtb (dtbFile dtbPath : String) (loadaddr : Option String) (desc : String) :
    List String :=
  let dtbCsum := d.getVar "FITIMAGE_HASH_ALGO"
  let arch := d.getVar "ARCH"
  ["\t\tfdt-" ++ dtbFile ++ " \x7b\n",
    "\t\t\tdescription = \"" ++ desc ++ "\";\n",
    "\t\t\tdata = /incbin/(\"" ++ dtbPath ++ "/" ++ dtbFile ++ "\");\n",
    "\t\t\ttype = \"flat_dt\";\n",
    "\t\t\tarch = \"" ++ fmt arch ++ "\";\n",
    "\t\t\tcompression = \"none\";\n"] ++
  (if truthy loadaddr then ["\t\t\tload = <" ++ fmt loadaddr ++ ">;\n"] else []) ++
  ["\t\t\thash-1 \x7b\n",
    "\t\t\t\talgo = \"" ++ fmt dtbCsum ++ "\";\n",
    "\t\t\t\x7d;\n",
    "\t\t\x7d;\n"]

/-- `fitimage_emit_section_dtb` -/
def fitimageEmitSectionDtb (dtbFile dtbPath : String) : List String :=
  emitSectionDtb d dtbFile dtbPath (d.getVar "FITIMAGE_DTB_LOADADDRESS")
    "Flattened Device Tree blob"

/-- `fitimage_emit_section_dtb_overlay` -/
def fitimageEmitSectionDtbOverlay (dtbFile dtbPath : String) : List String :=
  emitSectionDtb d dtbFile dtbPath (d.getVar "FITIMAGE_DTB_OVERLAY_LOADADDRESS")
    "Flattened Device Tree Overlay blob"

/-- `fitimage_emit_section_ramdisk` -/
def fitimageEmitSectionRamdisk (imgFile imgPath : String) : List String :=
  let ramdiskCsum := d.getVar "FITIMAGE_HASH_ALGO"
  let arch := d.getVar "ARCH"
  let loadaddr := d.getVar "FITIMAGE_RD_LOADADDRESS"
  let entryaddr := d.getVar "FITIMAGE_RD_ENTRYPOINT"
  ["\t\tramdisk-1 \x7b\n",
    "\t\t\tdescription = \"" ++ imgFile ++ "\";\n",
    "\t\t\tdata = /incbin/(\"" ++ imgPath ++ "/" ++ imgFile ++ "\");\n",
    "\t\t\ttype = \"ramdisk\";\n",
    "\t\t\tarch = \"" ++ fmt arch ++ "\";\n",
    "\t\t\tos = \"linux\";\n",
    "\t\t\tcompression = \"none\";\n"] ++
  (if truthy loadaddr then ["\t\t\tload = <" ++ fmt loadaddr ++ ">;\n"] else []) ++
  (if truthy entryaddr then ["\t\t\tentry = <" ++ fmt entryaddr ++ ">;\n"] else []) ++
  ["\t\t\thash-1 \x7b\n",
    "\t\t\t\talgo = \"" ++ fmt ramdiskCsum ++ "\";\n",
    "\t\t\t\x7d;\n",
    "\t\t\x7d;\n"]

/-- `fitimage_emit_section_bootscript` -/
def fitimageEmitSectionBootscript (imgpath : String) (imgsource : Option String) : List String :=
  let hashAlgo := d.getVar "FITIMAGE_HASH_ALGO"
  let arch := d.getVar "ARCH"
  ["\t\tbootscr-" ++ fmt imgsource ++ " \x7b\n",
    "\t\t\tdescription = \"U-boot script\";\n",
    "\t\t\tdata = /incbin/(\"" ++ imgpath ++ "/" ++ fmt imgsource ++ "\");\n",
    "\t\t\ttype = \"script\";\n",
    "\t\t\tarch = \"" ++ fmt arch ++ "\";\n",
    "\t\t\tos = \"linux\";\n",
    "\t\t\tcompression = \"none\";\n",
    "\t\t\thash-1 \x7b\n",
    "\t\t\t\talgo = \"" ++ fmt hashAlgo ++ "\";\n",
    "\t\t\t\x7d;\n",
    "\t\t\x7d;\n"]

/-- `", ".join( f'"{s}"' for s in sign_images_list )`; there is at least one. -/
def joinImages : List String → String
  | [] => ""
  | [s] => "\"" ++ s ++ "\""
  | s :: ss => "\"" ++ s ++ "\"" ++ ", " ++ joinImages ss

/-- `fitimage_emit_subsection_signature` -/
def fitimageEmitSubsectionSignature (signImagesList : List String) : List String :=
  let hashAlgo := d.getVar "FITIMAGE_HASH_ALGO"
  let encryptAlgo := pyOr (d.getVar "FITIMAGE_ENCRYPT_ALGO") ""
  let confSignKeyname := d.getVar "FITIMAGE_SIGN_KEYNAME"
  let signerName := d.getVar "FITIMAGE_SIGNER"
  let signerVersion := d.getVar "FITIMAGE_SIGNER_VERSION"
  ["\t\t\tsignature-1 \x7b\n",
    "\t\t\t\talgo = \"" ++ fmt hashAlgo ++ "," ++ encryptAlgo ++ "\";\n"] ++
  (if truthy confSignKeyname then
    ["\t\t\t\tkey-name-hint = \"" ++ fmt confSignKeyname ++ "\";\n"] else []) ++
  ["\t\t\t\tsign-images = " ++ joinImages signImagesList ++ ";\n",
    "\t\t\t\tsigner-name = \"" ++ fmt signerName ++ "\";\n",
    "\t\t\t\tsigner-version = \"" ++ fmt signerVersion ++ "\";\n",
    "\t\t\t\x7d;\n"]

/-- The images that are signed with a configuration. -/
def signImages (dtb ramdiskcount setupcount : String) (bootscriptid : Option String) :
    List String :=
  ["kernel"] ++ (if dtb ≠ "" then ["fdt"] else []) ++
  (if ramdiskcount ≠ "" then ["ramdisk"] else []) ++
  (if setupcount ≠ "" then ["setup"] else []) ++
  (if truthy bootscriptid then ["bootscr"] else [])

/-- `conf_desc` -/
def confDesc (dtb ramdiskcount setupcount : String) (bootscriptid : Option String) : String :=
  "Linux kernel" ++ (if dtb ≠ "" then ", FDT blob" else "") ++
  (if ramdiskcount ≠ "" then ", ramdisk" else "") ++
  (if setupcount ≠ "" then ", setup" else "") ++
  (if truthy bootscriptid then ", u-boot script" else "")

/-- `fitimage_emit_section_config` -/
def fitimageEmitSectionConfig (dtb : String) (kernelcount : ℕ) (ramdiskcount setupcount : String)
    (bootscriptid compatible : Option String) (dtbcount : ℕ) : List String :=
  let sign := d.getVar "FITIMAGE_SIGN"
  let confPrefix := pyOr (d.getVar "FITIMAGE_CONFIG_PREFIX") ""
  let confDefault :=
    if dtbcount = 1 then some (pyOr (d.getVar "FITIMAGE_DEFAULT_CONFIG") (confPrefix ++ dtb))
    else none
  (if truthy confDefault then ["\t\tdefault = \"" ++ fmt confDefault ++ "\";\n"] else []) ++
  ["\t\t" ++ confPrefix ++ dtb ++ " \x7b\n",
    "\t\t\tdescription = \"" ++ toString dtbcount ++ " " ++
      confDesc dtb ramdiskcount setupcount bootscriptid ++ "\";\n"] ++
  (if kernelcount ≠ 0 then ["\t\t\tkernel = \"kernel-1\";\n"] else []) ++
  ["\t\t\tfdt = \"fdt-" ++ dtb ++ "\";\n"] ++
  (if ramdiskcount ≠ "" then ["\t\t\tramdisk = \"ramdisk-" ++ ramdiskcount ++ "\";\n"] else []) ++
  (if truthy bootscriptid then ["\t\t\tbootscr = \"bootscr-" ++ fmt bootscriptid ++ "\";\n"]
    else []) ++
  (if truthy compatible then ["\t\t\tcompatible = \"" ++ fmt compatible ++ "\";\n"] else []) ++
  (if sign = some "1" then
    fitimageEmitSubsectionSignature d (signImages dtb ramdiskcount setupcount bootscriptid)
    else []) ++
  ["\t\t\x7d;\n"]

/-- `fitimage_emit_section_config_fdto` -/
def fitimageEmitSectionConfigFdto (dtb : String) (compatible : Option String) : List String :=
  let sign := d.getVar "FITIMAGE_SIGN"
  ["\t\t" ++ dtb ++ " \x7b\n",
    "\t\t\tdescription = \"Device Tree Overlay\";\n",
    "\t\t\tfdt = \"fdt-" ++ dtb ++ "\";\n"] ++
  (if truthy compatible then ["\t\t\tcompatible = \"" ++ fmt compatible ++ "\";\n"] else []) ++
  (if sign = some "1" then fitimageEmitSubsectionSignature d ["fdt"] else []) ++
  ["\t\t\x7d;\n"]

/-! ## `write_manifest` -/

variable (out : Outside)

/-- `get_dtbs` -/
def getDtbs (dtbSuffix : String) : Except Failure String := do
  let sysroot := d.getVar "RECIPE_SYSROOT"
  let deploydir := d.getVar "DEPLOY_DIR_IMAGE"
  let dtbs := pySplit (pyOr (d.getVar "KERNEL_DEVICETREE") "")
  let dtbs := (dtbs.filter (pyEndswith · dtbSuffix)).map ospathBasename
  let extDtbs ←
    if truthy (d.getVar "EXTERNAL_KERNEL_DEVICETREE") then
      match out.listdir (fmt (d.getVar "EXTERNAL_KERNEL_DEVICETREE")) with
      | none => throw Failure.exception
      | some extDtbs => pure extDtbs
    else pure []
  let extDtbs := extDtbs.filter (pyEndswith · dtbSuffix)
  -- Prefer BSP dts if BSP and kernel provide the same dts
  let result := ((dtbs ++ extDtbs).dedup.mergeSort (fun a b => a ≤ b)).map fun dtb =>
    if dtb ∈ extDtbs then fmt sysroot ++ "/boot/devicetree/" ++ dtb
    else fmt deploydir ++ "/" ++ dtb
  pure (" ".intercalate result)

/-- The variables of the loop over the images. -/
structure ImagesState where
  text : List String
  DTBS : String
  DTBOS : String
  ramdiskcount : String
  bootscriptid : Option String

/-- `imageflags.get( flag )` -/
def imageflag (image flag : String) : Option String :=
  d.getVarFlag ("FITIMAGE_IMAGE_" ++ image) flag

/-- The message for an image of the type `fdt` without files. -/
def dtbMissing (image : String) : Failure :=
  .fatal ("No dtb file found for image '" ++ image ++ "'. Set KERNEL_DEVICETREE, [file] varflag, " ++
    "or reference devicetree.bbclass-based recipe.")

/-- The message for an image of the type `fdto` without files. -/
def dtboMissing (image : String) : Failure :=
  .fatal ("No dtbo file found for image '" ++ image ++ "'. Set KERNEL_DEVICETREE, [file] varflag, " ++
    "or reference devicetree.bbclass-based recipe.")

/-- An image of the type `kernel`. -/
def imageKernel (image : String) (st : ImagesState) : ImagesState :=
  let default := fmt (d.getVar "KERNEL_IMAGETYPE") ++ "-" ++ fmt (d.getVar "MACHINE") ++
    fmt (d.getVar "KERNEL_IMAGE_BIN_EXT")
  let imgsource := (imageflag d image "file").getD default
  let imgcomp := (imageflag d image "comp").getD "none"
  let imgpath := d.getVar "DEPLOY_DIR_IMAGE"
  { st with text := st.text ++ fitimageEmitSectionKernel d (fmt imgpath) imgsource imgcomp }

/-- One device tree of an image of the type `fdt`, or the one that was applied. -/
def addDtb (st : ImagesState) (dtb : String) : ImagesState :=
  let (dtbPath, dtbFile) := ospathSplit dtb
  { st with
    DTBS := st.DTBS ++ (" " ++ dtb)
    text := st.text ++ fitimageEmitSectionDtb d dtbFile dtbPath }

/-- An image of the type `fdt`. -/
def imageFdt (image : String) (st : ImagesState) : Except Failure ImagesState := do
  let default ← getDtbs d out "dtb"
  let dtbfiles := (imageflag d image "file").getD default
  if dtbfiles = "" then throw (dtbMissing image)
  else pure ((pySplit dtbfiles).foldl (addDtb d) st)

/-- One overlay of an image of the type `fdto`. -/
def addDtbo (st : ImagesState) (dtb : String) : ImagesState :=
  let (dtbPath, dtbFile) := ospathSplit dtb
  { st with
    DTBOS := st.DTBOS ++ " " ++ dtb
    text := st.text ++ fitimageEmitSectionDtbOverlay d dtbFile dtbPath }

/-- An image of the type `fdto`. -/
def imageFdto (image : String) (st : ImagesState) : Except Failure ImagesState := do
  let default ← getDtbs d out "dtbo"
  let dtbofiles := (imageflag d image "file").getD default
  if dtbofiles = "" then throw (dtboMissing image)
  else pure ((pySplit dtbofiles).foldl (addDtbo d) st)

/-- `dtbcommand` after one more file. -/
def addToCommand (dtbresult dtbcommand dtb : String) : Except Failure String :=
  let (dtbPath, dtbFile) := ospathSplit dtb
  let dtbPath := if dtbPath = "" then fmt (d.getVar "DEPLOY_DIR_IMAGE") else dtbPath
  if dtbcommand = "" then
    if pyEndswith dtbFile ".dtb" then
      pure ("fdtoverlay -i " ++ dtbPath ++ "/" ++ dtbFile ++ " -o " ++ dtbresult)
    else
      throw (.fatal ("fdtapply failed: Expected (non-overlay) .dtb file as first element, but got " ++
        dtbFile))
  else if pyEndswith dtbFile ".dtbo" then
    pure (dtbcommand ++ " " ++ dtbPath ++ "/" ++ dtbFile)
  else throw (.fatal ("fdtapply failed: Expected .dtbo file, but got " ++ dtbFile))

/-- An image of the type `fdtapply`: overlays are applied to a device tree. -/
def imageFdtapply (image : String) (st : ImagesState) : Except Failure ImagesState := do
  let dtbofiles := imageflag d image "file"
  if truthy dtbofiles = false then
    throw (.fatal ("No dtbo file found for image '" ++ image ++ "'. Set via [file] varflag."))
  else do
    let dtboutname := imageflag d image "name"
    if truthy dtboutname = false then
      throw (.fatal ("No dtb output name found for image '" ++ image ++ "'. Set via [name] varflag."))
    else do
      let dtbresult := fmt (d.getVar "B") ++ "/" ++ fmt dtboutname
      let dtbcommand ← (pySplit (fmt dtbofiles)).foldlM (addToCommand d dtbresult) ""
      match out.fdtoverlay dtbcommand with
      | some stderr => throw (.fatal ("Running " ++ dtbcommand ++ " failed: " ++ stderr))
      | none => pure (addDtb d st dtbresult)

/-- An image of the type `ramdisk`. -/
def imageRamdisk (image : String) (st : ImagesState) : Except Failure ImagesState :=
  match (pySplit (fmt (d.getVar "INITRAMFS_FSTYPES"))).head?, d.getVar "INITRAMFS_FSTYPES" with
  | some defaultImgfstype, some _ =>
    let imgFstype := (imageflag d image "fstype").getD defaultImgfstype
    let imgFile := fmt (d.getVar ("FITIMAGE_IMAGE_" ++ image)) ++
      fmt (d.getVar "IMAGE_MACHINE_SUFFIX") ++ "." ++ imgFstype
    let imgPath := d.getVar "DEPLOY_DIR_IMAGE"
    pure { st with
      ramdiskcount := "1"
      text := st.text ++ fitimageEmitSectionRamdisk d imgFile (fmt imgPath) }
  | _, _ => throw .exception

/-- An image of the type `bootscript`. -/
def imageBootscript (image : String) (st : ImagesState) : Except Failure ImagesState :=
  if truthy st.bootscriptid then
    throw (.fatal ("Only a single boot script is supported (already set to: " ++
      fmt st.bootscriptid ++ ")"))
  else
    let imgsource := imageflag d image "file"
    let imgpath := d.getVar "DEPLOY_DIR_IMAGE"
    pure { st with
      bootscriptid := imgsource
      text := st.text ++ fitimageEmitSectionBootscript d (fmt imgpath) imgsource }

/-- `imageflags.get( 'type', 'kernel' )` -/
def imgtypeOf (image : String) : String := (imageflag d image "type").getD "kernel"

/-- One image of the loop. -/
def addImage (st : ImagesState) (image : String) : Except Failure ImagesState :=
  let imgtype := imgtypeOf d image
  if imgtype = "kernel" then pure (imageKernel d image st)
  else if imgtype = "fdt" then imageFdt d out image st
  else if imgtype = "fdto" then imageFdto d out image st
  else if imgtype = "fdtapply" then imageFdtapply d out image st
  else if imgtype = "ramdisk" then imageRamdisk d image st
  else if imgtype = "bootscript" then imageBootscript d image st
  else throw (.fatal ("Unsupported image type: '" ++ imgtype ++ "'"))

/-- The variables of the loops over the device trees. -/
structure ConfigsState where
  text : List String
  dtbcount : ℕ
  confcount : ℕ

/-- `check_output( cmd ).split()[ 0 ]`: no output is an exception. -/
def compatibleOf (dtb : String) : Except Failure (Option String) :=
  match out.fdtget ("fdtget -t s " ++ dtb ++ " / compatible") with
  | none => pure none
  | some output =>
    match (pySplit output).head? with
    | none => throw .exception
    | some compatible => pure (some compatible)

/-- One configuration; `kernelcount` is 1 and `setupcount` empty. -/
def addConfig (ramdiskcount : String) (bootscriptid : Option String) (st : ConfigsState)
    (dtb : String) : Except Failure ConfigsState := do
  let compatible ← compatibleOf out dtb
  if compatible = none then
    throw (.fatal ("Failed to find root-node compatible string in (" ++ dtb ++ ")"))
  else
    let (_, dtbFile) := ospathSplit dtb
    pure {
      text := st.text ++ fitimageEmitSectionConfig d dtbFile 1 ramdiskcount "" bootscriptid
        compatible st.dtbcount
      dtbcount := st.dtbcount + 1
      confcount := st.confcount + 1 }

/-- The configuration of an overlay. -/
def addConfigFdto (st : ConfigsState) (dtb : String) : Except Failure ConfigsState := do
  let compatible ← compatibleOf out dtb
  let (_, dtbFile) := ospathSplit dtb
  pure { st with
    text := st.text ++ fitimageEmitSectionConfigFdto d dtbFile compatible
    confcount := st.confcount + 1 }

/-- The text of `manifest.its`. -/
def writeManifest : Except Failure String := do
  let images := pySplit (pyOr (d.getVar "FITIMAGE_IMAGES") "")
  let text := fitimageEmitFitHeader d ++ fitimageEmitSectionStart "images"
  let st ← images.foldlM (addImage d out) ⟨text, "", "", "", some ""⟩
  let text := st.text ++ fitimageEmitSectionEnd ++ fitimageEmitSectionStart "configurations"
  let cs ← (pySplit st.DTBS).foldlM (addConfig d out st.ramdiskcount st.bootscriptid) ⟨text, 1, 0⟩
  let cs ← (pySplit st.DTBOS).foldlM (addConfigFdto d out) cs
  let text := cs.text ++ fitimageEmitSectionEnd
  if cs.confcount = 0 then
    throw (.fatal ("Empty 'configurations' node generated! At least one 'fdt' or 'fdto' type " ++
      "is required."))
  else pure (String.join (text ++ fitimageEmitFitFooter))

end MetaHipos.Fitimage
