/-
  The boot scripts of `himx0294.h`, and what they do.

  A boot ends with one of the scripts that `board_generate_bootcmd` leaves in
  `bootcmd` and `altbootcmd`.  They run others, which load an image from the
  partition of a slot, set the arguments of the kernel and start the image.

  * `extraEnvSettings`: the default environment, with the scripts as texts (it
    leaves out the entry without a `=`);
  * `issues_bootText`: the commands that the scripts issue for a slot.
-/
import MetaHipos.Hush
import MetaHipos.Uboot.SlotSwitch

namespace MetaHipos.Uboot

open Process Hush

/-! ## The default environment -/

/-- `HIMX_DEFAULT_LINUX_DEV` -/
def himxDefaultLinuxDev : String := "2"

/-- `HIMX_DEFAULT_FDT_HIGH` -/
def himxDefaultFdtHigh : Variant → List (String × String)
  | .dvmon => []
  | _ => [("fdt_high", "4f539000")]

/-- `boot_usb` -/
def bootUsb : String :=
  "usb start; setenv boottype usb; setenv bootdev 0; " ++
    "setenv bootpart 2; setenv bootroot /dev/sda2; run do_boot"

/-- `do_fitboot` -/
def doFitboot : String := "run load_fitimage; run setbootargs; bootm ${fit_addr}#${fit_conf}"

/-- `do_legacyboot` -/
def doLegacyboot : String :=
  "run load_kernel; run load_fdt; run setbootargs; " ++ "bootm ${kernel_addr} - ${fdt_addr}"

/-- `load_fdt` -/
def loadFdt : String := "ext4load ${boottype} ${bootdev}:${bootpart} ${fdt_addr} ${fdt_file}"

/-- `load_kernel` -/
def loadKernel : String := "ext4load ${boottype} ${bootdev}:${bootpart} ${kernel_addr} ${kernel_file}"

/-- `load_fitimage` -/
def loadFitimage : String := "ext4load ${boottype} ${bootdev}:${bootpart} ${fit_addr} ${fit_file}"

/-- `setbootargs` -/
def setbootargs : String :=
  "setenv bootargs console=ttymxc1,115200 " ++ "root=${bootroot} rootwait " ++
    "mxc_hdmi.only_cea=0 " ++ "firmwareslot=${firmwareslot}"

/-- `setup_part_a` and `setup_part_b` -/
def setupPart : Slot → String
  | .a => "setenv boottype mmc; setenv bootdev 0; setenv bootpart 1; setenv firmwareslot a;"
  | .b => "setenv boottype mmc; setenv bootdev 0; setenv bootpart 2; setenv firmwareslot b;"

/-- `CFG_EXTRA_ENV_SETTINGS`, but for the entry that is no assignment. -/
def extraEnvSettings (board : Board) : List (String × String) :=
  [("boot_usb", bootUsb),
    ("console", "ttymxc1"),
    ("fit_addr", "0x28000000"),
    ("fit_file", "fitImage.signed"),
    ("initrd_high", "0x80000000"),
    ("kernel_addr", "0x12000000"),
    ("kernel_file", "/boot/uImage"),
    ("fdt_addr", "0x22000000"),
    ("fdt_file", board.defaultFdtFile)] ++
  himxDefaultFdtHigh board.variant ++
  [("do_fitboot", doFitboot),
    ("do_legacyboot", doLegacyboot),
    ("load_fdt", loadFdt),
    ("load_kernel", loadKernel),
    ("load_fitimage", loadFitimage),
    ("bootroot", "/dev/mmcblk" ++ himxDefaultLinuxDev ++ "p4"),
    ("setbootargs", setbootargs),
    ("setup_part_a", setupPart .a),
    ("setup_part_b", setupPart .b),
    ("x_bootA", "run setup_part_a; run do_fitboot"),
    ("x_bootB", "run setup_part_b; run do_fitboot")]

/-! ## What is issued -/

/-- `bootm` hands `bootargs` to the kernel. -/
def sees (ws : List Text) (vars : Vars) : Option String :=
  if ws.head? = some "bootm".toList then vars "bootargs" else none

/-- A command that leaves the shell. -/
abbrev Call := External (Option String)

namespace Slot

/-- The partition with the images of a slot. -/
def part : Slot → String
  | a => "1"
  | b => "2"

/-- The value of `firmwareslot`. -/
def name (s : Slot) : String := String.ofList [s.char]

end Slot

/-- The arguments of the kernel for a slot. -/
def bootargs (s : Slot) : String :=
  "console=ttymxc1,115200 root=/dev/mmcblk2p4 rootwait mxc_hdmi.only_cea=0 firmwareslot=" ++ s.name

/-- Load a file from the partition of a slot. -/
def ext4load (s : Slot) (addr file : String) : Call :=
  ⟨["ext4load", "mmc", "0:" ++ s.part, addr, file].map String.toList, none⟩

/-- Start the image, with the arguments for a slot. -/
def bootm (s : Slot) (image : List String) : Call :=
  ⟨("bootm" :: image).map String.toList, some (bootargs s)⟩

/-- Start again. -/
def reset : Call := ⟨["reset".toList], none⟩

/-- A boot of the FIT image of a slot. -/
def fitCalls (s : Slot) (conf : String) : List Call :=
  [ext4load s "0x28000000" "fitImage.signed", bootm s ["0x28000000#" ++ conf]]

/-- A boot of the plain kernel of a slot. -/
def legacyCalls (s : Slot) (fdt : String) : List Call :=
  [ext4load s "0x12000000" "/boot/uImage", ext4load s "0x22000000" fdt,
    bootm s ["0x12000000", "-", "0x22000000"]]

/-! ## Variables -/

/-- The variables of the scripts have their default values. -/
def DefaultVars (board : Board) (vars : Vars) : Prop :=
  ∀ n v, (n, v) ∈ extraEnvSettings board → n ≠ "fdt_file" → vars n = some v

/-- The names of the default environment. -/
def extraEnvNames (variant : Variant) : List String :=
  ["boot_usb", "console", "fit_addr", "fit_file", "initrd_high", "kernel_addr", "kernel_file",
    "fdt_addr", "fdt_file"] ++
  (himxDefaultFdtHigh variant).map Prod.fst ++
  ["do_fitboot", "do_legacyboot", "load_fdt", "load_kernel", "load_fitimage", "bootroot",
    "setbootargs", "setup_part_a", "setup_part_b", "x_bootA", "x_bootB"]

theorem name_of_mem {board : Board} {n v : String} (h : (n, v) ∈ extraEnvSettings board) :
    n ∈ extraEnvNames board.variant := by
  have hmap : n ∈ (extraEnvSettings board).map Prod.fst := List.mem_map_of_mem h
  rwa [extraEnvSettings, List.map_append, List.map_append] at hmap

/-- The variables that the scripts set. -/
def scriptNames : List String := ["boottype", "bootdev", "bootpart", "firmwareslot", "bootargs"]

theorem scriptNames_own (variant : Variant) : ∀ n ∈ scriptNames,
    n ∉ extraEnvNames variant ∧ n ≠ "fdt_file" ∧ n ≠ "fit_conf" := by
  cases variant <;> decide

/-- A variable of its own does not change them. -/
theorem DefaultVars.update {board : Board} {vars : Vars} (h : DefaultVars board vars) {n : String}
    (v : Option String) (hn : n ∈ scriptNames) :
    DefaultVars board (Function.update vars n v) := by
  intro m w hmem hm
  have hmn : m ≠ n := by
    rintro rfl
    exact (scriptNames_own board.variant m hn).1 (name_of_mem hmem)
  rw [Function.update_of_ne hmn]
  exact h m w hmem hm

/-- What the scripts of a boot see: the defaults, the file and the configuration
    of the device tree. -/
structure ScriptVars (board : Board) (fdt conf : String) (vars : Vars) : Prop where
  defaults : DefaultVars board vars
  fdtFile : vars "fdt_file" = some fdt
  fitConf : vars "fit_conf" = some conf

/-- The variables of `setup_part_a` and `setup_part_b`. -/
structure PartVars (s : Slot) (vars : Vars) : Prop where
  boottype : vars "boottype" = some "mmc"
  bootdev : vars "bootdev" = some "0"
  bootpart : vars "bootpart" = some s.part
  firmwareslot : vars "firmwareslot" = some s.name

section
variable {board : Board} {fdt conf : String} {vars : Vars} {s : Slot}

theorem ScriptVars.update (h : ScriptVars board fdt conf vars) {n : String} (v : Option String)
    (hn : n ∈ scriptNames) : ScriptVars board fdt conf (Function.update vars n v) := by
  obtain ⟨-, hfdt, hconf⟩ := scriptNames_own board.variant n hn
  refine ⟨h.defaults.update v hn, ?_, ?_⟩
  · rw [Function.update_of_ne hfdt.symm, h.fdtFile]
  · rw [Function.update_of_ne hconf.symm, h.fitConf]

theorem PartVars.update_bootargs (h : PartVars s vars) (v : Option String) :
    PartVars s (Function.update vars "bootargs" v) := by
  refine ⟨?_, ?_, ?_, ?_⟩
  · rw [Function.update_of_ne (by decide), h.boottype]
  · rw [Function.update_of_ne (by decide), h.bootdev]
  · rw [Function.update_of_ne (by decide), h.bootpart]
  · rw [Function.update_of_ne (by decide), h.firmwareslot]

/-! ## The scripts -/

/-- The variables after `setup_part_a` or `setup_part_b`. -/
def setPart (s : Slot) (vars : Vars) : Vars :=
  Function.update (Function.update (Function.update (Function.update vars "boottype" (some "mmc"))
    "bootdev" (some "0")) "bootpart" (some s.part)) "firmwareslot" (some s.name)

theorem partVars_setPart (s : Slot) (vars : Vars) : PartVars s (setPart s vars) := by
  refine ⟨?_, ?_, ?_, ?_⟩ <;> simp [setPart]

theorem ScriptVars.setPart (h : ScriptVars board fdt conf vars) (s : Slot) :
    ScriptVars board fdt conf (setPart s vars) :=
  have hmem : ∀ n ∈ ["boottype", "bootdev", "bootpart", "firmwareslot"], n ∈ scriptNames := by
    decide
  (((h.update _ (hmem _ (.head _))).update _ (hmem _ (.tail _ (.head _)))).update _
    (hmem _ (.tail _ (.tail _ (.head _))))).update _ (hmem _ (.tail _ (.tail _ (.tail _ (.head _)))))

/-- `setenv name value` -/
theorem issues_setenv_cons {exec : String → Vars → Shell (Option String) (Bool × Vars)}
    {cs : Script} {vars' : Vars} {es : List Call} {ok : Bool} (n v : String) (hn : '=' ∉ n.toList)
    (hplain : plainCommand ["setenv".toList, n.toList, v.toList] = true)
    (h : ∀ ok, Issues (Leaves vars') es
      (commands sees exec cs ok (Function.update vars n (some v)))) :
    Issues (Leaves vars') es
      (commands sees exec ([word "setenv", word n, word v] :: cs) ok vars) := by
  have hexp : expand vars [word "setenv", word n, word v] =
      some ["setenv".toList, n.toList, v.toList] := by
    refine expand_eq ?_ hplain
    simp only [List.map_cons, List.map_nil, expandWord_word]
  have hstep := issues_setenv sees vars exec n [v.toList] hn (List.cons_ne_nil _ _)
  rw [Words.joinWith, String.ofList_toList] at hstep
  exact issues_cons hexp hstep h

theorem issues_setupPart {depth : ℕ} (s : Slot) :
    Issues (Leaves (setPart s vars)) [] (line sees (depth + 1) (setupPart s) vars) := by
  have hparse : parse (setupPart s).toList = some
      [[word "setenv", word "boottype", word "mmc"], [word "setenv", word "bootdev", word "0"],
        [word "setenv", word "bootpart", word s.part],
        [word "setenv", word "firmwareslot", word s.name]] := by
    cases s <;> decide
  have hpart : plainCommand ["setenv".toList, "bootpart".toList, s.part.toList] = true := by
    cases s <;> decide
  have hname : plainCommand ["setenv".toList, "firmwareslot".toList, s.name.toList] = true := by
    cases s <;> decide
  refine issues_line hparse ?_
  refine issues_setenv_cons "boottype" "mmc" (by decide) (by decide) fun _ => ?_
  refine issues_setenv_cons "bootdev" "0" (by decide) (by decide) fun _ => ?_
  refine issues_setenv_cons "bootpart" s.part (by decide) hpart fun _ => ?_
  refine issues_setenv_cons "firmwareslot" s.name (by decide) hname fun _ => ?_
  exact issues_nil

/-- `load_fitimage`, `load_kernel` and `load_fdt` -/
theorem issues_load {depth : ℕ} {text addr file addrVar fileVar : String}
    (hparse : parse text.toList = some [[word "ext4load", [.var "boottype".toList],
      [.var "bootdev".toList, .lit ':', .var "bootpart".toList], [.var addrVar.toList],
      [.var fileVar.toList]]])
    (hpart : PartVars s vars) (haddr : vars addrVar = some addr) (hfile : vars fileVar = some file)
    (hplain : plainWord addr.toList = true ∧ plainWord file.toList = true) :
    Issues (Leaves vars) [ext4load s addr file] (line sees (depth + 1) text vars) := by
  have hword : ("0:" ++ s.part).toList = "0".toList ++ ':' :: s.part.toList := by
    cases s <;> decide
  have hexp : expand vars [word "ext4load", [.var "boottype".toList],
      [.var "bootdev".toList, .lit ':', .var "bootpart".toList], [.var addrVar.toList],
      [.var fileVar.toList]] = some ["ext4load".toList, "mmc".toList, ("0:" ++ s.part).toList,
        addr.toList, file.toList] := by
    refine expand_eq ?_ ?_
    · simp only [List.map_cons, List.map_nil, expandWord_word, expandWord_var, expandWord_lit,
        expandWord_nil, List.append_nil, hpart.boottype, hpart.bootdev, hpart.bootpart, haddr,
        hfile, Option.getD_some, hword]
    · have hhead : plainCommand ["ext4load".toList, "mmc".toList, ("0:" ++ s.part).toList] = true := by
        cases s <;> decide
      exact plainCommand_append _ [addr.toList, file.toList] hhead (by simp [hplain])
  have hcmd := issues_external sees vars (line sees depth) "ext4load".toList
    ["mmc".toList, ("0:" ++ s.part).toList, addr.toList, file.toList] (by decide) (by decide)
  have hsees : sees ["ext4load".toList, "mmc".toList, ("0:" ++ s.part).toList, addr.toList,
      file.toList] vars = none := if_neg (by rw [List.head?_cons]; decide)
  rw [hsees] at hcmd
  exact issues_line hparse (issues_cons hexp hcmd fun _ => issues_nil)

/-- The variables after `setbootargs`. -/
def setBootargs (s : Slot) (vars : Vars) : Vars :=
  Function.update vars "bootargs" (some (bootargs s))

theorem issues_setbootargs {depth : ℕ} (hroot : vars "bootroot" = some "/dev/mmcblk2p4")
    (hpart : PartVars s vars) :
    Issues (Leaves (setBootargs s vars)) [] (line sees (depth + 1) setbootargs vars) := by
  have hparse : parse setbootargs.toList = some
      [[word "setenv", word "bootargs", word "console=ttymxc1,115200",
        word "root=" ++ [.var "bootroot".toList], word "rootwait", word "mxc_hdmi.only_cea=0",
        word "firmwareslot=" ++ [.var "firmwareslot".toList]]] := by
    decide +kernel
  have hexp : expand vars [word "setenv", word "bootargs", word "console=ttymxc1,115200",
      word "root=" ++ [.var "bootroot".toList], word "rootwait", word "mxc_hdmi.only_cea=0",
      word "firmwareslot=" ++ [.var "firmwareslot".toList]] =
        some ("setenv".toList :: "bootargs".toList :: ["console=ttymxc1,115200".toList,
          "root=".toList ++ "/dev/mmcblk2p4".toList, "rootwait".toList,
          "mxc_hdmi.only_cea=0".toList, "firmwareslot=".toList ++ s.name.toList]) := by
    refine expand_eq ?_ ?_
    · simp only [List.map_cons, List.map_nil, expandWord_word, expandWord_word_append,
        expandWord_var, expandWord_nil, List.append_nil, hroot, hpart.firmwareslot,
        Option.getD_some]
    · cases s <;> decide
  have hcmd := issues_setenv sees vars (line sees depth) "bootargs"
    ["console=ttymxc1,115200".toList,
      "root=".toList ++ "/dev/mmcblk2p4".toList, "rootwait".toList, "mxc_hdmi.only_cea=0".toList,
      "firmwareslot=".toList ++ s.name.toList] (by decide) (List.cons_ne_nil _ _)
  have hargs : String.ofList (Words.joinWith ' ' ["console=ttymxc1,115200".toList,
      "root=".toList ++ "/dev/mmcblk2p4".toList, "rootwait".toList, "mxc_hdmi.only_cea=0".toList,
      "firmwareslot=".toList ++ s.name.toList]) = bootargs s := by
    cases s <;> decide
  rw [hargs] at hcmd
  exact issues_line hparse (issues_cons hexp hcmd fun _ => issues_nil)

/-- `run name` -/
theorem issues_run_cons {depth : ℕ} {cs : Script} {vars₁ vars₂ : Vars} (es₁ : List Call)
    {es₂ : List Call} {ok : Bool} {name text : String} (hplain : plainCommand ["run".toList, name.toList] = true)
    (hvar : vars name = some text) (h : Issues (Leaves vars₁) es₁ (line sees depth text vars))
    (hcs : ∀ ok, Issues (Leaves vars₂) es₂ (commands sees (line sees depth) cs ok vars₁)) :
    Issues (Leaves vars₂) (es₁ ++ es₂)
      (commands sees (line sees depth) ([word "run", word name] :: cs) ok vars) := by
  have hexp : expand vars [word "run", word name] = some ["run".toList, name.toList] := by
    refine expand_eq ?_ hplain
    simp only [List.map_cons, List.map_nil, expandWord_word]
  exact issues_cons hexp (issues_run hvar h) hcs

/-- `bootm image`, with the arguments for a slot -/
theorem issues_bootm_cons {depth : ℕ} {cs : Script} {vars₂ : Vars} {es : List Call} {ok : Bool}
    {c : List Word} (s : Slot) (image : List String)
    (hc : (word "bootm" :: c).map (expandWord vars) = ("bootm" :: image).map String.toList)
    (hplain : plainCommand (("bootm" :: image).map String.toList) = true)
    (hargs : vars "bootargs" = some (bootargs s))
    (hcs : ∀ ok, Issues (Leaves vars₂) es (commands sees (line sees depth) cs ok vars)) :
    Issues (Leaves vars₂) (bootm s image :: es)
      (commands sees (line sees depth) ((word "bootm" :: c) :: cs) ok vars) := by
  have hsees : sees (("bootm" :: image).map String.toList) vars = some (bootargs s) := by
    rw [sees, List.map_cons, List.head?_cons, if_pos rfl, hargs]
  have hcmd := issues_external sees vars (line sees depth) "bootm".toList
    (image.map String.toList) (by decide)
    (by decide)
  rw [← List.map_cons, hsees] at hcmd
  exact issues_cons (expand_eq hc hplain) hcmd hcs

/-- `reset` -/
theorem issues_reset {depth : ℕ} {ok : Bool} :
    Issues (Leaves vars) [reset] (commands sees (line sees depth) [[word "reset"]] ok vars) := by
  have hexp : expand vars [word "reset"] = some ["reset".toList] := by
    refine expand_eq ?_ (by decide)
    simp only [List.map_cons, List.map_nil, expandWord_word]
  have hsees : sees ["reset".toList] vars = none :=
    if_neg (by rw [List.head?_cons]; decide)
  have hcmd := issues_external sees vars (line sees depth) "reset".toList [] (by decide)
    (by decide)
  rw [hsees] at hcmd
  exact issues_cons hexp hcmd fun _ => issues_nil

/-! ## The boots -/

theorem ScriptVars.get (h : ScriptVars board fdt conf vars) {n v : String}
    (hmem : (n, v) ∈ extraEnvSettings board) (hn : n ≠ "fdt_file") : vars n = some v :=
  h.defaults n v hmem hn

theorem ScriptVars.bootroot (h : ScriptVars board fdt conf vars) :
    vars "bootroot" = some "/dev/mmcblk2p4" :=
  h.get (by simp [extraEnvSettings, himxDefaultLinuxDev]) (by decide)

theorem issues_doFitboot {depth : ℕ} (hvars : ScriptVars board fdt conf vars)
    (hpart : PartVars s vars) (hconf : ∀ c ∈ conf.toList, isOrdinary c = true) :
    Issues (Leaves (setBootargs s vars)) (fitCalls s conf)
      (line sees (depth + 2) doFitboot vars) := by
  have hparse : parse doFitboot.toList = some [[word "run", word "load_fitimage"],
      [word "run", word "setbootargs"],
      [word "bootm", [.var "fit_addr".toList, .lit '#', .var "fit_conf".toList]]] := by
    decide
  have hload : parse loadFitimage.toList = some [[word "ext4load", [.var "boottype".toList],
      [.var "bootdev".toList, .lit ':', .var "bootpart".toList], [.var "fit_addr".toList],
      [.var "fit_file".toList]]] := by
    decide
  have hvars' : ScriptVars board fdt conf (setBootargs s vars) :=
    hvars.update _ (by decide)
  have haddr : ∀ {vars}, ScriptVars board fdt conf vars → vars "fit_addr" = some "0x28000000" :=
    fun h => h.get (by simp [extraEnvSettings]) (by decide)
  refine issues_line hparse ?_
  refine issues_run_cons [ext4load s "0x28000000" "fitImage.signed"] (by decide)
    (hvars.get (v := loadFitimage) (by simp [extraEnvSettings]) (by decide))
    (issues_load hload hpart (haddr hvars)
      (hvars.get (by simp [extraEnvSettings]) (by decide)) (by decide)) fun _ => ?_
  refine issues_run_cons [] (by decide)
    (hvars.get (v := setbootargs) (by simp [extraEnvSettings]) (by decide))
    (issues_setbootargs hvars.bootroot hpart) fun _ => ?_
  have himage : ("0x28000000#" ++ conf).toList = "0x28000000".toList ++ '#' :: conf.toList := by
    rw [String.toList_append, show "0x28000000#".toList = "0x28000000".toList ++ ['#'] by
      decide, List.append_assoc, List.singleton_append]
  refine issues_bootm_cons s ["0x28000000#" ++ conf] ?_ ?_
    (Function.update_self ..) fun _ => issues_nil
  · simp only [List.map_cons, List.map_nil, expandWord_word, expandWord_var, expandWord_lit,
      expandWord_nil, List.append_nil, haddr hvars', hvars'.fitConf, Option.getD_some, himage]
  · have hword : plainWord ("0x28000000#" ++ conf).toList = true := by
      rw [String.toList_append]
      exact plainWord_append (by decide) hconf
    have hbootm : plainCommand ["bootm".toList] = true := by decide
    refine plainCommand_append [] _ hbootm fun w hw => ?_
    rwa [List.mem_singleton.1 hw]

theorem issues_doLegacyboot {depth : ℕ} (hvars : ScriptVars board fdt conf vars)
    (hpart : PartVars s vars) (hfdt : plainWord fdt.toList = true) :
    Issues (Leaves (setBootargs s vars)) (legacyCalls s fdt)
      (line sees (depth + 2) doLegacyboot vars) := by
  have hparse : parse doLegacyboot.toList = some [[word "run", word "load_kernel"],
      [word "run", word "load_fdt"], [word "run", word "setbootargs"],
      [word "bootm", [.var "kernel_addr".toList], word "-", [.var "fdt_addr".toList]]] := by
    decide
  have hkernel : parse loadKernel.toList = some [[word "ext4load", [.var "boottype".toList],
      [.var "bootdev".toList, .lit ':', .var "bootpart".toList], [.var "kernel_addr".toList],
      [.var "kernel_file".toList]]] := by
    decide
  have hfdt' : parse loadFdt.toList = some [[word "ext4load", [.var "boottype".toList],
      [.var "bootdev".toList, .lit ':', .var "bootpart".toList], [.var "fdt_addr".toList],
      [.var "fdt_file".toList]]] := by
    decide
  have hvars' : ScriptVars board fdt conf (setBootargs s vars) :=
    hvars.update _ (by decide)
  have haddr : ∀ {vars}, ScriptVars board fdt conf vars →
      vars "kernel_addr" = some "0x12000000" ∧ vars "fdt_addr" = some "0x22000000" := fun h =>
    ⟨h.get (by simp [extraEnvSettings]) (by decide),
      h.get (by simp [extraEnvSettings]) (by decide)⟩
  refine issues_line hparse ?_
  refine issues_run_cons [ext4load s "0x12000000" "/boot/uImage"] (by decide)
    (hvars.get (v := loadKernel) (by simp [extraEnvSettings]) (by decide))
    (issues_load hkernel hpart (haddr hvars).1
      (hvars.get (by simp [extraEnvSettings]) (by decide)) (by decide)) fun _ => ?_
  refine issues_run_cons [ext4load s "0x22000000" fdt] (by decide)
    (hvars.get (v := loadFdt) (by simp [extraEnvSettings]) (by decide))
    (issues_load hfdt' hpart (haddr hvars).2 hvars.fdtFile ⟨by decide, hfdt⟩) fun _ => ?_
  refine issues_run_cons [] (by decide)
    (hvars.get (v := setbootargs) (by simp [extraEnvSettings]) (by decide))
    (issues_setbootargs hvars.bootroot hpart) fun _ => ?_
  refine issues_bootm_cons s ["0x12000000", "-", "0x22000000"] ?_
    (by decide) (Function.update_self ..) fun _ => issues_nil
  simp only [List.map_cons, List.map_nil, expandWord_word, expandWord_var, expandWord_nil,
    List.append_nil, haddr hvars', Option.getD_some]

/-- What the boot of a slot issues, with the plain kernel at the end if `legacy`. -/
def bootCalls (s : Slot) (legacy : Bool) (conf fdt : String) : List Call :=
  fitCalls s conf ++ ((if legacy then legacyCalls s fdt else []) ++ [reset])

/-- The text for a slot. -/
def bootText (s : Slot) (legacy : Bool) : String :=
  if legacy then legacybootText s.char else fitbootText s.char

/-- The variables at the end. -/
def bootVars (s : Slot) (legacy : Bool) (vars : Vars) : Vars :=
  if legacy then setBootargs s (setBootargs s (setPart s vars)) else setBootargs s (setPart s vars)

/-- **The boot of a slot.** -/
theorem issues_bootText (depth : ℕ) (hvars : ScriptVars board fdt conf vars) (s : Slot)
    (legacy : Bool) (hconf : ∀ c ∈ conf.toList, isOrdinary c = true)
    (hfdt : plainWord fdt.toList = true) :
    Issues (Leaves (bootVars s legacy vars)) (bootCalls s legacy conf fdt)
      (line sees (depth + 3) (bootText s legacy) vars) := by
  have hparse : parse (bootText s legacy).toList = some
      ([word "run", word ("setup_part_" ++ s.name)] :: [word "run", word "do_fitboot"] ::
        ((if legacy then [[word "run", word "do_legacyboot"]] else []) ++ [[word "reset"]])) := by
    cases s <;> cases legacy <;> decide
  have hsetup : vars ("setup_part_" ++ s.name) = some (setupPart s) := by
    cases s
    · exact hvars.get (by simp [extraEnvSettings, Slot.name, Slot.char]) (by decide)
    · exact hvars.get (by simp [extraEnvSettings, Slot.name, Slot.char]) (by decide)
  have hname : plainCommand ["run".toList, ("setup_part_" ++ s.name).toList] = true := by
    cases s <;> decide
  have hvars₁ := hvars.setPart s
  have hpart := partVars_setPart s vars
  have hvars₂ : ScriptVars board fdt conf (setBootargs s (setPart s vars)) :=
    hvars₁.update _ (by decide)
  refine issues_line hparse ?_
  refine issues_run_cons [] hname hsetup (issues_setupPart s) fun _ => ?_
  refine issues_run_cons _ (by decide)
    (hvars₁.get (v := doFitboot) (by simp [extraEnvSettings]) (by decide))
    (issues_doFitboot hvars₁ hpart hconf) fun _ => ?_
  cases legacy with
  | false => exact issues_reset
  | true =>
    exact issues_run_cons _ (by decide)
      (hvars₂.get (v := doLegacyboot) (by simp [extraEnvSettings]) (by decide))
      (issues_doLegacyboot hvars₂ (hpart.update_bootargs _) hfdt) fun _ => issues_reset

end

end MetaHipos.Uboot
