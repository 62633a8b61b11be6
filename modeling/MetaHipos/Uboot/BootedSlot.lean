/-
  The images of a boot come from the slot it has selected.

  `SlotSwitch` tells which scripts `board_late_init` leaves in `bootcmd` and
  `altbootcmd`; the scripts read variables that are set by the same boot or
  come from the default environment.  So a boot issues a fixed sequence of
  commands, up to the one that starts the kernel.

  * `boots_slot`: what every boot issues, over any number of boots;
  * `StartsFrom`: where the images that `bootm` is given come from;
  * `kernel_mounts_slot`: the kernel that is started mounts the verified root
    file system of the slot that its image was loaded from.
-/
import MetaHipos.Initrd.VerifiedRootfs
import MetaHipos.Uboot.FitConf
import MetaHipos.Uboot.Scripts

namespace MetaHipos.Uboot

open Process Hush

/-! ## The environment after a boot -/

/-- Variables that are not listed have the values of the default environment. -/
def LoadsDefaults (ε : Type) [UbootEnv ε] (board : Board) : Prop :=
  ∀ (e : ε) n v, (n, v) ∈ extraEnvSettings board → n ∉ envFlagsList →
    envGet (envLoad board.defaultFdtFile e) n = some v

/-- A device tree file in `/boot`, of ordinary characters. -/
structure FdtFile (fdt n : String) : Prop where
  eq : fdt = "/boot" ++ "/" ++ n
  ordinary : ∀ c ∈ n.toList, isOrdinary c = true
  basename : '/' ∉ n.toList

theorem fdtFile_of {fdt n : String} (h : fdt = "/boot" ++ "/" ++ n)
    (hordinary : n.toList.all isOrdinary = true) (hbase : '/' ∉ n.toList) : FdtFile fdt n :=
  ⟨h, List.all_eq_true.1 hordinary, hbase⟩

theorem FdtFile.plainWord {fdt n : String} (h : FdtFile fdt n) : plainWord fdt.toList = true := by
  rw [h.eq, String.toList_append]
  exact plainWord_append (by decide) h.ordinary

theorem FdtFile.nul_notMem {fdt n : String} (h : FdtFile fdt n) : nul ∉ n.toList := fun hn =>
  absurd (h.ordinary _ hn) (by decide)

/-- The configuration for a device tree file. -/
def confOf (n : String) : String := "conf-" ++ String.ofList (n.toList.take 26)

theorem confOf_ordinary {fdt n : String} (h : FdtFile fdt n) :
    ∀ c ∈ (confOf n).toList, isOrdinary c = true := by
  have hbegin : ("conf-".toList).all isOrdinary = true := by decide
  rw [confOf, String.toList_append]
  intro c hc
  rcases List.mem_append.1 hc with hc | hc
  · exact List.all_eq_true.1 hbegin c hc
  · rw [String.toList_ofList] at hc
    exact h.ordinary c (List.mem_of_mem_take hc)

/-- The variables that `board_late_init` sets. -/
def boardNames : List String :=
  ["fdt_file", "fit_conf", "bootcmd", "altbootcmd", "firmware", "ustate"]

theorem boardNames_own (variant : Variant) : ∀ n ∈ boardNames,
    n ≠ "fdt_file" → n ∉ extraEnvNames variant := by
  cases variant <;> decide

theorem envFlagsList_own (variant : Variant) : ∀ n ∈ envFlagsList, n ∉ extraEnvNames variant := by
  cases variant <;> decide

variable {ε : Type} [UbootEnv ε]

/-- The environment of a boot before the boot commands are generated. -/
structure Prepared (board : Board) (n : String) (e : ε) : Prop where
  defaults : DefaultVars board (envGet e)
  fdtFile : ∃ fdt, FdtFile fdt n ∧ envGet e "fdt_file" = some fdt

section
variable {board : Board} {n : String} {e stored : ε}
  {J : Judge (BoardOp ε) BoardAns Fault ε}

/-- Other variables do not matter to the scripts. -/
theorem DefaultVars.envSet (h : DefaultVars board (envGet e)) {m v : String}
    (hm : m ∈ boardNames) : DefaultVars board (envGet (envSet e m v)) := by
  intro n w hmem hn
  have hnm : n ≠ m := by
    rintro rfl
    exact boardNames_own board.variant n hm hn (name_of_mem hmem)
  rw [UbootEnv.envGet_envSet_of_ne _ _ _ _ hnm]
  exact h n w hmem hn

theorem DefaultVars.envSetUlong (h : DefaultVars board (envGet e)) {m : String} {v : ℕ}
    (hm : m ∈ boardNames) : DefaultVars board (envGet (envSetUlong e m v)) := by
  intro n w hmem hn
  have hnm : n ≠ m := by
    rintro rfl
    exact boardNames_own board.variant n hm hn (name_of_mem hmem)
  rw [UbootEnv.envGet_envSetUlong_of_ne _ _ _ _ hnm]
  exact h n w hmem hn

theorem defaultVars_envLoad (hload : LoadsDefaults ε board) (stored : ε) :
    DefaultVars board (envGet (envLoad board.defaultFdtFile stored)) := fun n v hmem _ =>
  hload stored n v hmem fun hn => envFlagsList_own board.variant n hn (name_of_mem hmem)

/-- The detection of the board leaves a device tree file in `/boot`. -/
theorem prepared_boardDetect {Q : ε → ε → Prop} (hJ : ∀ s, J.inv s)
    (hdefaults : DefaultVars board (envGet e)) (hn : FdtFile board.defaultFdtFile n)
    (hfdt : envGet e "fdt_file" = some board.defaultFdtFile)
    (hQ : ∀ e' n', Prepared board n' e' → Q e' stored) :
    wp (envFlash ε) J (boardDetect board e) Q stored := by
  have hsame := hQ e n ⟨hdefaults, _, hn, hfdt⟩
  have hset : ∀ fdt' n', FdtFile fdt' n' → Q (envSet e "fdt_file" fdt') stored := by
    intro fdt' n' hn'
    refine hQ _ n' ⟨hdefaults.envSet (by decide), fdt', hn', UbootEnv.envGet_envSet _ _ _ ?_⟩
    rintro rfl
    exact absurd hn'.plainWord (by decide)
  have hdvrec : FdtFile HIMX_DEFAULT_FDT_FILE_DVREC "imx6q-himx0294-dvrec.dtb" :=
    fdtFile_of (by decide) (by decide) (by decide)
  have hdvrecP : FdtFile HIMX_DEFAULT_FDT_FILE_DVREC_P "imx6qp-himx0294-dvrec.dtb" :=
    fdtFile_of (by decide) (by decide) (by decide)
  have hdvmon : FdtFile HIMX_DEFAULT_FDT_FILE_DVMON_2 "imx6q-himx0294-dvmon-2.dtb" :=
    fdtFile_of (by decide) (by decide) (by decide)
  rw [boardDetect]
  cases board.variant with
  | ivap =>
    refine wp_query (hJ _) (by simp) fun gpio _ => ?_
    rw [wp_ite]
    refine ⟨fun _ => hsame, fun _ => ?_⟩
    rw [wp_bind, wp_isDefaultFdt hfdt, wp_ite]
    refine ⟨fun _ => hsame, fun _ => wp_query (hJ _) (by simp) fun mx6qp _ => ?_⟩
    cases mx6qp
    · exact hset _ _ hdvrec
    · exact hset _ _ hdvrecP
  | dvmon =>
    rw [wp_bind]
    refine wp_hasI2cDevice (hJ _) fun touch => ?_
    rw [wp_ite]
    refine ⟨fun _ => hsame, fun _ => ?_⟩
    rw [wp_bind, wp_isDefaultFdt hfdt, wp_ite]
    exact ⟨fun _ => hsame, fun _ => hset _ _ hdvmon⟩
  | other => exact hsame

/-- `fit_conf` is set to the configuration for the device tree file. -/
theorem boardGenerateFitConf_prepared (h : Prepared board n e) :
    boardGenerateFitConf e = pure (envSet e "fit_conf" (confOf n)) := by
  obtain ⟨fdt, hn, hfdt⟩ := h.fdtFile
  have hsplit : strrchr fdt.toList '/' = some ('/' :: n.toList) := by
    rw [hn.eq, String.toList_append, String.toList_append, List.append_assoc]
    exact strrchr_append _ hn.basename
  simp only [boardGenerateFitConf, hfdt, hsplit, fitConfBuffer_eq,
    cstring_fitConfBuffer hn.nul_notMem, String.ofList_append, String.ofList_toList]
  rfl

/-- The scripts see the device tree file and its configuration. -/
def Ready (board : Board) (e : ε) : Prop :=
  ∃ fdt n, FdtFile fdt n ∧ ScriptVars board fdt (confOf n) (envGet e)

theorem Prepared.ready (h : Prepared board n e) :
    Ready board (envSet e "fit_conf" (confOf n)) := by
  obtain ⟨fdt, hn, hfdt⟩ := h.fdtFile
  refine ⟨fdt, n, hn, h.defaults.envSet (by decide), ?_, UbootEnv.envGet_envSet _ _ _ ?_⟩
  · rw [UbootEnv.envGet_envSet_of_ne _ _ _ _ (by decide), hfdt]
  · intro hconf
    have := congrArg String.length hconf
    simp [confOf] at this

theorem Ready.envSet (h : Ready board e) {m v : String} (hm : m ∈ ["bootcmd", "altbootcmd"]) :
    Ready board (envSet e m v) := by
  obtain ⟨fdt, n, hn, hdefaults, hfdt, hconf⟩ := h
  have hnames : ∀ m ∈ ["bootcmd", "altbootcmd"], m ∈ boardNames ∧ m ≠ "fdt_file" ∧
      m ≠ "fit_conf" := by decide
  obtain ⟨hm, hm₁, hm₂⟩ := hnames m hm
  refine ⟨fdt, n, hn, hdefaults.envSet hm, ?_, ?_⟩
  · rw [UbootEnv.envGet_envSet_of_ne _ _ _ _ hm₁.symm, hfdt]
  · rw [UbootEnv.envGet_envSet_of_ne _ _ _ _ hm₂.symm, hconf]

theorem Ready.envSetUlong (h : Ready board e) {m : String} {v : ℕ}
    (hm : m ∈ ["firmware", "ustate"]) : Ready board (envSetUlong e m v) := by
  obtain ⟨fdt, n, hn, hdefaults, hfdt, hconf⟩ := h
  have hnames : ∀ m ∈ ["firmware", "ustate"], m ∈ boardNames ∧ m ≠ "fdt_file" ∧
      m ≠ "fit_conf" := by decide
  obtain ⟨hm, hm₁, hm₂⟩ := hnames m hm
  refine ⟨fdt, n, hn, hdefaults.envSetUlong hm, ?_, ?_⟩
  · rw [UbootEnv.envGet_envSetUlong_of_ne _ _ _ _ hm₁.symm, hfdt]
  · rw [UbootEnv.envGet_envSetUlong_of_ne _ _ _ _ hm₂.symm, hconf]

theorem ready_selectFirmware {f u us : ℤ} (hJ : ∀ s, J.inv s) (h : Ready board e) :
    wp (envFlash ε) J (selectFirmware e f u us) (fun r _ => Ready board r.2.2) stored := by
  have hsave : ∀ v, Ready board (UbootEnv.envSetUlong (UbootEnv.envSetUlong e "firmware" v)
      "ustate" 2) := fun v => (h.envSetUlong (by decide)).envSetUlong (by decide)
  rw [selectFirmware, wp_ite]
  refine ⟨fun _ => ?_, fun _ => ?_⟩
  · rw [wp_ite]
    exact ⟨fun _ r _ => ⟨hJ _, hsave 0⟩, fun _ r _ => ⟨hJ _, hsave 1⟩⟩
  · rw [wp_ite]
    exact ⟨fun _ => h, fun _ => h⟩

theorem ready_boardGenerateBootcmd {habState : ℤ} (hJ : ∀ s, J.inv s) (h : Ready board e) :
    wp (envFlash ε) J (boardGenerateBootcmd habState e) (fun e' _ => Ready board e') stored := by
  rw [boardGenerateBootcmd, wp_bind]
  refine wp_mono (ready_selectFirmware hJ h) fun r s hr => ?_
  exact (hr.envSet (by decide)).envSet (by decide)

/-- After a boot, the scripts see what they need. -/
theorem ready_boot (hJ : ∀ s, J.inv s) (hload : LoadsDefaults ε board)
    (hn : FdtFile board.defaultFdtFile n) :
    wp (envFlash ε) J (boot board stored) (fun e _ => Ready board e) stored := by
  rw [boot, boardLateInit, wp_bind]
  refine prepared_boardDetect hJ (defaultVars_envLoad hload stored) hn
    (UbootEnv.envLoad_fdtFile _ _) fun e n hprep => ?_
  rw [wp_bind]
  refine wp_query (hJ _) (by simp) fun enabled _ => wp_query (hJ _) (by simp) fun r _ => ?_
  rw [boardGenerateFitConf_prepared hprep]
  exact ready_boardGenerateBootcmd hJ hprep.ready

/-! ## What every boot issues -/

/-- The script that is executed at the end of a boot: the alternative if the
    limit of failed boots is reached.  Scripts may be nested at least three deep. -/
def autoboot (depth : ℕ) (limit : Bool) (e : ε) : Shell (Option String) (Bool × Vars) :=
  match envGet e (if limit then "altbootcmd" else "bootcmd") with
  | none => pure (false, envGet e)
  | some text => line sees (depth + 3) text (envGet e)

/-- The slot of a script. -/
def autobootSlot (limit : Bool) (s : Slot) : Slot := if limit then s.other else s

/-- The commands `cs` were issued, up to the first that did not return. -/
def IssuedOf (cs : List Call) (run : End Hush.Stop (Bool × Vars) × List Call) : Prop :=
  ∃ rest, cs = run.2 ++ rest ∧
    (((∃ r, run.1 = .done r) ∧ rest = []) ∨ (run.1 = .stopped .gone ∧ run.2 ≠ []))

/-- The run of a script, and the commands it issued. -/
def runScript (p : Shell (Option String) (Bool × Vars))
    (ω : Oracle fun _ : Call => Hush.Outcome) : End Hush.Stop (Bool × Vars) × List Call :=
  let run := exec (history (Option String)) p [] ω
  (run.1, run.2.1)

theorem issuedOf_of_issues {cs : List Call} {p : Shell (Option String) (Bool × Vars)}
    {Q : Bool × Vars → Prop} (h : Issues Q cs p) (ω : Oracle fun _ : Call => Hush.Outcome) :
    IssuedOf cs (runScript p ω) := by
  obtain ⟨issued, rest, hcs, hlog, hend⟩ := h.log [] ω
  obtain rfl : (runScript p ω).2 = issued := hlog
  refine ⟨rest, hcs, hend.imp ?_ fun hgone => ⟨hgone.1, hgone.2.1⟩⟩
  rintro ⟨a, ha, -, hrest⟩
  exact ⟨⟨a, ha⟩, hrest⟩

theorem autoboot_eq {e : ε} {s : Slot} {alt : Prop} [Decidable alt] (h : BootsOn e s alt)
    (depth : ℕ) (limit : Bool) : autoboot depth limit e =
      line sees (depth + 3) (bootText (autobootSlot limit s) (limit && decide alt)) (envGet e) := by
  cases limit with
  | false =>
    simp only [autoboot, Bool.false_eq_true, if_false, h.bootcmd, Bool.false_and, bootText,
      autobootSlot]
  | true =>
    by_cases halt : alt
    · simp only [autoboot, if_true, h.legacyboot halt, Bool.true_and, bootText, autobootSlot,
        decide_eq_true halt]
    · simp only [autoboot, if_true, h.fitboot halt, Bool.true_and, bootText, autobootSlot,
        decide_eq_false halt, Bool.false_eq_true, if_false]

/-- The invariant of all boots, and what each of them leaves. -/
theorem boot_leaves {n₀ : String} (hload : LoadsDefaults ε board)
    (hn : FdtFile board.defaultFdtFile n₀) {stored₀ stored : ε} (h : Consistent stored₀ stored)
    (hab : Hab) :
    wp (envFlash ε) ⟨HabAnswers hab, Consistent stored₀, fun _ _ => False⟩ (boot board stored)
      (fun e stored' => Consistent stored₀ stored' ∧
        (BootsOn e (bootSlot stored₀) (upgradeAvailable stored₀ ≠ 0 ∧ hab.value = 0) ∧
          Ready board e)) stored := by
  have hready : wp (envFlash ε) ⟨HabAnswers hab, fun _ => True, fun _ _ => False⟩
      (boot board stored) (fun e _ => Ready board e) stored := ready_boot (fun _ => trivial) hload hn
  exact wp_mono (wp_and (consistent_boot board h hab _) hready fun _ _ hr => hr)
    fun e s' hpost => ⟨hpost.1.1, hpost.1.2, hpost.2⟩

/-- What the boots left, over any number of boots. -/
theorem reboots_leave {n₀ : String} {stored₀ stored : ε} {boots : List (Hab × ε)}
    (hload : LoadsDefaults ε board) (hn : FdtFile board.defaultFdtFile n₀)
    (hsmall : Small stored₀)
    (hrun : Reboots (envFlash ε) HabAnswers (boot board) stored₀ boots stored) :
    ∀ x ∈ boots, BootsOn x.2 (bootSlot stored₀) (upgradeAvailable stored₀ ≠ 0 ∧ x.1.value = 0) ∧
      Ready board x.2 :=
  have h₀ : Consistent stored₀ stored₀ := ⟨rfl, rfl, hsmall, fun _ => rfl⟩
  (hrun.invariant (Consistent stored₀) (fun hab e =>
    BootsOn e (bootSlot stored₀) (upgradeAvailable stored₀ ≠ 0 ∧ hab.value = 0) ∧ Ready board e)
    (fun _ _ => False) h₀ fun hab _ h => boot_leaves hload hn h hab).2

theorem autoboot_issued {s : Slot} {alt : Prop} [Decidable alt] {fdt : String}
    (hon : BootsOn e s alt) (hfdt : FdtFile fdt n)
    (hvars : ScriptVars board fdt (confOf n) (envGet e)) (depth : ℕ) (limit : Bool)
    (ω : Oracle fun _ : Call => Hush.Outcome) :
    IssuedOf (bootCalls (autobootSlot limit s) (limit && decide alt) (confOf n) fdt)
      (runScript (autoboot depth limit e) ω) := by
  rw [autoboot_eq hon]
  exact issuedOf_of_issues (issues_bootText depth hvars _ _ (confOf_ordinary hfdt) hfdt.plainWord) ω

/-- **What every boot issues**, after any number of boots that may have been cut:
    the image of the selected slot is loaded and started with `firmwareslot` set
    to it.  The alternative does this for the other slot, and goes on with the
    plain kernel exactly if an upgrade is available and the HAB says open. -/
theorem boots_slot {n₀ : String} {stored₀ stored : ε} {boots : List (Hab × ε)}
    (hload : LoadsDefaults ε board) (hn : FdtFile board.defaultFdtFile n₀)
    (hsmall : Small stored₀)
    (hrun : Reboots (envFlash ε) HabAnswers (boot board) stored₀ boots stored) :
    ∀ x ∈ boots, ∃ fdt n, FdtFile fdt n ∧ envGet x.2 "fdt_file" = some fdt ∧
      ∀ depth limit ω, IssuedOf
        (bootCalls (autobootSlot limit (bootSlot stored₀))
          (limit && decide (upgradeAvailable stored₀ ≠ 0 ∧ x.1.value = 0)) (confOf n) fdt)
        (runScript (autoboot depth limit x.2) ω) := by
  intro x hx
  obtain ⟨hon, fdt, n, hfdt, hvars⟩ := reboots_leave hload hn hsmall hrun x hx
  exact ⟨fdt, n, hfdt, hvars.fdtFile, autoboot_issued hon hfdt hvars⟩

end

/-! ## The kernel that is started -/

/-- The framework of the initramfs: `bootparam_name` is the value of the only word
    of the command line that begins with `name=`. -/
structure InitFramework where
  bootparam : (cmdline name : String) → String
  bootparam_eq : ∀ (ws : List Text) (name value : String),
    (∀ w ∈ ws, Words.IsWord isBlank w) → name.toList ++ '=' :: value.toList ∈ ws →
    (∀ w ∈ ws, name.toList ++ ['='] <+: w → w = name.toList ++ '=' :: value.toList) →
      bootparam (String.ofList (Words.joinWith ' ' ws)) name = value

/-- The words of the arguments. -/
def bootargsWords (s : Slot) : List Text :=
  ["console=ttymxc1,115200", "root=/dev/mmcblk2p4", "rootwait", "mxc_hdmi.only_cea=0",
    "firmwareslot=" ++ s.name].map String.toList

/-- The initramfs gets the slot that U-Boot has selected. -/
theorem bootparam_bootargs (F : InitFramework) (s : Slot) :
    F.bootparam (bootargs s) "firmwareslot" = s.name := by
  have hargs : bootargs s = String.ofList (Words.joinWith ' ' (bootargsWords s)) := by
    cases s <;> decide
  have hword : ∀ w ∈ bootargsWords s, w ≠ [] ∧ (w.all fun c => !isBlank c) = true := by
    cases s <;> decide
  have hmem : "firmwareslot".toList ++ '=' :: s.name.toList ∈ bootargsWords s := by
    cases s <;> decide
  have honly : ∀ w ∈ bootargsWords s, "firmwareslot".toList ++ ['='] <+: w →
      w = "firmwareslot".toList ++ '=' :: s.name.toList := by
    cases s <;> decide
  rw [hargs]
  refine F.bootparam_eq _ _ _ (fun w hw => ⟨(hword w hw).1, fun c hc => ?_⟩) hmem honly
  simpa using List.all_eq_true.1 (hword w hw).2 c hc

/-- The commands with their outcomes: the `n`-th one gets the `n`-th response. -/
def withOutcomes (ω : Oracle fun _ : Call => Hush.Outcome) (cs : List Call) :
    List (Call × Hush.Outcome) := cs.zipIdx.map fun x => (x.1, ω x.2 x.1)

/-- A command that loads a file to an address. -/
def LoadsTo (addr : Text) (c : Call) : Prop :=
  c.words.head? = some "ext4load".toList ∧ c.words[3]? = some addr

/-- What is known of the memory at an address after one more command: the
    partition and the file that a load has read to it.  Nothing is known after a
    load that failed, nor after a command that is no load.  Files do not overlap. -/
def knownAt (addr : Text) (known : Option (Text × Text)) (x : Call × Hush.Outcome) :
    Option (Text × Text) :=
  match x.1.words with
  | [cmd, _, part, addr', file] =>
    if cmd = "ext4load".toList then
      if addr' = addr then if x.2 = .returned true then some (part, file) else none
      else known
    else none
  | _ => none

/-- What is known of the memory at an address after some commands. -/
def memoryAt (addr : Text) (xs : List (Call × Hush.Outcome)) : Option (Text × Text) :=
  xs.foldl (knownAt addr) none

/-- The addresses of the images `bootm` is given; a `-` is none of them, and what
    follows a `#` is the name of a configuration. -/
def imageAddrs (c : Call) : List Text :=
  (c.words.tail.filter (· ≠ ['-'])).map (List.takeWhile (· ≠ '#'))

/-- After the commands `xs`, `bootm` is asked for a kernel of a slot: everything
    was loaded from its partition, and every image is in memory if its load has
    succeeded. -/
structure StartsFrom (s : Slot) (xs : List (Call × Hush.Outcome)) (c : Call) : Prop where
  loads : ∀ x ∈ xs, x.1.words.head? = some "ext4load".toList →
    ∃ addr file, x.1 = ext4load s addr file
  nonempty : imageAddrs c ≠ []
  images : ∀ addr ∈ imageAddrs c, (∀ x ∈ xs, LoadsTo addr x.1 → x.2 = .returned true) →
    ∃ file, memoryAt addr xs = some (("0:" ++ s.part).toList, file)

section
variable {s : Slot} {addr file : String} {conf fdt args : String} {o : Hush.Outcome}
  {xs : List (Call × Hush.Outcome)} {before after : List Call} {c : Call}

theorem loadsTo_ext4load : LoadsTo addr.toList (ext4load s addr file) := ⟨rfl, rfl⟩

/-- A load that succeeded. -/
theorem memoryAt_load (h : o = .returned true) :
    memoryAt addr.toList (xs ++ [(ext4load s addr file, o)]) =
      some (("0:" ++ s.part).toList, file.toList) := by
  subst h
  rw [memoryAt, List.foldl_append]
  simp [knownAt, ext4load]

/-- A load to another address. -/
theorem memoryAt_load_of_ne {addr' : Text} (h : addr.toList ≠ addr') :
    memoryAt addr' (xs ++ [(ext4load s addr file, o)]) = memoryAt addr' xs := by
  rw [memoryAt, memoryAt, List.foldl_append]
  simp [knownAt, ext4load, h]

/-- A command is not the first one. -/
theorem before_cons {d : Call} {cs : List Call} (h : d :: cs = before ++ c :: after) (hd : d ≠ c) :
    ∃ before', before = d :: before' ∧ cs = before' ++ c :: after := by
  rcases List.cons_eq_append_iff.1 h with ⟨-, h⟩ | h
  · exact absurd (List.cons.inj h).1.symm hd
  · exact h

/-- The commands up to one that starts a kernel. -/
theorem bootCalls_kernel {legacy : Bool}
    (h : bootCalls s legacy conf fdt = before ++ c :: after) (hc : c.sees = some args) :
    (before = [ext4load s "0x28000000" "fitImage.signed"] ∧ c = bootm s ["0x28000000#" ++ conf]) ∨
      (before = fitCalls s conf ++
          [ext4load s "0x12000000" "/boot/uImage", ext4load s "0x22000000" fdt] ∧
        c = bootm s ["0x12000000", "-", "0x22000000"]) := by
  have hload : ∀ addr file, ext4load s addr file ≠ c := by
    rintro addr file rfl
    cases hc
  have hreset : reset ≠ c := by
    rintro rfl
    cases hc
  obtain ⟨rest, rfl, h₁⟩ := before_cons h (hload _ _)
  rcases List.cons_eq_append_iff.1 h₁ with ⟨rfl, hbootm⟩ | ⟨rest, rfl, h₂⟩
  · exact .inl ⟨rfl, (List.cons.inj hbootm).1⟩
  cases legacy with
  | false =>
    obtain ⟨rest, rfl, hend⟩ := before_cons h₂ hreset
    simp at hend
  | true =>
    obtain ⟨rest, rfl, h₃⟩ := before_cons h₂ (hload _ _)
    obtain ⟨rest, rfl, h₄⟩ := before_cons h₃ (hload _ _)
    rcases List.cons_eq_append_iff.1 h₄ with ⟨rfl, hbootm⟩ | ⟨rest, rfl, h₅⟩
    · exact .inr ⟨rfl, (List.cons.inj hbootm).1⟩
    obtain ⟨rest, rfl, hend⟩ := before_cons h₅ hreset
    simp at hend

theorem imageAddrs_fit (s : Slot) (conf : String) :
    imageAddrs (bootm s ["0x28000000#" ++ conf]) = ["0x28000000".toList] := by
  simp [imageAddrs, bootm]

/-- The FIT image is at its address. -/
theorem startsFrom_fit (ω : Oracle fun _ : Call => Hush.Outcome) (s : Slot) (conf : String) :
    StartsFrom s (withOutcomes ω [ext4load s "0x28000000" "fitImage.signed"])
      (bootm s ["0x28000000#" ++ conf]) := by
  have haddrs := imageAddrs_fit s conf
  refine ⟨?_, by simp [haddrs], ?_⟩
  · intro x hx _
    obtain rfl := List.mem_singleton.1 hx
    exact ⟨_, _, rfl⟩
  · intro addr haddr hok
    rw [haddrs, List.mem_singleton] at haddr
    subst haddr
    have hload := hok _ (List.mem_singleton_self _) loadsTo_ext4load
    exact ⟨_, @memoryAt_load _ _ _ _ [] hload⟩

/-- The plain kernel and its device tree are at their addresses. -/
theorem startsFrom_legacy (ω : Oracle fun _ : Call => Hush.Outcome) (s : Slot) (conf fdt : String) :
    StartsFrom s (withOutcomes ω (fitCalls s conf ++
        [ext4load s "0x12000000" "/boot/uImage", ext4load s "0x22000000" fdt]))
      (bootm s ["0x12000000", "-", "0x22000000"]) := by
  have haddrs : imageAddrs (bootm s ["0x12000000", "-", "0x22000000"]) =
      ["0x12000000".toList, "0x22000000".toList] := by
    cases s <;> decide
  have hcalls : withOutcomes ω (fitCalls s conf ++
        [ext4load s "0x12000000" "/boot/uImage", ext4load s "0x22000000" fdt]) =
      withOutcomes ω (fitCalls s conf) ++
        [(ext4load s "0x12000000" "/boot/uImage", ω 2 (ext4load s "0x12000000" "/boot/uImage"))] ++
          [(ext4load s "0x22000000" fdt, ω 3 (ext4load s "0x22000000" fdt))] := rfl
  refine ⟨?_, by simp [haddrs], ?_⟩
  · intro x hx hload
    simp only [withOutcomes, fitCalls, List.cons_append, List.nil_append, List.zipIdx_cons,
      List.zipIdx_nil, List.map_cons, List.map_nil, List.mem_cons, List.not_mem_nil, or_false] at hx
    rcases hx with rfl | rfl | rfl | rfl
    · exact ⟨_, _, rfl⟩
    · exact absurd (Option.some.inj hload) (by decide)
    · exact ⟨_, _, rfl⟩
    · exact ⟨_, _, rfl⟩
  · intro addr haddr hok
    rw [haddrs, List.mem_cons, List.mem_singleton] at haddr
    rw [hcalls] at hok ⊢
    rcases haddr with rfl | rfl
    · rw [memoryAt_load_of_ne (by decide)]
      exact ⟨_, memoryAt_load (hok (ext4load s "0x12000000" "/boot/uImage", _) (by simp)
        loadsTo_ext4load)⟩
    · exact ⟨_, memoryAt_load (hok (ext4load s "0x22000000" fdt, _) (by simp) loadsTo_ext4load)⟩

/-- Up to a command that starts a kernel, a boot loads the images of its slot,
    and hands over this slot. -/
theorem startsFrom_bootCalls {legacy : Bool} (ω : Oracle fun _ : Call => Hush.Outcome)
    (h : bootCalls s legacy conf fdt = before ++ c :: after) (hc : c.sees = some args) :
    StartsFrom s (withOutcomes ω before) c ∧ args = bootargs s := by
  obtain ⟨rfl, rfl⟩ | ⟨rfl, rfl⟩ := bootCalls_kernel h hc
  · exact ⟨startsFrom_fit ω s conf, (Option.some.inj hc).symm⟩
  · exact ⟨startsFrom_legacy ω s conf fdt, (Option.some.inj hc).symm⟩

end

/-- **The kernel mounts the root file system of the slot it is loaded from.**
    Over any number of boots, whatever commands fail: where a boot asks `bootm`
    for a kernel, everything was loaded from the partition of the selected slot,
    the images it is given are in memory as far as their loads have succeeded,
    and when the initramfs of this kernel has mounted a root file system, this is
    the verified one of the same slot. -/
theorem kernel_mounts_slot {board : Board} {n₀ : String} {stored₀ stored : ε}
    {boots : List (Hab × ε)} (hload : LoadsDefaults ε board) (hn : FdtFile board.defaultFdtFile n₀)
    (hsmall : Small stored₀)
    (hrun : Reboots (envFlash ε) HabAnswers (boot board) stored₀ boots stored)
    (F : InitFramework) :
    ∀ x ∈ boots, ∀ depth limit ω before c after args,
      (runScript (autoboot depth limit x.2) ω).2 = before ++ c :: after → c.sees = some args →
        StartsFrom (autobootSlot limit (bootSlot stored₀)) (withOutcomes ω before) c ∧
        ∀ (α : Type) (read : List Initrd.Mount → String → Option α) rootfsDir s₀ m ω ω',
          Initrd.Booted s₀ →
          exec (Initrd.machine read) (Initrd.hiposmountPrepare rootfsDir
            (F.bootparam args "firmwareslot")) s₀ ω = (.done (), m, ω') →
          m.mountedOn rootfsDir = some (Initrd.mapper
            (Initrd.labelVerityRootfs ++ (autobootSlot limit (bootSlot stored₀)).name)) ∧
          Initrd.Opened (autobootSlot limit (bootSlot stored₀)).name m := by
  intro x hx depth limit ω before c after args hlog hc
  obtain ⟨hon, fdt, n, hfdt, hvars⟩ := reboots_leave hload hn hsmall hrun x hx
  obtain ⟨rest, hcalls, -⟩ := autoboot_issued hon hfdt hvars depth limit ω
  rw [hlog, List.append_assoc, List.cons_append] at hcalls
  obtain ⟨hfrom, rfl⟩ := startsFrom_bootCalls ω hcalls hc
  refine ⟨hfrom, fun α read rootfsDir s₀ m ω ω' hbooted hmount => ?_⟩
  rw [bootparam_bootargs] at hmount
  obtain ⟨hopen, hmounts⟩ :=
    wp_done (Initrd.wp_hiposmountPrepare hbooted) (fun _ _ => trivial) hmount
  have hname : ∀ s : Slot, Initrd.firmwareslotOf s.name = s.name := by
    intro s
    cases s <;> decide
  rw [hname] at hopen hmounts
  exact ⟨hmounts.mountedOn, hopen⟩

/-! ## A board -/

/-- The variables of a board without a detection, most of which come from the
    default environment. -/
structure ImocEnv where
  vars : String → Option String

instance : UbootEnv ImocEnv where
  envGet e := e.vars
  envSet e n v := ⟨envSet e.vars n v⟩
  envGetUlong e := envGetUlong e.vars
  envSetUlong e n v := ⟨envSetUlong e.vars n v⟩
  envLoad fdt e := ⟨fun n => if n ∈ envFlagsList then e.vars n
    else (extraEnvSettings ⟨.other, fdt⟩).lookup n⟩
  envGet_envSet e := UbootEnv.envGet_envSet e.vars
  envGet_envSet_of_ne e := UbootEnv.envGet_envSet_of_ne e.vars
  envGet_envSetUlong_of_ne e := UbootEnv.envGet_envSetUlong_of_ne e.vars
  envGetUlong_absent e := UbootEnv.envGetUlong_absent e.vars
  envGetUlong_congr e e' := UbootEnv.envGetUlong_congr e.vars e'.vars
  envGetUlong_envSetUlong e := UbootEnv.envGetUlong_envSetUlong e.vars
  envGet_envLoad fdt e n h := if_pos h
  envLoad_fdtFile fdt e := by
    have hflags : "fdt_file" ∉ envFlagsList := by decide
    show (if "fdt_file" ∈ envFlagsList then e.vars "fdt_file"
      else (extraEnvSettings ⟨.other, fdt⟩).lookup "fdt_file") = some fdt
    rw [if_neg hflags]
    rfl

def imocBoard : Board := ⟨.other, "/boot/imx6q-himx0294-imoc-2.dtb"⟩

theorem imocBoard_fdtFile : FdtFile imocBoard.defaultFdtFile "imx6q-himx0294-imoc-2.dtb" :=
  fdtFile_of (by decide) (by decide) (by decide)

theorem imocBoard_loadsDefaults : LoadsDefaults ImocEnv imocBoard := by
  have hlookup : ∀ p ∈ extraEnvSettings imocBoard,
      (extraEnvSettings imocBoard).lookup p.1 = some p.2 := by decide
  intro e n v hmem hn
  exact (if_neg hn).trans (hlookup _ hmem)

/-- Its outside, where the environment is saved. -/
def imocOutside : Response (@BoardAns ImocEnv)
  | .gpioGetValue => (1 : ℤ)
  | .isCpuTypeMx6qp => false
  | .uclassGetDevice => (0 : ℤ)
  | .dmI2cProbe => (0 : ℤ)
  | .imxHabIsEnabled => false
  | .habRvtReportStatus => (.success, .opened, .nonsecure)
  | .envSave _ => true

/-- Its run, when it is asked to switch from slot b. -/
def imocRun : End Fault ImocEnv × ImocEnv × Oracle (@BoardAns ImocEnv) :=
  exec (envFlash ImocEnv) (boot imocBoard ⟨askedToSwitch⟩) ⟨askedToSwitch⟩ fun _ => imocOutside

set_option maxRecDepth 20000 in
/-- It boots, with the device tree it was built for. -/
theorem imocBoard_boots : ∃ e stored, Reboots (envFlash _) HabAnswers (boot imocBoard)
    (⟨askedToSwitch⟩ : ImocEnv) [(openHab, e)] stored ∧
      envGet e "fdt_file" = some imocBoard.defaultFdtFile := by
  have hω : ∀ (_ : ℕ) o, HabAnswers openHab o (imocOutside o) := by
    intro _ o
    cases o <;> first | rfl | exact trivial
  have hfdt : (match imocRun.1 with
      | .done e => envGet e "fdt_file"
      | .stopped _ => none) = some imocBoard.defaultFdtFile := by decide
  rcases hrun : imocRun with ⟨e | f, stored, ω'⟩
  · rw [hrun] at hfdt
    exact ⟨e, stored, .done openHab .nil hω hrun, hfdt⟩
  · rw [hrun] at hfdt
    cases hfdt

/-- A framework that looks for the first word. -/
def firstWord : InitFramework where
  bootparam cmdline name :=
    (((Words.words isBlank cmdline.toList).find? (name.toList ++ ['=']).isPrefixOf).map fun w =>
      String.ofList (w.drop (name.toList.length + 1))).getD ""
  bootparam_eq ws name value hws hmem honly := by
    have hfind : ws.find? (name.toList ++ ['=']).isPrefixOf =
        some (name.toList ++ '=' :: value.toList) := by
      cases hfound : ws.find? (name.toList ++ ['=']).isPrefixOf with
      | none =>
        refine absurd ?_ (List.find?_eq_none.1 hfound _ hmem)
        rw [List.isPrefixOf_iff_prefix]
        exact ⟨value.toList, by simp⟩
      | some w =>
        rw [honly w (List.mem_of_find?_eq_some hfound)
          (List.isPrefixOf_iff_prefix.1 (List.find?_some hfound))]
    have hdrop : (name.toList ++ '=' :: value.toList).drop (name.toList.length + 1) =
        value.toList := by
      rw [← List.singleton_append, ← List.append_assoc]
      exact List.drop_left' (by simp)
    rw [String.toList_ofList, Words.words_joinWith (by decide) hws, hfind, Option.map_some, hdrop,
      Option.getD_some, String.ofList_toList]

/-- All commands return. -/
def allReturn : Oracle fun _ : Call => Hush.Outcome := fun _ _ => .returned true

theorem boots_slot_switched : ∃ (e : ImocEnv) (fdt n : String), FdtFile fdt n ∧
    IssuedOf (bootCalls .a false (confOf n) fdt) (runScript (autoboot 0 false e) allReturn) := by
  obtain ⟨e, stored, hrun, -⟩ := imocBoard_boots
  obtain ⟨fdt, n, hfdt, -, hissued⟩ := boots_slot imocBoard_loadsDefaults imocBoard_fdtFile
    ⟨by decide, by decide, by decide⟩ hrun _ (List.mem_singleton_self _)
  exact ⟨e, fdt, n, hfdt, hissued 0 false allReturn⟩

/-- The kernel of slot a is started from what was loaded, and mounts slot a. -/
theorem kernel_mounts_slot_switched : ∃ (e : ImocEnv) (before after : List Call) (c : Call)
    (args : String) (file : Text), (runScript (autoboot 0 false e) allReturn).2 = before ++ c :: after ∧
      c.sees = some args ∧ imageAddrs c = ["0x28000000".toList] ∧
      memoryAt "0x28000000".toList (withOutcomes allReturn before) =
        some ("0:1".toList, file) ∧
      Initrd.nominalRun.2.1.mountedOn "/rootfs" =
        some (Initrd.mapper (Initrd.labelVerityRootfs ++ "a")) := by
  obtain ⟨e, stored, hrun, -⟩ := imocBoard_boots
  have hsmall : Small (⟨askedToSwitch⟩ : ImocEnv) := ⟨by decide, by decide, by decide⟩
  have hslot : bootSlot (⟨askedToSwitch⟩ : ImocEnv) = .a := by decide
  obtain ⟨hon, fdt, n, hfdt, hvars⟩ := reboots_leave imocBoard_loadsDefaults imocBoard_fdtFile
    hsmall hrun _ (List.mem_singleton_self _)
  rw [hslot] at hon
  obtain ⟨issued, rest, hcalls, hlog, (⟨_, _, _, rfl⟩ | ⟨_, _, _, _, hgone⟩)⟩ :=
    (issues_bootText 0 hvars .a false (confOf_ordinary hfdt) hfdt.plainWord).log []
      allReturn
  · rw [List.append_nil] at hcalls
    have hall : (runScript (autoboot 0 false e) allReturn).2 =
        [ext4load .a "0x28000000" "fitImage.signed"] ++
          bootm .a ["0x28000000#" ++ confOf n] :: [reset] := by
      rw [autoboot_eq hon]
      exact hlog.trans hcalls.symm
    obtain ⟨hfrom, hmounts⟩ := kernel_mounts_slot imocBoard_loadsDefaults imocBoard_fdtFile hsmall
      hrun firstWord _ (List.mem_singleton_self _) 0 false allReturn _ _ _ _ hall rfl
    rw [hslot] at hfrom hmounts
    rw [bootparam_bootargs] at hmounts
    have haddrs := imageAddrs_fit .a (confOf n)
    obtain ⟨file, hfile⟩ := hfrom.images "0x28000000".toList (by rw [haddrs]; exact List.mem_cons_self)
      fun x hx _ => by
        obtain rfl := List.mem_singleton.1 hx
        rfl
    have hdone : Initrd.nominalRun.1 = .done () := by decide
    exact ⟨e, _, _, _, _, file, hall, rfl, haddrs, hfile,
      (hmounts Unit _ "/rootfs" _ _ _ _ Initrd.booted_provisioned (Prod.ext hdone rfl)).1⟩
  · cases hgone

end MetaHipos.Uboot
