/-
  What a board controller can do to the device identity.

  The script sorts the file of the board controller, so that the serial it
  judges is not the one the file itself defines; and it sources the file before
  it judges it.

  * `fetchInfo_cases`: what `fetch_info` does to a device with an identity;
  * `identity_kept`: the identity is kept, and replaced only by a sorted file
    with an accepted serial;
  * `run_of_rejected`: what a rejected file leaves behind;
  * `rejected_same_iff`: two rejected files leave the same behind exactly if the
    local file names the device, or they name the same one.
-/
import MetaHipos.DeviceInfo.Script
import MetaHipos.Process.Trace

namespace MetaHipos.DeviceInfo

open Assignments Process

variable {collate : InfoLine → InfoLine → Bool} {root : Root} {answer : Answer}
  {bctrl : Option InfoFile} {file devid : InfoFile} {vars : Vars} {s : State}

/-! ## Identities -/

/-- The file defines a serial that `serial_valid` accepts. -/
def Accepted (file : InfoFile) : Prop := serialValid (source unset file "serial") = true

/-- `/etc/hydraip-devid` defines an accepted serial. -/
def HasIdentity (root : Root) : Prop := ∃ devid, root.devid = some devid ∧ Accepted devid

instance : Decidable (Accepted file) := inferInstanceAs (Decidable (_ = true))

/-- The board controller sends a file that is not empty, and the script does not
    accept its serial. -/
structure Rejected (collate : InfoLine → InfoLine → Bool) (answer : Answer) (file : InfoFile) :
    Prop where
  drbcc : answer.drbcc = true
  bctrl : answer.bctrl = some file
  ne_nil : file ≠ []
  not_accepted : ¬ Accepted (sortUniq collate file)

/-- A file with an accepted serial sets the serial, whatever it was. -/
theorem serial_of_accepted (h : Accepted devid) (vars : Vars) :
    source vars devid "serial" = source unset devid "serial" := by
  unfold Accepted at h
  unfold source at h ⊢
  cases hl : lastValue (devid.map fun l => (l.key, l.value)) "serial" with
  | some serial => rw [assign_of_some hl, assign_of_some hl]
  | none =>
    rw [assign_of_none hl] at h
    exact absurd h (by decide)

theorem source_source (vars : Vars) (file : InfoFile) :
    source (source vars file) file = source vars file :=
  funext fun k => assign_assign vars _ k

/-! ## `fetch_info` -/

/-- The file the script works with is the sorted one. -/
theorem received_eq (received sorted : InfoFile) :
    (if received ≠ sorted then sorted else received) = sorted := by
  split
  · rfl
  · rename_i h
    exact Classical.not_not.1 h

/-- **What `fetch_info` does to a device with an identity**: nothing, or it takes
    over the sorted file. -/
theorem fetchInfo_cases (collate : InfoLine → InfoLine → Bool) (bctrl : Option InfoFile)
    (hd : root.devid = some devid) (ha : Accepted devid) :
    (bctrl.getD [] = [] ∧ (fetchInfo collate bctrl root).root = root ∧
        (fetchInfo collate bctrl root).vars = unset) ∨
      (bctrl.getD [] ≠ [] ∧ ¬ Accepted (sortUniq collate (bctrl.getD [])) ∧
        (fetchInfo collate bctrl root).root = root ∧
        (fetchInfo collate bctrl root).vars =
          source (source unset (sortUniq collate (bctrl.getD []))) devid) ∨
      (bctrl.getD [] ≠ [] ∧ Accepted (sortUniq collate (bctrl.getD [])) ∧
        (fetchInfo collate bctrl root).root =
          root.replaceDevid (sortUniq collate (bctrl.getD [])) ∧
        (fetchInfo collate bctrl root).bctrl = some (sortUniq collate (bctrl.getD []))) := by
  unfold fetchInfo
  generalize hf : bctrl.getD [] = file
  by_cases hne : file = []
  · refine Or.inl ⟨hne, ?_⟩
    simp only [hne, if_true]
    refine ⟨?_, trivial⟩
    rw [hd]
    obtain ⟨d, m, h⟩ := root
    cases hd
    rfl
  · refine Or.inr ?_
    simp only [hne, if_false, received_eq, hd]
    by_cases hT : Accepted (sortUniq collate file)
    · refine Or.inr ⟨hne, hT, ?_⟩
      have hT' : serialValid (source unset (sortUniq collate file) "serial") = true := hT
      simp only [hT', Bool.not_true, Bool.false_eq_true, if_false]
      refine ⟨trivial, ?_⟩
      split
      · rfl
      · rename_i hsame
        rw [← Classical.not_not.1 hsame]
        cases bctrl with
        | none => exact absurd hf.symm hne
        | some f => exact congrArg some hf
    · refine Or.inl ⟨hne, hT, ?_⟩
      have hT' : serialValid (source unset (sortUniq collate file) "serial") = false :=
        Bool.eq_false_iff.2 hT
      have hlocal : serialValid
          (source (source unset (sortUniq collate file)) devid "serial") = true := by
        rw [serial_of_accepted ha]
        exact ha
      simp only [hT', Bool.not_false, if_true, hlocal]
      exact ⟨trivial, trivial⟩

/-! ## The rest of the script -/

/-- The device type `update_device_type` takes from the variables. -/
def deviceType (vars : Vars) : String :=
  if vars "device" = "" then "unknown" else vars "device"

/-- The text of `/etc/hostname` after `update_hostname`. -/
def newHostname (serial : String) (hostname : Option String) : Option String :=
  if serialValid serial = true ∧
      (hostname = none ∨ hostname = some "hikirk" ∨ hostname = some "4080-0-00000") then
    some serial
  else hostname

theorem updateDeviceType_root (s : State) : (updateDeviceType s).root =
    { s.root with markers := fun name => name == deviceType s.vars } := by
  have hmarkers : (updateDeviceType s).root.markers = fun name => name == deviceType s.vars := by
    funext name
    show (Function.update s.root.markers (deviceType s.vars) true name &&
      name == deviceType s.vars) = (name == deviceType s.vars)
    by_cases hn : name = deviceType s.vars
    · subst hn
      simp
    · simp [hn]
  rw [← hmarkers]
  rfl

theorem updateHostname_root (s : State) : (updateHostname s).root =
    { s.root with hostname := newHostname (s.vars "serial") s.root.hostname } := by
  unfold updateHostname newHostname
  by_cases hv : serialValid (s.vars "serial") = true
  · simp only [hv, if_true, true_and]
    split <;> rfl
  · rw [if_neg hv, if_neg fun h => hv h.1]

theorem updateHostname_bctrl (s : State) : (updateHostname s).bctrl = s.bctrl := by
  unfold updateHostname
  split
  · split <;> rfl
  · rfl

/-- The files after `fetch_info` left `s`. -/
def finish (s : State) : Root :=
  let vars := source s.vars (s.root.devid.getD [])
  { s.root with
    markers := fun name => name == deviceType vars
    hostname := newHostname (vars "serial") s.root.hostname }

theorem run_eq (collate : InfoLine → InfoLine → Bool) (root : Root) (h : answer.drbcc = true) :
    (run collate answer root).root = finish (fetchInfo collate answer.bctrl root) ∧
      (run collate answer root).bctrl = (fetchInfo collate answer.bctrl root).bctrl := by
  unfold run
  simp only [h, Bool.not_true, Bool.false_eq_true, if_false]
  constructor
  · rw [updateHostname_root, updateDeviceType_root]
    rfl
  · rw [updateHostname_bctrl]
    rfl

theorem run_of_not_drbcc (h : answer.drbcc = false) :
    (run collate answer root).root = root := by
  simp [run, h]

/-! ## Runs of the script -/

/-- A run, for any answer of the board controller. -/
def bootStep (collate : InfoLine → InfoLine → Bool) (root : Root) (answer : Answer) :
    Except Empty Root :=
  .ok (run collate answer root).root

theorem replaceDevid_devid (root : Root) (tmp : InfoFile) :
    (root.replaceDevid tmp).devid = some tmp := by
  unfold Root.replaceDevid
  split
  · assumption
  · rfl

/-- The run replaces the identity by the sorted file of the board controller,
    which is the one it leaves there. -/
def TakesSorted (collate : InfoLine → InfoLine → Bool) (answer : Answer) (root : Root) : Prop :=
  ∃ file, answer.bctrl = some file ∧ Accepted (sortUniq collate file) ∧
    (run collate answer root).bctrl = some (sortUniq collate file)

/-- One run keeps the identity. -/
theorem run_keeps (h : HasIdentity root) :
    HasIdentity (run collate answer root).root ∧
      ((run collate answer root).root.devid ≠ root.devid → TakesSorted collate answer root) := by
  obtain ⟨devid, hd, ha⟩ := h
  cases hdr : answer.drbcc with
  | false =>
    rw [run_of_not_drbcc hdr]
    exact ⟨⟨devid, hd, ha⟩, fun hne => absurd rfl hne⟩
  | true =>
    obtain ⟨hroot, hb⟩ := run_eq collate root hdr
    rw [TakesSorted, hroot, hb]
    rcases fetchInfo_cases collate answer.bctrl hd ha with
      ⟨-, hr, -⟩ | ⟨-, -, hr, -⟩ | ⟨hne, hT, hr, hb'⟩
    · simp only [HasIdentity, finish, hr]
      exact ⟨⟨devid, hd, ha⟩, fun hne => absurd rfl hne⟩
    · simp only [HasIdentity, finish, hr]
      exact ⟨⟨devid, hd, ha⟩, fun hne => absurd rfl hne⟩
    · simp only [HasIdentity, finish, hr, replaceDevid_devid]
      refine ⟨⟨_, rfl, hT⟩, fun _ => ?_⟩
      cases hfile : answer.bctrl with
      | none => exact absurd (by rw [hfile]; rfl) hne
      | some file =>
        rw [hfile] at hT hb'
        exact ⟨file, rfl, hT, hb'⟩

/-- **The identity is kept by all later runs**, and replaced in a run only by the
    sorted file of the board controller, if that has an accepted serial. -/
theorem identity_kept {tr : List (Taken Root Answer)} {root₀ : Root}
    (h : Trace (bootStep collate) root₀ tr root) (h₀ : HasIdentity root₀) :
    HasIdentity root ∧ ∀ x ∈ tr, HasIdentity x.post ∧
      (x.post.devid ≠ x.pre.devid → TakesSorted collate x.op x.pre) := by
  obtain ⟨hI, hx⟩ := h.invariant HasIdentity (fun _ => True) h₀ (fun _ _ => trivial) (by
    intro s o s' hI hs _
    cases hs
    exact (run_keeps hI).1)
  refine ⟨hI, fun x hmem => ?_⟩
  obtain ⟨hpre, hpost, hs⟩ := hx x hmem
  have hrun : x.post = (run collate x.op x.pre).root := (Except.ok.inj hs).symm
  rw [hrun]
  exact run_keeps hpre

/-! ### Examples -/

def serialLine (serial : String) (h : serial.toList.all isPlain = true) : InfoLine :=
  ⟨"serial", serial, by decide, h⟩

def deviceLine (device : String) (h : device.toList.all isPlain = true) : InfoLine :=
  ⟨"device", device, by decide, h⟩

/-- A device with the identity of the given file, and nothing else. -/
def deviceWith (devid : InfoFile) : Root := ⟨some devid, fun _ => false, none⟩

/-- No answer, then a new serial. -/
theorem identity_kept_twice : ∃ tr root,
    Trace (bootStep cLocale) (deviceWith [serialLine "1111-1-11111" (by decide)]) tr root ∧
      tr.length = 2 ∧ HasIdentity root := by
  have h : Trace (bootStep cLocale) (deviceWith [serialLine "1111-1-11111" (by decide)]) _ _ :=
    .snoc ⟨true, some [serialLine "2222-2-22222" (by decide)]⟩ (.snoc ⟨true, none⟩ .nil rfl) rfl
  exact ⟨_, _, h, rfl, (identity_kept h ⟨_, rfl, by decide⟩).1⟩

/-- A file whose last serial is not accepted, until it is sorted. -/
def unsortedFile : InfoFile :=
  [serialLine "1234-5-67890" (by decide), serialLine "0-none" (by decide)]

/-- The identity is replaced although the file defines no accepted serial. -/
theorem identity_replaced : ¬ ∀ collate tr root₀ root, Trace (bootStep collate) root₀ tr root →
    HasIdentity root₀ → HasIdentity root ∧ ∀ x ∈ tr, HasIdentity x.post ∧
      (x.post.devid ≠ x.pre.devid → ∃ file, x.op.bctrl = some file ∧ Accepted file) := by
  intro h
  have hrun : Trace (bootStep cLocale) (deviceWith [serialLine "1111-1-11111" (by decide)]) _ _ :=
    .snoc ⟨true, some unsortedFile⟩ .nil rfl
  obtain ⟨file, hfile, hA⟩ := ((h _ _ _ _ hrun ⟨_, rfl, by decide⟩).2 _
    (List.mem_singleton_self _)).2 (by decide)
  obtain rfl : unsortedFile = file := Option.some.inj hfile
  exact absurd hA (by decide)

/-! ## Rejected files -/

/-- **What a rejected file leaves behind.** -/
theorem run_of_rejected (hd : root.devid = some devid) (ha : Accepted devid)
    (hr : Rejected collate answer file) : (run collate answer root).root =
      { devid := some devid
        markers := fun name =>
          name == deviceType (source (source unset (sortUniq collate file)) devid)
        hostname := newHostname (source unset devid "serial") root.hostname } := by
  rw [(run_eq collate root hr.drbcc).1]
  have hfile : answer.bctrl.getD [] = file := by rw [hr.bctrl]; rfl
  rcases fetchInfo_cases collate answer.bctrl hd ha with
    ⟨hnil, -⟩ | ⟨-, -, hroot, hvars⟩ | ⟨-, hT, -⟩
  · rw [hfile] at hnil
    exact absurd hnil hr.ne_nil
  · rw [finish, hroot, hvars, hfile, hd]
    simp only [Option.getD_some, source_source, serial_of_accepted ha]
  · rw [hfile] at hT
    exact absurd hT hr.not_accepted

/-- The local file names the device. -/
def NamesDevice (devid : InfoFile) : Prop := ∃ l ∈ devid, l.key = "device"

/-- A device the local file names is the one that counts. -/
theorem deviceType_source (h : NamesDevice devid) (vars : Vars) :
    deviceType (source vars devid) = deviceType (source unset devid) := by
  have hdev : source vars devid "device" = source unset devid "device" := by
    unfold source
    cases hl : lastValue (devid.map fun l => (l.key, l.value)) "device" with
    | some device => rw [assign_of_some hl, assign_of_some hl]
    | none =>
      obtain ⟨l, hmem, hkey⟩ := h
      exact absurd hkey (lastValue_eq_none.1 hl (l.key, l.value) (List.mem_map_of_mem hmem))
  simp only [deviceType, hdev]

theorem deviceType_source_of_not (h : ¬ NamesDevice devid) (vars : Vars) :
    deviceType (source vars devid) = deviceType vars := by
  have hdev : source vars devid "device" = vars "device" := by
    unfold source
    refine assign_of_none (lastValue_eq_none.2 fun x hx hkey => ?_)
    obtain ⟨l, hmem, rfl⟩ := List.mem_map.1 hx
    exact h ⟨l, hmem, hkey⟩
  simp only [deviceType, hdev]

/-- **Two rejected files leave the same behind exactly if the local file names the
    device, or they name the same one.** -/
theorem rejected_same_iff {answer₁ answer₂ : Answer} {file₁ file₂ : InfoFile}
    (hd : root.devid = some devid) (ha : Accepted devid) (h₁ : Rejected collate answer₁ file₁)
    (h₂ : Rejected collate answer₂ file₂) :
    (run collate answer₁ root).root = (run collate answer₂ root).root ↔
      NamesDevice devid ∨ deviceType (source unset (sortUniq collate file₁)) =
        deviceType (source unset (sortUniq collate file₂)) := by
  rw [run_of_rejected hd ha h₁, run_of_rejected hd ha h₂]
  by_cases hn : NamesDevice devid
  · simp only [deviceType_source hn, hn, true_or]
  · simp only [deviceType_source_of_not hn, hn, false_or]
    constructor
    · intro h
      have hmark := congrFun (congrArg Root.markers h)
        (deviceType (source unset (sortUniq collate file₁)))
      simpa using hmark
    · intro h
      rw [h]

/-- A file without a serial that names a device. -/
def otherDevice (device : String) (h : device.toList.all isPlain = true) : Answer :=
  ⟨true, some [deviceLine device h]⟩

theorem rejected_otherDevice (device : String) (h : device.toList.all isPlain = true) :
    Rejected cLocale (otherDevice device h) [deviceLine device h] :=
  ⟨rfl, rfl, List.cons_ne_nil _ _, fun hA => absurd hA Bool.false_ne_true⟩

/-- A device that knows what it is. -/
theorem rejected_same_named :
    (run cLocale (otherDevice "nas" (by decide)) (deviceWith
        [serialLine "1111-1-11111" (by decide), deviceLine "recorder" (by decide)])).root =
      (run cLocale (otherDevice "iprec" (by decide)) (deviceWith
        [serialLine "1111-1-11111" (by decide), deviceLine "recorder" (by decide)])).root :=
  (rejected_same_iff rfl (by decide) (rejected_otherDevice _ _) (rejected_otherDevice _ _)).2
    (Or.inl ⟨deviceLine "recorder" (by decide), by simp, rfl⟩)

/-- A device that does not: the rejected file decides which services start. -/
theorem rejected_not_same : ¬ ∀ collate root devid answer₁ answer₂ file₁ file₂,
    root.devid = some devid → Accepted devid → Rejected collate answer₁ file₁ →
      Rejected collate answer₂ file₂ →
      (run collate answer₁ root).root = (run collate answer₂ root).root := by
  intro h
  have hsame := h cLocale (deviceWith [serialLine "1111-1-11111" (by decide)]) _ _ _ _ _ rfl
    (by decide) (rejected_otherDevice "nas" (by decide)) (rejected_otherDevice "iprec" (by decide))
  exact absurd (congrFun (congrArg Root.markers hsame) "nas") (by decide)

end MetaHipos.DeviceInfo
