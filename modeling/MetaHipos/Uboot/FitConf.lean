/-
  The FIT configuration U-Boot asks for.

  The build names the configuration of a device tree file by a prefix and the
  name of the file.  U-Boot derives this name from `fdt_file`, in a buffer of
  32 bytes: a longer name is cut.  A `Char` stands for a byte here.

  * `boardGenerateFitConf_eq`: what U-Boot asks for;
  * `fitConf_agrees_iff`: this is the name in the image exactly if the name of
    the file has at most 26 bytes; the buffer is kept in any case.

  The names that the boards of `himx0294.c` load have at most 26 bytes: the one
  longer name of `himx0294.conf`, `imx6ull-himx0294-impec-2.dtb`, belongs to a
  board that is built from another file and boots another way.
-/
import Mathlib.Data.List.TakeWhile
import MetaHipos.Uboot.Board

namespace MetaHipos.Uboot

open Process

/-! ## The build -/

/-- `FITIMAGE_CONFIG_PREFIX` of `fitimage.bbclass`. -/
def fitimageConfigPrefix : String := "conf-"

/-- The configuration node that `fitimage_emit_section_config` emits for the
    device tree file `dtb`. -/
def fitimageConfigNode (dtb : String) : String := fitimageConfigPrefix ++ dtb

/-! ## C strings -/

theorem strrchr_eq_none {s : List Char} {c : Char} (h : c ∉ s) : strrchr s c = none := by
  induction s with
  | nil => rfl
  | cons x s ih =>
    rw [List.mem_cons, not_or] at h
    rw [strrchr, ih h.2]
    exact if_neg (Ne.symm h.1)

/-- The end of a string from its last separator on. -/
theorem strrchr_append (d : List Char) {n : List Char} {c : Char} (h : c ∉ n) :
    strrchr (d ++ c :: n) c = some (c :: n) := by
  induction d with
  | nil =>
    rw [List.nil_append, strrchr, strrchr_eq_none h]
    exact if_pos rfl
  | cons x d ih => rw [List.cons_append, strrchr, ih]

theorem length_charArray {n : ℕ} {s : List Char} (h : s.length ≤ n) :
    (charArray n s).length = n := by
  rw [charArray, List.length_append, List.length_replicate]
  omega

/-- A string in a buffer ends at the first `nul` after it. -/
theorem cstring_append {s rest : List Char} (h : nul ∉ s) :
    cstring (s ++ nul :: rest) = s := by
  have hs : ∀ c ∈ s, decide (c ≠ nul) = true := by
    intro c hc
    have hne : c ≠ nul := fun h' => h (h' ▸ hc)
    simpa using hne
  rw [cstring, List.takeWhile_append_of_pos hs, List.takeWhile_cons_of_neg (by simp),
    List.append_nil]

/-! ## The buffer -/

/-- The buffer after the copy: the prefix, 26 characters at most, and `nul`s. -/
theorem fitConfBuffer_eq (c : Char) (n : List Char) :
    fitConfBuffer (c :: n) = some ("conf-".toList ++ (charArray 26 (n.take 26) ++ [nul])) := by
  rw [fitConfBuffer]
  have hlen : (cstring (charArray 32 "conf-".toList)).length = 5 := by decide
  rw [hlen, List.tail_cons, strncpy, if_pos (by decide)]
  rfl

/-- The copy stays within the 32 bytes, and a `nul` is left at the end. -/
theorem fitConfBuffer_safe (c : Char) (n : List Char) :
    ∃ buf, fitConfBuffer (c :: n) = some buf ∧ buf.length = 32 ∧ nul ∈ buf := by
  refine ⟨_, fitConfBuffer_eq c n, ?_, by simp⟩
  have h26 : (charArray 26 (n.take 26)).length = 26 := length_charArray (List.length_take_le ..)
  rw [List.length_append, List.length_append, h26]
  rfl

theorem cstring_fitConfBuffer {n : List Char} (h : nul ∉ n) :
    cstring ("conf-".toList ++ (charArray 26 (n.take 26) ++ [nul])) =
      "conf-".toList ++ n.take 26 := by
  have hsplit : charArray 26 (n.take 26) ++ [nul] =
      n.take 26 ++ nul :: List.replicate (26 - (n.take 26).length) nul := by
    rw [charArray, List.append_assoc, List.append_cancel_left_eq, ← List.replicate_succ']
    rfl
  have hnul : nul ∉ "conf-".toList ++ n.take 26 := by
    rw [List.mem_append, not_or]
    exact ⟨by decide, fun h' => h (List.mem_of_mem_take h')⟩
  rw [hsplit, ← List.append_assoc, cstring_append hnul]

/-! ## What U-Boot asks for -/

variable {ε : Type} [UbootEnv ε] {e : ε} {d n : String}

/-- **`fit_conf` is the name of the file after the prefix**, cut to 26 bytes. -/
theorem boardGenerateFitConf_eq (hn : '/' ∉ n.toList) (h0 : nul ∉ n.toList)
    (he : envGet e "fdt_file" = some (d ++ "/" ++ n)) :
    ∃ e', boardGenerateFitConf e = pure e' ∧
      envGet e' "fit_conf" = some ("conf-" ++ String.ofList (n.toList.take 26)) := by
  have hsplit : strrchr (d ++ "/" ++ n).toList '/' = some ('/' :: n.toList) := by
    rw [String.toList_append, String.toList_append, List.append_assoc]
    exact strrchr_append d.toList hn
  have hconf : String.ofList (cstring ("conf-".toList ++
      (charArray 26 (n.toList.take 26) ++ [nul]))) =
        "conf-" ++ String.ofList (n.toList.take 26) := by
    rw [cstring_fitConfBuffer h0, String.ofList_append, String.ofList_toList]
  refine ⟨envSet e "fit_conf" ("conf-" ++ String.ofList (n.toList.take 26)), ?_, ?_⟩
  · simp only [boardGenerateFitConf, he, hsplit, fitConfBuffer_eq, hconf]
  · refine UbootEnv.envGet_envSet _ _ _ fun h => ?_
    have := congrArg String.length h
    simp at this

/-- The copy of the name keeps within its buffer of 32 bytes, with a `nul` left
    in it. -/
def FitConfBufferSafe (e : ε) : Prop :=
  ∀ fdtFile basename, envGet e "fdt_file" = some fdtFile →
    strrchr fdtFile.toList '/' = some basename →
      ∃ buf, fitConfBuffer basename = some buf ∧ buf.length = 32 ∧ nul ∈ buf

/-- U-Boot asks for the configuration of the device tree file `n`, and keeps
    within its buffer. -/
def FitConfAgrees (e : ε) (n : String) : Prop :=
  (∃ e', boardGenerateFitConf e = pure e' ∧
    envGet e' "fit_conf" = some (fitimageConfigNode n)) ∧ FitConfBufferSafe e

theorem fitConfBufferSafe (hn : '/' ∉ n.toList)
    (he : envGet e "fdt_file" = some (d ++ "/" ++ n)) : FitConfBufferSafe e := by
  intro fdtFile basename hfdt hbase
  rw [he] at hfdt
  cases hfdt
  rw [String.toList_append, String.toList_append, List.append_assoc] at hbase
  have hsplit := strrchr_append d.toList hn
  obtain rfl : '/' :: n.toList = basename := Option.some.inj (hsplit.symm.trans hbase)
  exact fitConfBuffer_safe _ _

/-- **The names agree exactly if** the name of the file has at most 26 bytes, and
    no name overruns the buffer. -/
theorem fitConf_agrees_iff (hn : '/' ∉ n.toList) (h0 : nul ∉ n.toList)
    (he : envGet e "fdt_file" = some (d ++ "/" ++ n)) :
    (FitConfAgrees e n ↔ n.length ≤ 26) ∧ FitConfBufferSafe e := by
  have hsafe : FitConfBufferSafe e := fitConfBufferSafe hn he
  obtain ⟨e', hrun, hcut⟩ := boardGenerateFitConf_eq hn h0 he
  refine ⟨⟨?_, ?_⟩, hsafe⟩
  · rintro ⟨⟨e'', hrun', hconf⟩, -⟩
    obtain rfl : e' = e'' := by
      have := hrun.symm.trans hrun'
      injection this
    rw [hconf] at hcut
    have := congrArg String.length (Option.some.inj hcut)
    simp [fitimageConfigNode, fitimageConfigPrefix] at this
    omega
  · intro hlen
    have htake : String.ofList (n.toList.take 26) = n := by
      rw [List.take_of_length_le (by rw [String.length_toList]; exact hlen), String.ofList_toList]
    exact ⟨⟨e', hrun, by rw [hcut, htake]; rfl⟩, hsafe⟩

/-- An environment with nothing but a device tree file. -/
def fdtFileOnly (fdtFile : String) : String → Option String :=
  fun v => if v = "fdt_file" then some fdtFile else none

/-- The longest name that fits. -/
theorem fitConf_agrees_dvmon :
    FitConfAgrees (fdtFileOnly "/boot/imx6q-himx0294-dvmon-2.dtb") "imx6q-himx0294-dvmon-2.dtb" :=
  (fitConf_agrees_iff (d := "/boot") (by decide) (by decide) (by decide)).1.2 (by decide)

/-- A name that is cut. -/
theorem fitConf_cut_impec :
    ¬ FitConfAgrees (fdtFileOnly "/boot/imx6ull-himx0294-impec-2.dtb")
      "imx6ull-himx0294-impec-2.dtb" := by
  rintro ⟨⟨e'', hrun', hconf⟩, -⟩
  obtain ⟨e', hrun, hcut⟩ := boardGenerateFitConf_eq
    (e := fdtFileOnly "/boot/imx6ull-himx0294-impec-2.dtb") (d := "/boot")
    (n := "imx6ull-himx0294-impec-2.dtb") (by decide) (by decide) (by decide)
  obtain rfl : e' = e'' := by
    have := hrun.symm.trans hrun'
    injection this
  rw [hconf] at hcut
  exact absurd (Option.some.inj hcut) (by decide)

end MetaHipos.Uboot
